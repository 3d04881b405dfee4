import EchoStream.Core.InboundStreams
import EchoStream.Core.OutboundStreams

/-! Inbound streams in the browser. The handler for a name is called once, when it is
registered, with a receiver that all streams of the name push to. So it is the receiver
of a stream as long as no second one is opened. -/

namespace EchoStream.Web.StreamReceiver
open Foundation.Run
open Proto.Messages
open Core.StateMachine Core.InboundStreams
open Core.OutboundStreams (framesOf)

variable {V : Type}

/-- The calls of `recv` are numbered. An answer is a value, or none for the end. -/
structure Receiver (V : Type) where
  queue : List V
  waiters : List Nat
  ended : Bool
  calls : Nat
  answers : List (Nat × Option V)

namespace Receiver

def new : Receiver V := ⟨[], [], false, 0, []⟩

def recv (r : Receiver V) : Receiver V :=
  let call := r.calls
  let r := { r with calls := call + 1 }
  match r.queue with
  | value :: rest => { r with queue := rest, answers := r.answers ++ [(call, some value)] }
  | [] =>
      if r.ended then { r with answers := r.answers ++ [(call, none)] }
      else { r with waiters := r.waiters ++ [call] }

def push (value : Option V) (r : Receiver V) : Receiver V :=
  match value with
  | none => { r with ended := true, waiters := [], answers := r.answers ++ r.waiters.map (fun waiter => (waiter, none)) }
  | some value =>
      match r.waiters with
      | waiter :: rest => { r with waiters := rest, answers := r.answers ++ [(waiter, some value)] }
      | [] => { r with queue := r.queue ++ [value] }

end Receiver

/-- The stream listener that is registered with the receiver. Decoding gives a value, never
null, or throws, and then nothing is pushed. -/
def hear (decode : Bytes → Option V) (r : Receiver V) : Option StreamMsg → Receiver V
  | none => r.push none
  | some frame =>
      match decode frame.data with
      | some value => r.push (some value)
      | none => r

/-- The state machine, the receiver of the handler's name, and the messages so far. -/
structure Inbound (V : Type) where
  core : ClientCore
  receiver : Receiver V
  arrived : List Message

def Inbound.handed (s : Inbound V) : List (Receiver V) := [s.receiver]

inductive Label where
  | arrives (msg : Message)
  | recv

def openings (msgs : List Message) : List (UInt64 × String) :=
  msgs.filterMap (fun
    | .streamOpen opened => some (opened.id, opened.name)
    | _ => none)

/-- Streams have ids of their own, and their frames come after the opening up to the end. -/
def proper (arrived : List Message) : Message → Bool
  | .streamOpen opened => !((openings arrived).map Prod.fst).contains opened.id
  | .stream frame => ((openings arrived).map Prod.fst).contains frame.id && !ended frame.id arrived
  | .streamEnd e => ((openings arrived).map Prod.fst).contains e.id && !ended e.id arrived
  | _ => true

def step (decode : Bytes → Option V) (handler : String × ListenerId) : Step (Inbound V) Label
  | s, .recv => some { s with receiver := s.receiver.recv }
  | s, .arrives msg =>
      if proper s.arrived msg then
        let ((calls, _), core) := s.core.handleInbound msg
        some ⟨core, (given handler calls).foldl (hear decode) s.receiver, s.arrived ++ [msg]⟩
      else none

def Inbound.opened (name : String) (s : Inbound V) : List UInt64 :=
  (openings s.arrived).filterMap (fun entry => if entry.2 = name then some entry.1 else none)

/-- The calls are answered in their order with the values, and with none after the last of
them when there are no more, and none waits for what is there. What is not asked for yet
is in the queue. -/
structure Yields (r : Receiver V) (values : List V) (ended : Bool) : Prop where
  inOrder : r.answers.map Prod.fst ++ r.waiters = List.range r.calls
  whole : ∃ nulls, r.answers.map Prod.snd ++ r.queue.map some = values.map some ++ List.replicate nulls none ∧
    (ended = false → nulls = 0)
  ended : r.ended = ended
  prompt : r.waiters ≠ [] → r.queue = [] ∧ r.ended = false

/-- The receiver yields the data frames of the stream, decoded, and then its end. -/
def Hands (decode : Bytes → Option V) (s : Inbound V) (r : Receiver V) (id : UInt64) : Prop :=
  ∃ values, (framesOf id s.arrived).map (fun frame => decode frame.data) = values.map some ∧
    Yields r values (ended id s.arrived)

/-- Each object handed to the handler yields one stream of the name, once there is one,
and each stream of the name has an object of its own. -/
structure Served (decode : Bytes → Option V) (name : String) (s : Inbound V) : Prop where
  one : ∀ r ∈ s.handed, (s.opened name = [] ∧ Yields r [] false) ∨ ∃ id ∈ s.opened name, Hands decode s r id
  each : ∃ own : UInt64 → Nat, (∀ id ∈ s.opened name, ∃ r, s.handed[own id]? = some r ∧ Hands decode s r id) ∧
    ∀ id ∈ s.opened name, ∀ other ∈ s.opened name, own id = own other → id = other

/-- One stream of the name, with data that can be decoded. -/
def Fine (decode : Bytes → Option V) (name : String) (s : Inbound V) : Label → Prop
  | .arrives (.streamOpen opened) => opened.name = name → s.opened name = []
  | .arrives (.stream frame) => frame.id ∈ s.opened name → (decode frame.data).isSome = true
  | _ => True

variable {decode : Bytes → Option V} {name : String} {listener : ListenerId} {s t : Inbound V} {label : Label} {r : Receiver V}
  {values : List V} {finished : Bool}

theorem new_yields : Yields (Receiver.new : Receiver V) [] false :=
  ⟨rfl, ⟨0, rfl, fun _ => rfl⟩, rfl, fun waits => absurd rfl waits⟩

theorem Yields.recv (yields : Yields r values finished) : Yields r.recv values finished := by
  obtain ⟨nulls, whole, none_before⟩ := yields.whole
  rw [Receiver.recv]
  cases queued : r.queue with
  | cons value rest =>
    have idle : r.waiters = [] := by
      by_contra waits
      rw [(yields.prompt waits).1] at queued
      cases queued
    have order := yields.inOrder
    rw [idle, List.append_nil] at order
    rw [queued] at whole
    refine ⟨?_, ⟨nulls, ?_, none_before⟩, yields.ended, fun waits => absurd idle waits⟩
    · simp only [List.map_append, order, idle, List.append_nil, List.range_succ, List.map_cons, List.map_nil]
    · simpa only [List.map_append, List.map_cons, List.map_nil, List.append_assoc, List.singleton_append] using whole
  | nil =>
    rw [queued, List.map_nil, List.append_nil] at whole
    by_cases closed : r.ended = true
    · have idle : r.waiters = [] := by
        by_contra waits
        rw [(yields.prompt waits).2] at closed
        cases closed
      have order := yields.inOrder
      rw [idle, List.append_nil] at order
      rw [if_pos closed]
      refine ⟨?_, ⟨nulls + 1, ?_, fun going => ?_⟩, yields.ended, fun waits => absurd idle waits⟩
      · simp only [List.map_append, order, idle, List.append_nil, List.range_succ, List.map_cons, List.map_nil]
      · simp only [List.map_append, whole, List.map_cons, List.map_nil, List.append_nil, List.append_assoc,
          List.replicate_succ']
      · rw [yields.ended, going] at closed
        cases closed
    · rw [if_neg closed]
      refine ⟨?_, ⟨nulls, ?_, none_before⟩, yields.ended, fun _ => ⟨rfl, Bool.eq_false_iff.2 closed⟩⟩
      · simp only [← List.append_assoc, yields.inOrder, List.range_succ]
      · simpa only [queued, List.map_nil, List.append_nil] using whole

theorem Yields.push (yields : Yields r values false) (value : V) : Yields (r.push (some value)) (values ++ [value]) false := by
  obtain ⟨nulls, whole, none_before⟩ := yields.whole
  rw [none_before rfl, List.replicate_zero, List.append_nil] at whole
  rw [Receiver.push]
  cases waiting : r.waiters with
  | cons waiter rest =>
    have idle := (yields.prompt (by rw [waiting]; exact List.cons_ne_nil _ _)).1
    rw [idle, List.map_nil, List.append_nil] at whole
    refine ⟨?_, ⟨0, ?_, fun _ => rfl⟩, yields.ended, fun _ => ⟨idle, yields.ended⟩⟩
    · have order := yields.inOrder
      rw [waiting] at order
      simpa only [List.map_append, List.map_cons, List.map_nil, List.append_assoc, List.singleton_append] using order
    · simp only [List.map_append, whole, idle, List.map_cons, List.map_nil, List.append_nil, List.replicate_zero]
  | nil =>
    refine ⟨?_, ⟨0, ?_, fun _ => rfl⟩, yields.ended, fun waits => absurd rfl waits⟩
    · have order := yields.inOrder
      rwa [waiting] at order
    · simp only [List.map_append, ← List.append_assoc, whole, List.map_cons, List.map_nil, List.replicate_zero,
        List.append_nil]

theorem Yields.close (yields : Yields r values false) : Yields (r.push none) values true := by
  obtain ⟨nulls, whole, none_before⟩ := yields.whole
  rw [none_before rfl, List.replicate_zero, List.append_nil] at whole
  rw [Receiver.push]
  refine ⟨?_, ⟨r.waiters.length, ?_, fun going => nomatch going⟩, rfl, fun waits => absurd rfl waits⟩
  · have order := yields.inOrder
    simpa only [List.map_append, List.map_map, Function.comp_def, List.map_id', List.append_nil] using order
  · have nothing : (r.waiters.map (fun waiter => (waiter, (none : Option V)))).map Prod.snd =
        List.replicate r.waiters.length none := by
      rw [List.map_map, List.eq_replicate_iff]
      simp
    cases waiting : r.waiters with
    | nil => simpa only [List.map_nil, List.append_nil, List.length_nil, List.replicate_zero] using whole
    | cons waiter rest =>
      have idle := (yields.prompt (by rw [waiting]; exact List.cons_ne_nil _ _)).1
      rw [idle, List.map_nil, List.append_nil] at whole
      rw [← waiting, List.map_append, whole, nothing, idle, List.map_nil, List.append_nil]

/-- The handler is registered, every stream that was opened is known by its name, and
streams that were not opened have no frames. -/
structure Known (name : String) (listener : ListenerId) (s : Inbound V) : Prop where
  registered : s.core.streams.lookup name = some listener
  names : ∀ entry ∈ openings s.arrived, s.core.streamNames.lookup entry.1 = some entry.2
  nodup : ((openings s.arrived).map Prod.fst).Nodup
  frames : ∀ id, id ∉ (openings s.arrived).map Prod.fst → framesOf id s.arrived = [] ∧ ended id s.arrived = false

theorem openings_append (msgs : List Message) (msg : Message) :
    openings (msgs ++ [msg]) = openings msgs ++ openings [msg] := List.filterMap_append

theorem framesOf_append (id : UInt64) (msgs : List Message) (msg : Message) :
    framesOf id (msgs ++ [msg]) = framesOf id msgs ++ (told id msg).join.toList := by
  have single : framesOf id [msg] = (told id msg).join.toList := by
    cases msg with
    | stream frame => by_cases own : frame.id = id <;> simp [framesOf, told, own]
    | streamEnd e => by_cases own : e.id = id <;> simp [framesOf, told, own]
    | _ => rfl
  rw [← single]
  exact List.filterMap_append

theorem ended_single (id : UInt64) (msg : Message) : ended id [msg] = decide (told id msg = some none) := by
  rw [ended, List.any_cons, List.any_nil, Bool.or_false]

theorem told_other {id other : UInt64} {msg : Message} {frame : Option StreamMsg} (own : told id msg = some frame)
    (apart : other ≠ id) : told other msg = none := by
  cases msg with
  | stream sent =>
    obtain ⟨rfl, -⟩ : sent.id = id ∧ some sent = frame := by simpa [told] using own
    exact if_neg (Ne.symm apart)
  | streamEnd e =>
    obtain ⟨rfl, -⟩ : e.id = id ∧ none = frame := by simpa [told] using own
    exact if_neg (Ne.symm apart)
  | _ => cases own

theorem openings_told {id : UInt64} {msg : Message} {frame : Option StreamMsg} (own : told id msg = some frame) :
    openings [msg] = [] := by
  cases msg with
  | streamOpen opened => cases own
  | _ => rfl

/-- What a message does: it opens a stream, or it belongs to one that is open and goes
to the receiver if that has the name, or it has nothing to do with streams. -/
inductive Effect (decode : Bytes → Option V) (name : String) (s t : Inbound V) (msg : Message) : Prop
  | opens (opened : StreamOpenMsg) (same : msg = .streamOpen opened)
      (fresh : opened.id ∉ (openings s.arrived).map Prod.fst) (receiver : t.receiver = s.receiver) : Effect decode name s t msg
  | belongs (id : UInt64) (own : String) (frame : Option StreamMsg) (tells : told id msg = some frame)
      (known : (id, own) ∈ openings s.arrived) (going : ended id s.arrived = false)
      (receiver : t.receiver = if own = name then hear decode s.receiver frame else s.receiver) : Effect decode name s t msg
  | other (none_opened : openings [msg] = []) (tells : ∀ id, told id msg = none) (receiver : t.receiver = s.receiver) :
      Effect decode name s t msg

theorem heard_of_told (known : Known name listener s) {id : UInt64} {own : String} {msg : Message} {frame : Option StreamMsg}
    (tells : told id msg = some frame) (opened : (id, own) ∈ openings s.arrived) :
    (given (name, listener) (s.core.handleInbound msg).1.1).foldl (hear decode) s.receiver =
      if own = name then hear decode s.receiver frame else s.receiver := by
  rw [handleInbound_opened s.core (known.names _ opened) msg frame tells]
  by_cases mine : own = name
  · rw [if_pos mine, mine, known.registered]
    simp [given]
  · rw [if_neg mine]
    cases s.core.streams.lookup own <;> simp [given, mine]

theorem arrives_effect (known : Known name listener s) {msg : Message}
    (stepped : step decode (name, listener) s (.arrives msg) = some t) :
    t.arrived = s.arrived ++ [msg] ∧ t.core = (s.core.handleInbound msg).2 ∧ Effect decode name s t msg := by
  have belongs : ∀ {id frame}, told id msg = some frame → id ∈ (openings s.arrived).map Prod.fst →
      ended id s.arrived = false → ∀ {t : Inbound V},
      t.receiver = (given (name, listener) (s.core.handleInbound msg).1.1).foldl (hear decode) s.receiver →
        Effect decode name s t msg := by
    intro id frame tells opened going t receiver
    obtain ⟨⟨other, own⟩, member, same⟩ := List.mem_map.1 opened
    cases same
    exact .belongs _ own frame tells member going (receiver.trans (heard_of_told known tells member))
  rw [step] at stepped
  split at stepped
  · rename_i allowed
    cases stepped
    refine ⟨rfl, rfl, ?_⟩
    cases msg with
    | streamOpen opened =>
      rw [proper, Bool.not_eq_true', List.contains_eq_mem, decide_eq_false_iff_not] at allowed
      exact .opens opened rfl allowed rfl
    | stream frame =>
      rw [proper, Bool.and_eq_true, Bool.not_eq_true', List.contains_iff_mem] at allowed
      exact belongs (if_pos rfl) allowed.1 allowed.2 rfl
    | streamEnd e =>
      rw [proper, Bool.and_eq_true, Bool.not_eq_true', List.contains_iff_mem] at allowed
      exact belongs (if_pos rfl) allowed.1 allowed.2 rfl
    | request req =>
      have none_given : given (name, listener) (s.core.handleInbound (.request req)).1.1 = [] := by
        rw [ClientCore.handleInbound]
        split <;> rfl
      exact .other rfl (fun _ => rfl) (congrArg (List.foldl (hear decode) s.receiver) none_given)
    | response resp =>
      have none_given : given (name, listener) (s.core.handleInbound (.response resp)).1.1 = [] := by
        rw [ClientCore.handleInbound]
        split <;> rfl
      exact .other rfl (fun _ => rfl) (congrArg (List.foldl (hear decode) s.receiver) none_given)
    | event event =>
      have none_given : given (name, listener) (s.core.handleInbound (.event event)).1.1 = [] := by
        simp [given, ClientCore.handleInbound]
      exact .other rfl (fun _ => rfl) (congrArg (List.foldl (hear decode) s.receiver) none_given)
  · cases stepped

theorem Known.quiet (known : Known name listener s) {msg : Message} (arrived : t.arrived = s.arrived ++ [msg])
    (core : t.core = (s.core.handleInbound msg).2) (nothing : openings [msg] = [])
    (tells : ∀ id, id ∉ (openings s.arrived).map Prod.fst → told id msg = none) : Known name listener t := by
  have same : openings t.arrived = openings s.arrived := by
    rw [arrived, openings_append, nothing, List.append_nil]
  refine ⟨?_, fun entry member => ?_, by rw [same]; exact known.nodup, fun id absent => ?_⟩
  · rw [core, handleInbound_streams]
    exact known.registered
  · rw [same] at member
    have unnamed : opening entry.1 msg = none := by
      cases msg with
      | streamOpen opened => cases nothing
      | _ => rfl
    rw [core, handleInbound_streamNames, unnamed, Option.none_or]
    exact known.names entry member
  · rw [same] at absent
    obtain ⟨frames, going⟩ := known.frames id absent
    rw [arrived, framesOf_append, ended_append, ended_single, tells id absent, frames, going]
    exact ⟨rfl, rfl⟩

theorem Known.opens (known : Known name listener s) {opened : StreamOpenMsg}
    (arrived : t.arrived = s.arrived ++ [.streamOpen opened]) (core : t.core = (s.core.handleInbound (.streamOpen opened)).2)
    (fresh : opened.id ∉ (openings s.arrived).map Prod.fst) : Known name listener t := by
  have grown : openings t.arrived = openings s.arrived ++ [(opened.id, opened.name)] := by
    rw [arrived, openings_append]
    rfl
  refine ⟨?_, fun entry member => ?_, ?_, fun id absent => ?_⟩
  · rw [core, handleInbound_streams]
    exact known.registered
  · rw [core, handleInbound_streamNames]
    rw [grown, List.mem_append, List.mem_singleton] at member
    rcases member with old | new
    · have apart : opened.id ≠ entry.1 := by
        intro same
        exact fresh (same ▸ List.mem_map_of_mem old)
      rw [opening, if_neg apart, Option.none_or]
      exact known.names entry old
    · rw [new, opening, if_pos rfl, Option.some_or]
  · rw [grown, List.map_append, List.nodup_append]
    refine ⟨known.nodup, List.nodup_singleton _, ?_⟩
    intro id member other single same
    rw [List.map_singleton, List.mem_singleton] at single
    rw [same, single] at member
    exact fresh member
  · rw [grown, List.map_append, List.mem_append, not_or] at absent
    obtain ⟨frames, going⟩ := known.frames id absent.1
    rw [arrived, framesOf_append, ended_append, ended_single, frames, going]
    exact ⟨rfl, rfl⟩

theorem known_step (known : Known name listener s) (stepped : step decode (name, listener) s label = some t) :
    Known name listener t := by
  cases label with
  | recv =>
    cases stepped
    exact ⟨known.registered, known.names, known.nodup, known.frames⟩
  | arrives msg =>
    obtain ⟨arrived, core, effect⟩ := arrives_effect known stepped
    cases effect with
    | opens opened same fresh =>
      subst same
      exact known.opens arrived core fresh
    | belongs id own frame tells member =>
      refine known.quiet arrived core (openings_told tells) (fun other absent => told_other tells ?_)
      intro same
      exact absent (same ▸ List.mem_map_of_mem member)
    | other nothing tells => exact known.quiet arrived core nothing (fun id _ => tells id)

/-- There is no stream of the name yet, or one, and the receiver is its own. -/
def Sole (decode : Bytes → Option V) (name : String) (s : Inbound V) : Prop :=
  (s.opened name = [] ∧ Yields s.receiver [] false) ∨ ∃ id, s.opened name = [id] ∧ Hands decode s s.receiver id

theorem Known.distinct (known : Known name listener s) : (s.opened name).Nodup := by
  have sub : (s.opened name).Sublist ((openings s.arrived).map Prod.fst) := by
    rw [Inbound.opened]
    induction openings s.arrived with
    | nil => exact List.Sublist.slnil
    | cons entry rest ih =>
      rw [List.filterMap_cons, List.map_cons]
      split
      · exact ih.cons _
      · rename_i id same
        split at same
        · cases same
          exact ih.cons_cons _
        · cases same
  exact known.nodup.sublist sub

theorem served_iff (known : Known name listener s) : Served decode name s ↔ Sole decode name s := by
  constructor
  · intro served
    obtain ⟨own, hands, apart⟩ := served.each
    rcases served.one s.receiver (List.mem_singleton_self _) with ⟨none_opened, waits⟩ | ⟨id, member, yields⟩
    · exact .inl ⟨none_opened, waits⟩
    · refine .inr ⟨id, ?_, yields⟩
      have first : ∀ id ∈ s.opened name, own id = 0 := by
        intro id member
        obtain ⟨r, found, -⟩ := hands id member
        have below := (List.getElem?_eq_some_iff.1 found).1
        rw [Inbound.handed, List.length_singleton] at below
        omega
      have only : s.opened name = List.replicate (s.opened name).length id := by
        refine List.eq_replicate_iff.2 ⟨rfl, fun other also => ?_⟩
        exact apart other also id member ((first other also).trans (first id member).symm)
      have once := known.distinct
      rw [only, List.nodup_replicate] at once
      have some := List.length_pos_of_mem member
      rw [only, Nat.le_antisymm once some, List.replicate_one]
  · rintro (⟨none_opened, waits⟩ | ⟨id, alone, yields⟩)
    · refine ⟨fun r member => ?_, fun _ => 0, fun id member => ?_, fun id member => ?_⟩
      · rw [List.mem_singleton.1 member]
        exact .inl ⟨none_opened, waits⟩
      · rw [none_opened] at member
        exact absurd member List.not_mem_nil
      · rw [none_opened] at member
        exact absurd member List.not_mem_nil
    · refine ⟨fun r member => ?_, fun _ => 0, fun other member => ?_, fun first member second also _ => ?_⟩
      · rw [List.mem_singleton.1 member, alone]
        exact .inr ⟨id, List.mem_singleton_self id, yields⟩
      · rw [alone, List.mem_singleton] at member
        rw [member]
        exact ⟨s.receiver, rfl, yields⟩
      · rw [alone, List.mem_singleton] at member also
        rw [member, also]

theorem opened_of_openings (same : openings t.arrived = openings s.arrived) : t.opened name = s.opened name := by
  rw [Inbound.opened, Inbound.opened, same]

theorem hands_kept {id : UInt64} {msg : Message} (arrived : t.arrived = s.arrived ++ [msg]) (tells : told id msg = none) :
    Hands decode t r id ↔ Hands decode s r id := by
  rw [Hands, Hands, arrived, framesOf_append, ended_append, ended_single, tells]
  simp

theorem mem_opened {id : UInt64} : id ∈ s.opened name ↔ (id, name) ∈ openings s.arrived := by
  simp [Inbound.opened]

theorem Sole.kept (sole : Sole decode name s) {msg : Message} (arrived : t.arrived = s.arrived ++ [msg])
    (opened : t.opened name = s.opened name) (receiver : t.receiver = s.receiver)
    (tells : ∀ id ∈ s.opened name, told id msg = none) : Sole decode name t := by
  rw [Sole, opened, receiver]
  rcases sole with waits | ⟨id, alone, hands⟩
  · exact .inl waits
  · have member : id ∈ s.opened name := by
      rw [alone]
      exact List.mem_singleton_self id
    exact .inr ⟨id, alone, (hands_kept arrived (tells id member)).2 hands⟩

theorem sole_opens (known : Known name listener s) {opened : StreamOpenMsg} (sole : Sole decode name s)
    (arrived : t.arrived = s.arrived ++ [.streamOpen opened]) (fresh : opened.id ∉ (openings s.arrived).map Prod.fst)
    (receiver : t.receiver = s.receiver) : Sole decode name t ↔ (opened.name = name → s.opened name = []) := by
  have grown : t.opened name = s.opened name ++ if opened.name = name then [opened.id] else [] := by
    rw [Inbound.opened, arrived, openings_append, List.filterMap_append]
    by_cases mine : opened.name = name <;> simp [openings, Inbound.opened, mine]
  by_cases mine : opened.name = name
  · rw [if_pos mine] at grown
    constructor
    · rintro (⟨none_opened, -⟩ | ⟨id, alone, -⟩) -
      · rw [grown] at none_opened
        exact absurd none_opened (List.append_ne_nil_of_right_ne_nil _ (List.cons_ne_nil _ _))
      · rw [grown] at alone
        exact List.eq_nil_of_length_eq_zero (by simpa using congrArg List.length alone)
    · intro alone
      rcases sole with ⟨none_opened, waits⟩ | ⟨id, one, -⟩
      · obtain ⟨frames, going⟩ := known.frames opened.id fresh
        have hands : Hands decode s s.receiver opened.id := by
          refine ⟨[], ?_, ?_⟩
          · rw [frames]
            rfl
          · rw [going]
            exact waits
        refine .inr ⟨opened.id, by rw [grown, none_opened, List.nil_append], ?_⟩
        rw [receiver]
        exact (hands_kept arrived rfl).2 hands
      · rw [alone mine] at one
        cases one
  · rw [if_neg mine, List.append_nil] at grown
    exact iff_of_true (sole.kept arrived grown receiver (fun _ _ => rfl)) (fun same => absurd same mine)

theorem hands_told {id : UInt64} {msg : Message} {frame : Option StreamMsg} (tells : told id msg = some frame)
    (arrived : t.arrived = s.arrived ++ [msg]) (going : ended id s.arrived = false)
    (receiver : t.receiver = hear decode s.receiver frame) (hands : Hands decode s s.receiver id) :
    Hands decode t t.receiver id ↔ ∀ sent, frame = some sent → (decode sent.data).isSome = true := by
  obtain ⟨values, decoded, yields⟩ := hands
  rw [going] at yields
  have frames : framesOf id t.arrived = framesOf id s.arrived ++ frame.toList := by
    rw [arrived, framesOf_append, tells, Option.join_some]
  have closed : ended id t.arrived = decide (frame = none) := by
    rw [arrived, ended_append, ended_single, going, tells, Bool.false_or]
    exact decide_eq_decide.2 (Option.some_inj)
  rw [Hands, frames, closed, receiver]
  cases frame with
  | none =>
    refine iff_of_true ⟨values, ?_, yields.close⟩ (fun sent same => nomatch same)
    rw [Option.toList_none, List.append_nil, decoded]
  | some sent =>
    cases value : decode sent.data with
    | none =>
      refine iff_of_false ?_ (fun all => ?_)
      · rintro ⟨more, all, -⟩
        have member : none ∈ more.map some := by
          rw [← all, List.map_append, Option.toList_some, List.map_singleton, value]
          exact List.mem_append_right _ (List.mem_singleton_self _)
        obtain ⟨other, -, same⟩ := List.mem_map.1 member
        cases same
      · have some_value := all sent rfl
        rw [value] at some_value
        cases some_value
    | some value' =>
      refine iff_of_true ⟨values ++ [value'], ?_, ?_⟩ (fun other same => ?_)
      · rw [List.map_append, decoded, Option.toList_some, List.map_singleton, value, List.map_append, List.map_singleton]
      · simp only [hear, value]
        exact yields.push value'
      · cases same
        rw [value]
        rfl

/-- What tells of a stream of the name goes to the receiver, which has to be that stream's. -/
theorem sole_belongs (known : Known name listener s) (sole : Sole decode name s) {id : UInt64} {own : String} {msg : Message}
    {frame : Option StreamMsg} (tells : told id msg = some frame) (member : (id, own) ∈ openings s.arrived)
    (going : ended id s.arrived = false) (arrived : t.arrived = s.arrived ++ [msg]) (opened : t.opened name = s.opened name)
    (receiver : t.receiver = if own = name then hear decode s.receiver frame else s.receiver) :
    Sole decode name t ↔ (id ∈ s.opened name → ∀ sent, frame = some sent → (decode sent.data).isSome = true) := by
  by_cases mine : own = name
  · subst mine
    rw [if_pos rfl] at receiver
    have there : id ∈ s.opened own := mem_opened.2 member
    rcases sole with ⟨none_opened, -⟩ | ⟨one, alone, hands⟩
    · rw [none_opened] at there
      exact absurd there List.not_mem_nil
    · rw [alone, List.mem_singleton] at there
      subst there
      have told_iff := hands_told tells arrived going receiver hands
      rw [Sole, opened, alone]
      simpa using told_iff
  · have unnamed : id ∉ s.opened name := by
      intro there
      have entries := List.inj_on_of_nodup_map known.nodup member (mem_opened.1 there) rfl
      exact mine (congrArg Prod.snd entries)
    rw [if_neg mine] at receiver
    refine iff_of_true (sole.kept arrived opened receiver (fun other there => told_other tells ?_))
      (fun there => absurd there unnamed)
    rintro rfl
    exact unnamed there

theorem served_step (known : Known name listener s) (served : Served decode name s)
    (stepped : step decode (name, listener) s label = some t) : Served decode name t ↔ Fine decode name s label := by
  have later := known_step known stepped
  have sole := (served_iff known).1 served
  rw [served_iff later]
  cases label with
  | recv =>
    cases stepped
    refine iff_of_true ?_ trivial
    rcases sole with ⟨none_opened, waits⟩ | ⟨id, alone, values, decoded, yields⟩
    · exact .inl ⟨none_opened, waits.recv⟩
    · exact .inr ⟨id, alone, values, decoded, yields.recv⟩
  | arrives msg =>
    obtain ⟨arrived, -, effect⟩ := arrives_effect known stepped
    have unopened : openings [msg] = [] → t.opened name = s.opened name := by
      intro nothing
      apply opened_of_openings
      rw [arrived, openings_append, nothing, List.append_nil]
    cases effect with
    | opens opened same fresh receiver =>
      subst same
      exact sole_opens known sole arrived fresh receiver
    | other nothing tells receiver =>
      have fine : Fine decode name s (.arrives msg) := by
        cases msg with
        | streamOpen opened => cases nothing
        | stream frame =>
          have never := tells frame.id
          rw [told, if_pos rfl] at never
          cases never
        | _ => trivial
      exact iff_of_true (sole.kept arrived (unopened nothing) receiver (fun id _ => tells id)) fine
    | belongs id own frame tells member going receiver =>
      rw [sole_belongs known sole tells member going arrived (unopened (openings_told tells)) receiver]
      cases msg with
      | stream sent =>
        obtain ⟨rfl, rfl⟩ : sent.id = id ∧ some sent = frame := by simpa [told] using tells
        simp [Fine]
      | streamEnd e =>
        obtain ⟨rfl, rfl⟩ : e.id = id ∧ none = frame := by simpa [told] using tells
        simp [Fine]
      | _ => cases tells

/-- The handler is served along a run exactly when it gets one stream, and all of its
data can be decoded. -/
theorem served_iff_fine (decode : Bytes → Option V) (core : ClientCore)
    (registered : core.streams.lookup name = some listener) (labels : List Label) :
    Always (step decode (name, listener)) (Served decode name) ⟨core, .new, []⟩ labels ↔
      Guarded (step decode (name, listener)) (Fine decode name) ⟨core, .new, []⟩ labels := by
  have known : Known name listener (⟨core, .new, []⟩ : Inbound V) :=
    ⟨registered, fun entry member => absurd member List.not_mem_nil, List.nodup_nil, fun _ _ => ⟨rfl, rfl⟩⟩
  have start : Served decode name ⟨core, .new, []⟩ := (served_iff known).2 (.inl ⟨rfl, new_yields⟩)
  apply always_iff_guarded _ _ _ labels known start
  · exact fun s label t known stepped => known_step known stepped
  · exact fun s label t known served fine stepped => (served_step known served stepped).2 fine
  · exact fun s label t known served stepped later => (served_step known served stepped).1 later

/-- A handler of one stream name, with its receiver, and nothing received. -/
private def waiting : Inbound Bytes := ⟨(ClientCore.new.onStream "a").2, .new, []⟩

private def one : List Label :=
  [.recv, .arrives (.streamOpen ⟨1, "a", []⟩), .arrives (.stream ⟨1, 0, ⟨0⟩, [7]⟩), .arrives (.streamEnd ⟨1, 0, none, []⟩)]

theorem served_iff_fine_one :
    Always (step some ("a", 1)) (Served some "a") waiting one ↔ Guarded (step some ("a", 1)) (Fine some "a") waiting one :=
  served_iff_fine some (ClientCore.new.onStream "a").2 rfl one

private def two : List Label :=
  one ++ [.arrives (.streamOpen ⟨2, "a", []⟩), .arrives (.stream ⟨2, 0, ⟨0⟩, [8]⟩), .recv, .recv]

/-- The second of two streams goes to the receiver that had the first, after its end. -/
theorem streams_mixed :
    ¬ Always (step some ("a", 1)) (Served some "a") waiting two ∧
      ∃ s, run (step some ("a", 1)) waiting two = some s ∧
        s.receiver.answers = [(0, some [7]), (1, some [8]), (2, none)] := by
  refine ⟨fun always => ?_, ⟨_, rfl, rfl⟩⟩
  obtain ⟨own, hands, apart⟩ := (always.last rfl).each
  have first : ∀ id ∈ [1, 2], own id = 0 := by
    intro id member
    obtain ⟨r, found, -⟩ := hands id member
    have below := (List.getElem?_eq_some_iff.1 found).1
    exact Nat.lt_one_iff.1 below
  have same : own 1 = own 2 := (first 1 (by decide)).trans (first 2 (by decide)).symm
  have both : (1 : UInt64) = 2 := apart 1 (by decide) 2 (by decide) same
  exact absurd both (by decide)

end EchoStream.Web.StreamReceiver
