import EchoStream.Foundation.Trace
import EchoStream.Core.StateMachine
import EchoStream.Core.Stream

/-! Streams that come in to the client state machine. It routes a frame by the
name that its id was last opened with, and does not look whether the stream has
ended. A receiver of the native client keeps to its stream and to its end. -/

namespace EchoStream.Core.InboundStreams
open Foundation.Trace
open Proto.Messages
open Core.Stream StateMachine

def handleAll (core : ClientCore) : List Message → ClientCore
  | [] => core
  | msg :: rest => handleAll (core.handleInbound msg).2 rest

def told (id : UInt64) : Message → Option (Option StreamMsg)
  | .stream frame => if frame.id = id then some (some frame) else none
  | .streamEnd e => if e.id = id then some none else none
  | _ => none

def given (handler : String × ListenerId) (calls : List Call) : List (Option StreamMsg) :=
  calls.filterMap (fun
    | .stream name listener frame => if (name, listener) = handler then some frame else none
    | _ => none)

def delivered (handler : String × ListenerId) (id : UInt64) : ClientCore → List Message → List (Option StreamMsg)
  | _, [] => []
  | core, msg :: rest =>
      let ((calls, _), next) := core.handleInbound msg
      (if (told id msg).isSome then given handler calls else []) ++ delivered handler id next rest

def opening (id : UInt64) : Message → Option String
  | .streamOpen opened => if opened.id = id then some opened.name else none
  | _ => none

def lastName (id : UInt64) (msgs : List Message) : Option String :=
  msgs.reverse.findSome? (opening id)

def ended (id : UInt64) (msgs : List Message) : Bool :=
  msgs.any (fun msg => told id msg = some none)

/-- Each frame of the stream either comes before its first end, with the name
still the first one, or comes after it, when the id has another name. -/
def Regular (id : UInt64) (name : String) (msgs : List Message) : Prop :=
  ∀ seen msg, seen ++ [msg] <+: msgs → (told id msg).isSome →
    ((lastName id seen).getD name = name ↔ ended id seen = false)

variable {core : ClientCore} {handler : String × ListenerId} {id : UInt64} {name current : String}
  {listener : ListenerId}

theorem handleAll_append (core : ClientCore) (msgs more : List Message) :
    handleAll core (msgs ++ more) = handleAll (handleAll core msgs) more := by
  induction msgs generalizing core with
  | nil => rfl
  | cons msg rest ih => exact ih _

theorem delivered_append (core : ClientCore) (msgs more : List Message) :
    delivered handler id core (msgs ++ more) =
      delivered handler id core msgs ++ delivered handler id (handleAll core msgs) more := by
  induction msgs generalizing core with
  | nil => rfl
  | cons msg rest ih =>
    simp only [List.cons_append, delivered, handleAll, ih, List.append_assoc]

theorem lastName_append (id : UInt64) (msgs : List Message) (msg : Message) :
    lastName id (msgs ++ [msg]) = (opening id msg).or (lastName id msgs) := by
  rw [lastName, List.reverse_append, List.reverse_singleton, List.singleton_append, List.findSome?_cons]
  cases opening id msg <;> rfl

theorem ended_append (id : UInt64) (msgs more : List Message) :
    ended id (msgs ++ more) = (ended id msgs || ended id more) :=
  List.any_append

theorem handleInbound_streams (msg : Message) (core : ClientCore) :
    (core.handleInbound msg).2.streams = core.streams := by
  unfold ClientCore.handleInbound
  cases msg with
  | event event => rfl
  | streamOpen opened => rfl
  | _ =>
    dsimp only
    split <;> rfl

theorem handleInbound_streamNames (id : UInt64) (msg : Message) (core : ClientCore) :
    (core.handleInbound msg).2.streamNames.lookup id = (opening id msg).or (core.streamNames.lookup id) := by
  unfold ClientCore.handleInbound
  cases msg with
  | event event => rfl
  | streamOpen opened =>
    by_cases own : opened.id = id
    · simp [opening, own]
    · simp [opening, own, AList.lookup_insert_ne (Ne.symm own)]
  | _ =>
    dsimp only
    split <;> rfl

theorem handleAll_streams (core : ClientCore) (msgs : List Message) : (handleAll core msgs).streams = core.streams := by
  induction msgs generalizing core with
  | nil => rfl
  | cons msg rest ih => rw [handleAll, ih, handleInbound_streams]

theorem handleAll_streamNames (id : UInt64) (core : ClientCore) (msgs : List Message) :
    (handleAll core msgs).streamNames.lookup id = (lastName id msgs).or (core.streamNames.lookup id) := by
  induction msgs using List.reverseRecOn with
  | nil => rfl
  | append_singleton msgs msg ih =>
    rw [handleAll_append, handleAll, handleAll, handleInbound_streamNames, ih, lastName_append, Option.or_assoc]

theorem handleInbound_unopened (core : ClientCore) (unopened : core.streamNames.lookup id = none) (msg : Message)
    (own : (told id msg).isSome) : (core.handleInbound msg).1.1 = [] := by
  cases msg with
  | stream frame =>
    obtain rfl : frame.id = id := by simpa [told] using own
    simp [ClientCore.handleInbound, ClientCore.streamListener, unopened]
  | streamEnd e =>
    obtain rfl : e.id = id := by simpa [told] using own
    simp [ClientCore.handleInbound, ClientCore.streamListener, unopened]
  | _ => cases own

theorem handleInbound_opened (core : ClientCore) (opened : core.streamNames.lookup id = some current) (msg : Message)
    (frame : Option StreamMsg) (own : told id msg = some frame) :
    (core.handleInbound msg).1.1 =
      ((core.streams.lookup current).map (fun listener => Call.stream current listener frame)).toList := by
  cases msg with
  | stream sent =>
    obtain ⟨rfl, rfl⟩ : sent.id = id ∧ some sent = frame := by simpa [told] using own
    cases registered : core.streams.lookup current <;>
      simp [ClientCore.handleInbound, ClientCore.streamListener, opened, registered]
  | streamEnd e =>
    obtain ⟨rfl, rfl⟩ : e.id = id ∧ none = frame := by simpa [told] using own
    cases registered : core.streams.lookup current <;>
      simp [ClientCore.handleInbound, ClientCore.streamListener, opened, registered]
  | _ => cases own

theorem delivered_unopened (core : ClientCore) (unopened : core.streamNames.lookup id = none) (msg : Message) :
    delivered handler id core [msg] = [] := by
  simp only [delivered, List.append_nil]
  split
  · rename_i own
    rw [handleInbound_unopened core unopened msg own]
    rfl
  · rfl

theorem delivered_opened (core : ClientCore) (registered : core.streams.lookup name = some listener)
    (opened : core.streamNames.lookup id = some current) (msg : Message) :
    delivered (name, listener) id core [msg] = if current = name then (told id msg).toList else [] := by
  simp only [delivered, List.append_nil]
  cases own : told id msg with
  | none => simp
  | some frame =>
    rw [Option.isSome_some, if_pos rfl, handleInbound_opened core opened msg frame own]
    by_cases same : current = name
    · subst same
      simp [given, registered]
    · cases core.streams.lookup current <;> simp [given, same]

theorem heard_append (id : UInt64) (msgs : List Message) (msg : Message) :
    heard id (msgs ++ [msg]) = heard id msgs ++ if ended id msgs = false then (told id msg).toList else [] := by
  induction msgs with
  | nil =>
    cases msg with
    | stream frame => by_cases own : frame.id = id <;> simp [heard, told, ended, own]
    | streamEnd e => by_cases own : e.id = id <;> simp [heard, told, ended, own]
    | _ => rfl
  | cons first rest ih =>
    have step : ∀ tail, ended id (first :: tail) = (decide (told id first = some none) || ended id tail) := fun _ => rfl
    rw [List.cons_append, step]
    cases first with
    | stream frame => by_cases own : frame.id = id <;> simp [heard, told, own, ih]
    | streamEnd e => by_cases own : e.id = id <;> simp [heard, told, own, ih]
    | _ => exact ih

theorem delivered_before (handler : String × ListenerId) (core : ClientCore)
    (unopened : core.streamNames.lookup id = none) (msgs : List Message)
    (unnamed : ∀ msg ∈ msgs, opening id msg = none) :
    delivered handler id core msgs = [] ∧ (handleAll core msgs).streamNames.lookup id = none := by
  induction msgs using List.reverseRecOn with
  | nil => exact ⟨rfl, unopened⟩
  | append_singleton msgs msg ih =>
    obtain ⟨silent, still⟩ := ih (fun other member => unnamed other (List.mem_append_left _ member))
    constructor
    · rw [delivered_append, silent, delivered_unopened _ still]
      rfl
    · rw [handleAll_append, handleAll, handleAll, handleInbound_streamNames, still,
        unnamed msg (List.mem_append_right _ (List.mem_singleton_self msg))]
      rfl

theorem handleAll_opened (core : ClientCore) (before seen : List Message) (metadata : List StreamMetaEntry) :
    (handleAll core (before ++ .streamOpen ⟨id, name, metadata⟩ :: seen)).streamNames.lookup id =
      some ((lastName id seen).getD name) := by
  rw [handleAll_append, handleAll, handleAll_streamNames, handleInbound_streamNames, opening, if_pos rfl,
    Option.some_or, Option.or_some]

/-- From its first open on, the handler of a stream is given what a receiver of it
is told, exactly when the frames of the stream are regular. -/
theorem delivered_iff_regular (core : ClientCore) (registered : core.streams.lookup name = some listener)
    (unopened : core.streamNames.lookup id = none) (before after : List Message) (metadata : List StreamMetaEntry)
    (unnamed : ∀ msg ∈ before, opening id msg = none) (r : Receiver) (own : r.id = id) (live : r.ended = false) :
    (∀ seen, seen <+: after →
      delivered (name, listener) id core (before ++ .streamOpen ⟨id, name, metadata⟩ :: seen) = (r.feed seen).1) ↔
      Regular id name after := by
  have start : delivered (name, listener) id core (before ++ [.streamOpen ⟨id, name, metadata⟩]) = [] := by
    obtain ⟨silent, still⟩ := delivered_before (name, listener) core unopened before unnamed
    rw [delivered_append, silent, delivered_unopened _ still]
    rfl
  have grows : ∀ seen msg,
      delivered (name, listener) id core (before ++ .streamOpen ⟨id, name, metadata⟩ :: (seen ++ [msg])) =
        delivered (name, listener) id core (before ++ .streamOpen ⟨id, name, metadata⟩ :: seen) ++
          if (lastName id seen).getD name = name then (told id msg).toList else [] := by
    intro seen msg
    rw [← List.cons_append, ← List.append_assoc, delivered_append,
      delivered_opened _ (by rw [handleAll_streams, registered]) (handleAll_opened core before seen metadata)]
  simp only [feed_heard r live, own]
  rw [agree_iff_adds start grows (heard_append id)]
  constructor
  · intro same seen msg along carried
    obtain ⟨frame, tells⟩ := Option.isSome_iff_exists.1 carried
    have adds := same seen msg along
    rw [tells] at adds
    by_cases named : (lastName id seen).getD name = name
    · by_cases going : ended id seen = false
      · exact ⟨fun _ => going, fun _ => named⟩
      · rw [if_pos named, if_neg going] at adds
        cases adds
    · by_cases going : ended id seen = false
      · rw [if_neg named, if_pos going] at adds
        cases adds
      · exact ⟨fun again => absurd again named, fun again => absurd again going⟩
  · intro regular seen msg along
    cases tells : told id msg with
    | none => rw [Option.toList_none, ite_self, ite_self]
    | some frame =>
      have both := regular seen msg along (by rw [tells]; rfl)
      simp only [both]

private def listening : ClientCore := (ClientCore.new.onStream "a").2

private def receiving : Receiver :=
  { io := [], id := 7, name := "a", metadata := [], pending := none, endCode := 0, endMessage := none,
    endMetadata := [], ended := false }

private def frame (seq : UInt64) : Message := .stream ⟨7, seq, ⟨0⟩, []⟩

private def theEnd : Message := .streamEnd ⟨7, 0, none, []⟩

theorem delivered_iff_regular_ended :
    (∀ seen, seen <+: [frame 0, theEnd] →
      delivered ("a", 1) 7 listening (frame 9 :: .streamOpen ⟨7, "a", []⟩ :: seen) = (receiving.feed seen).1) ↔
      Regular 7 "a" [frame 0, theEnd] :=
  delivered_iff_regular listening rfl rfl [frame 9] [frame 0, theEnd] [] (by decide) receiving rfl rfl

/-- A frame and a second end after the end. -/
theorem delivered_after_end :
    listening.streams.lookup "a" = some 1 ∧ listening.streamNames.lookup 7 = none ∧
      delivered ("a", 1) 7 listening [.streamOpen ⟨7, "a", []⟩, frame 0, theEnd, frame 1, theEnd] ≠
        (receiving.feed [frame 0, theEnd, frame 1, theEnd]).1 := by
  refine ⟨rfl, rfl, fun same => ?_⟩
  have both : [some ⟨7, 0, ⟨0⟩, []⟩, none, some ⟨7, 1, ⟨0⟩, []⟩, none] = [some (⟨7, 0, ⟨0⟩, []⟩ : StreamMsg), none] := same
  cases both

end EchoStream.Core.InboundStreams
