import Mathlib.Data.List.Perm.Subperm
import EchoStream.Foundation.Lossy
import EchoStream.Proto.Postcard
import EchoStream.Core.Dispatch

/-! Unreliable events. `emit_unreliable_raw` hands each event to the transport as one datagram.
At the other end a task of the connection takes the datagrams in the order they have arrived,
and dispatches the events among them one after the other; the sections of a dispatch take turns
with whatever else runs there. -/

namespace EchoStream.Core.Datagrams
open Foundation.Run Foundation.Tasks Foundation.Lossy
open Proto.Messages Proto.Postcard
open Handler Chain Dispatch

variable {ω : Type}

/-- What the call returns, the datagram that the transport has accepted, and the next number. -/
def emitUnreliableRaw (supportsDatagram : Bool) (sendDatagram : Bytes → Result Unit) (name : String) (payload : Bytes)
    (nextMsgId : UInt64) : Result Unit × Option Bytes × UInt64 :=
  if supportsDatagram then
    match wire.toAllocvec (.event ⟨nextMsgId, name, payload⟩) with
    | .error e => (.error (.serialization e), none, nextMsgId + 1)
    | .ok data =>
        match sendDatagram data with
        | .error e => (.error e, none, nextMsgId + 1)
        | .ok () => (.ok (), some data, nextMsgId + 1)
  else (.error (.protocol "传输不支持数据报通道"), none, nextMsgId)

def eventOf (data : Bytes) : Option EventMsg :=
  match wire.fromBytes data with
  | .ok (.event event) => some event
  | _ => none

def received (clock : Clock ω) (router : Router ω) (session : SessionId) (data : Bytes) : Task (World ω) Unit :=
  match wire.fromBytes data with
  | .ok msg => dispatchInboundDatagram clock router session msg
  | .error _ => pure ()

/-- A sender and the task at the other end. `allocated` counts the numbers that the sender has
given to messages of any kind; `hearing` says that the task is there, which needs a connection
with datagrams, and still receives; `task` is what is left of the dispatch at work. -/
structure Channel (ω : Type) where
  nextMsgId : UInt64
  allocated : Nat
  emitted : List EventMsg
  foreign : List Bytes
  post : Post Bytes
  hearing : Bool
  task : Task (World ω) Unit
  world : World ω

def Channel.init (hearing : Bool) (world : World ω) : Channel ω :=
  ⟨1, 0, [], [], .empty, hearing, pure (), world⟩

/-- The events whose dispatch has begun, in that order. -/
def Channel.dispatched (s : Channel ω) : List EventMsg := s.post.taken.filterMap eventOf

/-- `number` is a message of another kind that takes a number, `inject` a datagram that no such
call has sent, `other` a section of another task of the receiving program, and `fail` an error
of `recv_datagram`. -/
inductive Label (ω : Type) where
  | emit (name : String) (payload : Bytes) (sendDatagram : Bytes → Result Unit)
  | number
  | inject (data : Bytes)
  | lose (k : Nat)
  | arrive (k : Nat)
  | evict
  | receive
  | work
  | other (update : World ω → World ω)
  | fail

variable (clock : Clock ω) (router : Router ω) (session : SessionId) (supportsDatagram : Bool)

def emit (name : String) (payload : Bytes) (sendDatagram : Bytes → Result Unit) (s : Channel ω) : Channel ω :=
  match emitUnreliableRaw supportsDatagram sendDatagram name payload s.nextMsgId with
  | (_, none, nextMsgId) =>
      { s with nextMsgId, allocated := if supportsDatagram then s.allocated + 1 else s.allocated }
  | (_, some data, nextMsgId) =>
      { s with
        nextMsgId
        allocated := s.allocated + 1
        emitted := s.emitted ++ [⟨s.nextMsgId, name, payload⟩]
        post := s.post.send data }

def receive (s : Channel ω) : Option (Channel ω) :=
  match s.hearing, s.task with
  | true, .done () => s.post.take.map (fun taken => { s with post := taken.2, task := received clock router session taken.1 })
  | _, _ => none

def work (s : Channel ω) : Option (Channel ω) :=
  match s.task with
  | .step update next => some { s with world := update s.world, task := next s.world }
  | .done () => none

def fail (s : Channel ω) : Option (Channel ω) :=
  match s.hearing, s.task with
  | true, .done () => some { s with hearing := false }
  | _, _ => none

def step : Step (Channel ω) (Label ω)
  | s, .emit name payload sendDatagram => some (emit supportsDatagram name payload sendDatagram s)
  | s, .number => some { s with nextMsgId := s.nextMsgId + 1, allocated := s.allocated + 1 }
  | s, .inject data => some { s with foreign := s.foreign ++ [data], post := s.post.send data }
  | s, .lose k => (s.post.lose k).map (fun post => { s with post })
  | s, .arrive k => (s.post.arrive k).map (fun post => { s with post })
  | s, .evict => s.post.evict.map (fun post => { s with post })
  | s, .receive => receive clock router session s
  | s, .work => work s
  | s, .other update => some { s with world := update s.world }
  | s, .fail => fail s

/-- The channel whose task cannot go on with a dispatch that waits. -/
def awaiting (waits : Task (World ω) Unit → World ω → Bool) : Step (Channel ω) (Label ω)
  | s, .work => if waits s.task s.world then none else work s
  | s, label => step clock router session supportsDatagram s label

/-- Nothing but what the calls sent is under way, and no datagram overtakes another. -/
def Label.Orderly : Label ω → Prop
  | .inject _ => False
  | .arrive k => k = 0
  | _ => True

def Label.Lossless : Label ω → Prop
  | .lose _ => False
  | .evict => False
  | _ => True

/-- No other task of the receiving program does anything. -/
def Label.Alone : Label ω → Prop
  | .other _ => False
  | _ => True

/-- The steps of the receiving task. -/
def Label.Own : Label ω → Prop
  | .receive => True
  | .work => True
  | _ => False

variable {clock : Clock ω} {router : Router ω} {session : SessionId} {supportsDatagram : Bool}
variable {s t : Channel ω} {label : Label ω}

/-- A call returns success exactly if the transport has the datagram. -/
theorem emitUnreliableRaw_ok_iff (sendDatagram : Bytes → Result Unit) (name : String) (payload : Bytes) (nextMsgId : UInt64) :
    (emitUnreliableRaw supportsDatagram sendDatagram name payload nextMsgId).1 = .ok () ↔
      ∃ data, (emitUnreliableRaw supportsDatagram sendDatagram name payload nextMsgId).2.1 = some data := by
  unfold emitUnreliableRaw
  split
  · split
    · simp
    · split <;> simp
  · simp

theorem emitUnreliableRaw_some {sendDatagram : Bytes → Result Unit} {name : String} {payload data : Bytes} {nextMsgId : UInt64}
    (sent : (emitUnreliableRaw supportsDatagram sendDatagram name payload nextMsgId).2.1 = some data) :
    supportsDatagram = true ∧ wire.toAllocvec (.event ⟨nextMsgId, name, payload⟩) = .ok data := by
  unfold emitUnreliableRaw at sent
  split at sent
  · next supported =>
    refine ⟨supported, ?_⟩
    split at sent
    · cases sent
    · next encoded same =>
      rw [same]
      split at sent
      · cases sent
      · next accepted =>
        cases sent
        rfl
  · cases sent

theorem emitUnreliableRaw_next (supportsDatagram : Bool) (sendDatagram : Bytes → Result Unit) (name : String) (payload : Bytes)
    (nextMsgId : UInt64) :
    (emitUnreliableRaw supportsDatagram sendDatagram name payload nextMsgId).2.2 =
      if supportsDatagram then nextMsgId + 1 else nextMsgId := by
  unfold emitUnreliableRaw
  split
  · split
    · rfl
    · split <;> rfl
  · rfl

theorem eventOf_encoded {event : EventMsg} {data : Bytes} (encoded : wire.toAllocvec (.event event) = .ok data) :
    eventOf data = some event := by
  rw [eventOf, wire_inverse _ _ encoded]

theorem emit_cases (supportsDatagram : Bool) (name : String) (payload : Bytes) (sendDatagram : Bytes → Result Unit)
    (s : Channel ω) :
    emit supportsDatagram name payload sendDatagram s =
      { s with
        nextMsgId := if supportsDatagram then s.nextMsgId + 1 else s.nextMsgId
        allocated := if supportsDatagram then s.allocated + 1 else s.allocated } ∨
    ∃ data, eventOf data = some ⟨s.nextMsgId, name, payload⟩ ∧ emit supportsDatagram name payload sendDatagram s =
      { s with
        nextMsgId := s.nextMsgId + 1
        allocated := s.allocated + 1
        emitted := s.emitted ++ [⟨s.nextMsgId, name, payload⟩]
        post := s.post.send data } := by
  have next := emitUnreliableRaw_next supportsDatagram sendDatagram name payload s.nextMsgId
  cases outcome : emitUnreliableRaw supportsDatagram sendDatagram name payload s.nextMsgId with
  | mk result rest =>
    obtain ⟨accepted, nextMsgId⟩ := rest
    rw [outcome] at next
    cases accepted with
    | none =>
      refine Or.inl ?_
      rw [emit, outcome]
      dsimp only
      rw [← next]
    | some data =>
      have sent : (emitUnreliableRaw supportsDatagram sendDatagram name payload s.nextMsgId).2.1 = some data := by
        rw [outcome]
      obtain ⟨supported, encoded⟩ := emitUnreliableRaw_some sent
      rw [if_pos supported] at next
      refine Or.inr ⟨data, eventOf_encoded encoded, ?_⟩
      rw [emit, outcome]
      dsimp only
      rw [← next]

inductive Effect (clock : Clock ω) (router : Router ω) (session : SessionId) (s : Channel ω) :
    Label ω → Channel ω → Prop where
  | stays {label : Label ω} : Effect clock router session s label s
  | numbers {label : Label ω} :
      Effect clock router session s label { s with nextMsgId := s.nextMsgId + 1, allocated := s.allocated + 1 }
  | emits {name : String} {payload data : Bytes} {sendDatagram : Bytes → Result Unit}
      (inside : eventOf data = some ⟨s.nextMsgId, name, payload⟩) :
      Effect clock router session s (.emit name payload sendDatagram)
        { s with
          nextMsgId := s.nextMsgId + 1
          allocated := s.allocated + 1
          emitted := s.emitted ++ [⟨s.nextMsgId, name, payload⟩]
          post := s.post.send data }
  | injects (data : Bytes) :
      Effect clock router session s (.inject data) { s with foreign := s.foreign ++ [data], post := s.post.send data }
  | loses {k : Nat} {post : Post Bytes} (lost : s.post.lose k = some post) :
      Effect clock router session s (.lose k) { s with post }
  | arrives {k : Nat} {post : Post Bytes} (arrived : s.post.arrive k = some post) :
      Effect clock router session s (.arrive k) { s with post }
  | evicts {post : Post Bytes} (evicted : s.post.evict = some post) :
      Effect clock router session s .evict { s with post }
  | receives {data : Bytes} {post : Post Bytes} (hearing : s.hearing = true) (idle : s.task = .done ())
      (took : s.post.take = some (data, post)) :
      Effect clock router session s .receive { s with post, task := received clock router session data }
  | works {update : World ω → World ω} {next : World ω → Task (World ω) Unit} (busy : s.task = .step update next) :
      Effect clock router session s .work { s with world := update s.world, task := next s.world }
  | others (update : World ω → World ω) :
      Effect clock router session s (.other update) { s with world := update s.world }
  | fails : Effect clock router session s .fail { s with hearing := false }

theorem step_effect (stepped : step clock router session supportsDatagram s label = some t) :
    Effect clock router session s label t := by
  cases label with
  | emit name payload sendDatagram =>
    cases stepped
    rcases emit_cases supportsDatagram name payload sendDatagram s with unsent | ⟨data, inside, sent⟩
    · rw [unsent]
      cases supportsDatagram with
      | false => exact .stays
      | true => exact .numbers
    · rw [sent]
      exact .emits inside
  | number =>
    cases stepped
    exact .numbers
  | inject data =>
    cases stepped
    exact .injects data
  | lose k =>
    obtain ⟨post, lost, rfl⟩ := Option.map_eq_some_iff.1 stepped
    exact .loses lost
  | arrive k =>
    obtain ⟨post, arrived, rfl⟩ := Option.map_eq_some_iff.1 stepped
    exact .arrives arrived
  | evict =>
    obtain ⟨post, evicted, rfl⟩ := Option.map_eq_some_iff.1 stepped
    exact .evicts evicted
  | receive =>
    change receive clock router session s = some t at stepped
    unfold receive at stepped
    split at stepped
    · next hearing idle =>
      obtain ⟨⟨data, post⟩, took, rfl⟩ := Option.map_eq_some_iff.1 stepped
      exact .receives hearing idle took
    · cases stepped
  | work =>
    change work s = some t at stepped
    unfold work at stepped
    split at stepped
    · next update next busy =>
      cases stepped
      exact .works busy
    · cases stepped
  | other update =>
    cases stepped
    exact .others update
  | fail =>
    change fail s = some t at stepped
    unfold fail at stepped
    split at stepped
    · cases stepped
      exact .fails
    · cases stepped

theorem Effect.moves {may : Nat → Prop} (effect : Effect clock router session s label t)
    (places : ∀ k, label = .arrive k → may k) : Moves may s.post t.post := by
  cases effect with
  | emits inside => exact .send _
  | injects data => exact .send data
  | loses lost => exact .lose lost
  | arrives arrived => exact .arrive (places _ rfl) arrived
  | evicts evicted => exact .evict evicted
  | receives hearing idle took => exact .take took
  | _ => exact .stays

theorem Effect.sent (effect : Effect clock router session s label t) :
    (t.post.sent = s.post.sent ∧ t.emitted = s.emitted ∧ t.foreign = s.foreign) ∨
    (∃ data event, eventOf data = some event ∧ t.post.sent = s.post.sent ++ [data] ∧
      t.emitted = s.emitted ++ [event] ∧ t.foreign = s.foreign) ∨
    ∃ data, label = .inject data ∧ t.post.sent = s.post.sent ++ [data] ∧ t.emitted = s.emitted ∧
      t.foreign = s.foreign ++ [data] := by
  cases effect with
  | emits inside => exact Or.inr (Or.inl ⟨_, _, inside, rfl, rfl, rfl⟩)
  | injects data => exact Or.inr (Or.inr ⟨data, rfl, rfl, rfl, rfl⟩)
  | loses lost =>
    obtain ⟨item, -, rfl⟩ := lose_some lost
    exact Or.inl ⟨rfl, rfl, rfl⟩
  | arrives arrived =>
    obtain ⟨item, -, rfl⟩ := arrive_some arrived
    exact Or.inl ⟨rfl, rfl, rfl⟩
  | evicts evicted =>
    obtain ⟨item, rest, -, rfl⟩ := evict_some evicted
    exact Or.inl ⟨rfl, rfl, rfl⟩
  | receives hearing idle took =>
    obtain ⟨rest, -, rfl⟩ := take_some took
    exact Or.inl ⟨rfl, rfl, rfl⟩
  | _ => exact Or.inl ⟨rfl, rfl, rfl⟩

/-- All events that are under way were emitted, or are not from here. -/
structure Known (s : Channel ω) : Prop where
  accounted : Accounted s.post
  events : (s.post.sent.filterMap eventOf).Perm (s.emitted ++ s.foreign.filterMap eventOf)

theorem Known.init (hearing : Bool) (world : World ω) : Known (.init hearing world) :=
  ⟨Accounted.empty, List.Perm.refl _⟩

theorem Known.step (known : Known s) (effect : Effect clock router session s label t) : Known t := by
  refine ⟨known.accounted.moves (effect.moves (fun _ _ => trivial : ∀ k, label = .arrive k → (fun _ => True) k)), ?_⟩
  have events := known.events
  rcases effect.sent with ⟨sent, emitted, foreign⟩ | ⟨data, event, inside, sent, emitted, foreign⟩ |
    ⟨data, -, sent, emitted, foreign⟩
  · rw [sent, emitted, foreign]
    exact events
  · rw [sent, emitted, foreign, List.filterMap_append, List.filterMap_cons_some inside, List.filterMap_nil]
    refine (events.append_right [event]).trans ?_
    rw [List.append_assoc, List.append_assoc]
    exact List.perm_append_comm.append_left s.emitted
  · rw [sent, emitted, foreign, List.filterMap_append, List.filterMap_append, ← List.append_assoc]
    exact events.append_right _

theorem Known.dispatched (known : Known s) : s.dispatched.Subperm (s.emitted ++ s.foreign.filterMap eventOf) := by
  refine (List.Sublist.subperm ?_).trans (known.accounted.filterMap eventOf).symm.subperm |>.trans known.events.subperm
  exact (List.sublist_append_left _ _).filterMap eventOf

theorem Known.whole (known : Known s) (kept : s.post.lost = []) (landed : s.post.flying = []) (read : s.post.waiting = []) :
    s.dispatched.Perm (s.emitted ++ s.foreign.filterMap eventOf) := by
  have accounted := known.accounted
  rw [Accounted, kept, landed, read] at accounted
  simp only [List.append_nil] at accounted
  exact (accounted.filterMap eventOf).symm.trans known.events

structure Straight (s : Channel ω) : Prop where
  ordered : InOrder s.post
  events : s.post.sent.filterMap eventOf = s.emitted

theorem Straight.init (hearing : Bool) (world : World ω) : Straight (.init hearing world) := ⟨InOrder.empty, rfl⟩

theorem Straight.step (straight : Straight s) (orderly : label.Orderly) (effect : Effect clock router session s label t) :
    Straight t := by
  have places : ∀ k, label = .arrive k → k = 0 := by
    intro k same
    rw [same] at orderly
    exact orderly
  refine ⟨straight.ordered.moves (effect.moves places), ?_⟩
  rcases effect.sent with ⟨sent, emitted, -⟩ | ⟨data, event, inside, sent, emitted, -⟩ | ⟨data, rfl, -⟩
  · rw [sent, emitted]
    exact straight.events
  · rw [sent, emitted, List.filterMap_append, straight.events, List.filterMap_cons_some inside, List.filterMap_nil]
  · exact False.elim orderly

theorem Straight.dispatched (straight : Straight s) : s.dispatched.Sublist s.emitted := by
  rw [← straight.events]
  exact ((List.sublist_append_left _ _).trans straight.ordered).filterMap eventOf

theorem lost_step (kept : s.post.lost = []) (lossless : label.Lossless) (effect : Effect clock router session s label t) :
    t.post.lost = [] := by
  cases effect with
  | loses lost => exact False.elim lossless
  | evicts evicted => exact False.elim lossless
  | arrives arrived =>
    obtain ⟨item, -, rfl⟩ := arrive_some arrived
    exact kept
  | receives hearing idle took =>
    obtain ⟨rest, -, rfl⟩ := take_some took
    exact kept
  | _ => exact kept

/-- The number that a message gets when so many have one already. -/
def idAt (turn : Nat) : UInt64 := 1 + UInt64.ofNat turn

theorem idAt_succ (turn : Nat) : idAt turn + 1 = idAt (turn + 1) := by
  rw [idAt, idAt, UInt64.ofNat_add, UInt64.add_assoc]
  rfl

theorem idAt_inj {first second : Nat} (below : first < 2 ^ 64) (beneath : second < 2 ^ 64) (same : idAt first = idAt second) :
    first = second := by
  have equal : UInt64.ofNat first = UInt64.ofNat second := by
    rw [idAt, idAt] at same
    exact (UInt64.add_right_inj 1).1 same
  have values := congrArg UInt64.toNat equal
  rwa [UInt64.toNat_ofNat_of_lt' below, UInt64.toNat_ofNat_of_lt' beneath] at values

/-- The events have the numbers of their turns. -/
structure Numbered (s : Channel ω) : Prop where
  next : s.nextMsgId = idAt s.allocated
  ids : (s.emitted.map EventMsg.id).Sublist ((List.range s.allocated).map idAt)

theorem Numbered.init (hearing : Bool) (world : World ω) : Numbered (.init hearing world) := ⟨rfl, List.Sublist.refl _⟩

theorem Numbered.step (numbered : Numbered s) (effect : Effect clock router session s label t) : Numbered t := by
  cases effect with
  | numbers =>
    refine ⟨(congrArg (fun id => id + 1) numbered.next).trans (idAt_succ _), ?_⟩
    change (s.emitted.map EventMsg.id).Sublist ((List.range (s.allocated + 1)).map idAt)
    rw [List.range_succ, List.map_append]
    exact numbered.ids.trans (List.sublist_append_left _ _)
  | emits inside =>
    refine ⟨(congrArg (fun id => id + 1) numbered.next).trans (idAt_succ _), ?_⟩
    change ((s.emitted ++ [_]).map EventMsg.id).Sublist ((List.range (s.allocated + 1)).map idAt)
    rw [List.range_succ, List.map_append, List.map_append, List.map_singleton, List.map_singleton, numbered.next]
    exact numbered.ids.append (List.Sublist.refl _)
  | _ => exact ⟨numbered.next, numbered.ids⟩

theorem Numbered.nodup (numbered : Numbered s) (few : s.allocated ≤ 2 ^ 64) : (s.emitted.map EventMsg.id).Nodup := by
  refine numbered.ids.nodup (List.Nodup.map_on ?_ List.nodup_range)
  intro first inside second within same
  have below := List.mem_range.1 inside
  have beneath := List.mem_range.1 within
  exact idAt_inj (by omega) (by omega) same

def handled (clock : Clock ω) (router : Router ω) (session : SessionId) (world : World ω) (event : EventMsg) : World ω :=
  ((dispatchEvent clock router session event).eval world).2

theorem received_eval (data : Bytes) (world : World ω) : ((received clock router session data).eval world).2 =
    ([data].filterMap eventOf).foldl (handled clock router session) world := by
  rw [List.filterMap_cons, List.filterMap_nil, eventOf, received]
  split
  · next msg same =>
    rw [same]
    cases msg <;> rfl
  · next e same =>
    rw [same]
    rfl

theorem applied_step {world : World ω}
    (applied : (s.task.eval s.world).2 = s.dispatched.foldl (handled clock router session) world) (alone : label.Alone)
    (effect : Effect clock router session s label t) :
    (t.task.eval t.world).2 = t.dispatched.foldl (handled clock router session) world := by
  cases effect with
  | @receives data post hearing idle took =>
    obtain ⟨rest, -, rfl⟩ := take_some took
    rw [idle, Task.eval_done] at applied
    change ((received clock router session data).eval s.world).2 = ((s.post.taken ++ [data]).filterMap eventOf).foldl _ world
    rw [List.filterMap_append, List.foldl_append, received_eval]
    exact congrArg (fun start => ([data].filterMap eventOf).foldl _ start) applied
  | works busy =>
    rw [busy, Task.eval_step] at applied
    exact applied
  | others update => exact False.elim alone
  | loses lost =>
    obtain ⟨item, -, rfl⟩ := lose_some lost
    exact applied
  | arrives arrived =>
    obtain ⟨item, -, rfl⟩ := arrive_some arrived
    exact applied
  | evicts evicted =>
    obtain ⟨item, rest, -, rfl⟩ := evict_some evicted
    exact applied
  | _ => exact applied

/-- What is seen of an event where there are no middlewares: it reaches the end of the chain, and
each of its listeners is run with its payload. -/
def reports (router : Router ω) (session : SessionId) (event : EventMsg) : List Mark :=
  .reached session (.event event) ::
    (router.listeners event.name).map (fun entry => .ran .event session entry.1 event.name event.data)

/-- The task leaves these marks, one after the other, whatever others do in between. -/
def Tells {α : Type} : Task (World ω) α → List Mark → Prop
  | .done _, marks => marks = []
  | .step update next, marks => ∃ first rest, marks = first ++ rest ∧
      (∀ world, (update world).trace = world.trace ++ first) ∧ ∀ world, Tells (next world) rest

theorem Tells.bind {α β : Type} {task : Task (World ω) α} {rest : α → Task (World ω) β} {first second : List Mark}
    (begins : Tells task first) (goes : ∀ value, Tells (rest value) second) : Tells (task >>= rest) (first ++ second) := by
  induction task generalizing first with
  | done value =>
    rw [show first = [] from begins, List.nil_append]
    exact goes value
  | step update next ih =>
    obtain ⟨front, back, rfl, leaves, later⟩ := begins
    exact ⟨front, back ++ second, List.append_assoc _ _ _, leaves, fun world => ih world (later world)⟩

theorem note_tells (mark : Mark) : Tells (note mark : Task (World ω) Unit) [mark] :=
  ⟨[mark], [], rfl, World.note_trace mark, fun _ => rfl⟩

theorem onApp_tells {α : Type} (task : Task (App ω) α) : Tells (onApp task) [] := by
  induction task with
  | done value => rfl
  | step update next ih => exact ⟨[], [], rfl, fun world => (List.append_nil _).symm, fun world => ih world.app⟩

theorem handleEvent_tells (event : EventMsg) (entries : List (Token × EventHandler ω)) :
    Tells (handleEvent session event entries) (entries.map (fun entry => .ran .event session entry.1 event.name event.data)) := by
  induction entries with
  | nil => rfl
  | cons entry rest ih => exact (note_tells _).bind (fun _ => (onApp_tells _).bind (fun _ => ih))

theorem dispatchEvent_tells (bare : router.middlewares = []) (event : EventMsg) :
    Tells (dispatchEvent clock router session event) (reports router session event) := by
  rw [dispatchEvent, runChain_eq_onion, bare, List.map_nil, onion_nil, ← List.append_nil (reports router session event)]
  refine Tells.bind ?_ (fun _ => rfl)
  refine (note_tells _).bind (fun _ => ?_)
  rw [← List.append_nil (List.map _ _)]
  exact (handleEvent_tells event _).bind (fun _ => rfl)

theorem received_tells (bare : router.middlewares = []) (data : Bytes) :
    Tells (received clock router session data) (([data].filterMap eventOf).flatMap (reports router session)) := by
  rw [List.filterMap_cons, List.filterMap_nil, eventOf, received]
  split
  · next msg same =>
    rw [same]
    cases msg with
    | event event =>
      change Tells (dispatchEvent clock router session event) (reports router session event ++ [])
      rw [List.append_nil]
      exact dispatchEvent_tells bare event
    | _ => rfl
  · next e same =>
    rw [same]
    rfl

/-- No other task leaves marks of this kind. -/
def Label.Outside (mine : Mark → Bool) : Label ω → Prop
  | .other update => ∀ world, (update world).trace.filter mine = world.trace.filter mine
  | _ => True

theorem Label.Own.outside {label : Label ω} (own : label.Own) (mine : Mark → Bool) : label.Outside mine := by
  cases label <;> trivial

/-- What is still to be told completes the reports of all events dispatched so far. -/
def Telling (mine : Mark → Bool) (router : Router ω) (session : SessionId) (trace : List Mark) (s : Channel ω) : Prop :=
  ∃ rest, Tells s.task rest ∧
    (s.world.trace ++ rest).filter mine = (trace ++ s.dispatched.flatMap (reports router session)).filter mine

theorem Telling.step {mine : Mark → Bool} {trace : List Mark} (bare : router.middlewares = [])
    (telling : Telling mine router session trace s) (outside : label.Outside mine)
    (effect : Effect clock router session s label t) : Telling mine router session trace t := by
  obtain ⟨rest, tells, same⟩ := telling
  cases effect with
  | @receives data post hearing idle took =>
    obtain ⟨others, -, rfl⟩ := take_some took
    rw [idle] at tells
    rw [show rest = [] from tells, List.append_nil] at same
    refine ⟨_, received_tells bare data, ?_⟩
    change _ = (trace ++ ((s.post.taken ++ [data]).filterMap eventOf).flatMap (reports router session)).filter mine
    rw [List.filterMap_append, List.flatMap_append, ← List.append_assoc, List.filter_append, List.filter_append, same]
    rfl
  | works busy =>
    rw [busy] at tells
    obtain ⟨first, later, rfl, leaves, next⟩ := tells
    refine ⟨later, next s.world, ?_⟩
    rw [leaves, List.append_assoc]
    exact same
  | others update =>
    refine ⟨rest, tells, ?_⟩
    rw [List.filter_append, outside, ← List.filter_append]
    exact same
  | loses lost =>
    obtain ⟨item, -, rfl⟩ := lose_some lost
    exact ⟨rest, tells, same⟩
  | arrives arrived =>
    obtain ⟨item, -, rfl⟩ := arrive_some arrived
    exact ⟨rest, tells, same⟩
  | evicts evicted =>
    obtain ⟨item, others, -, rfl⟩ := evict_some evicted
    exact ⟨rest, tells, same⟩
  | _ => exact ⟨rest, tells, same⟩

section
variable {waits : Task (World ω) Unit → World ω → Bool}

theorem awaiting_step (stepped : awaiting clock router session supportsDatagram waits s label = some t) :
    step clock router session supportsDatagram s label = some t := by
  cases label with
  | work =>
    rw [awaiting] at stepped
    split at stepped
    · cases stepped
    · exact stepped
  | _ => exact stepped

/-- The task can end the dispatch at work, if that does not have to wait. -/
theorem work_done (clock : Clock ω) (router : Router ω) (session : SessionId) (supportsDatagram : Bool) (s : Channel ω)
    (finishes : s.task.Finishes waits s.world) :
    ∃ labels, (∀ label ∈ labels, label.Own) ∧
      run (awaiting clock router session supportsDatagram waits) s labels =
        some { s with task := .done (), world := (s.task.eval s.world).2 } := by
  obtain ⟨nextMsgId, allocated, emitted, foreign, post, hearing, task, world⟩ := s
  induction task generalizing world with
  | done value => exact ⟨[], List.forall_mem_nil _, rfl⟩
  | step update next ih =>
    obtain ⟨labels, own, ran⟩ := ih world (update world) finishes.2
    refine ⟨.work :: labels, List.forall_mem_cons.2 ⟨trivial, own⟩, ?_⟩
    rw [run_cons, awaiting, if_neg (Bool.eq_false_iff.1 finishes.1)]
    exact ran

/-- While it hears, the task gets through everything that has arrived by its own steps alone. -/
theorem drained (clock : Clock ω) (router : Router ω) (session : SessionId) (supportsDatagram : Bool) {waiting : List Bytes}
    (s : Channel ω) (hearing : s.hearing = true) (arrived : s.post.waiting = waiting)
    (finishes : s.task.Finishes waits s.world)
    (later : ∀ data ∈ waiting, ∀ world, (received clock router session data).Finishes waits world) :
    ∃ labels t, (∀ label ∈ labels, label.Own) ∧
      run (awaiting clock router session supportsDatagram waits) s labels = some t ∧ t.task = .done () ∧
      t.post = { s.post with waiting := [], taken := s.post.taken ++ waiting } := by
  induction waiting generalizing s with
  | nil =>
    obtain ⟨labels, own, ran⟩ := work_done clock router session supportsDatagram s finishes
    refine ⟨labels, _, own, ran, rfl, ?_⟩
    rw [List.append_nil, ← arrived]
  | cons data rest ih =>
    obtain ⟨first, others⟩ := List.forall_mem_cons.1 later
    obtain ⟨before, own, ran⟩ := work_done clock router session supportsDatagram s finishes
    have took : s.post.take = some (data, { s.post with waiting := rest, taken := s.post.taken ++ [data] }) := by
      rw [Post.take, arrived]
    have next : awaiting clock router session supportsDatagram waits
        { s with task := .done (), world := (s.task.eval s.world).2 } .receive = some
        { s with
          post := { s.post with waiting := rest, taken := s.post.taken ++ [data] }
          task := received clock router session data
          world := (s.task.eval s.world).2 } := by
      change receive clock router session _ = _
      rw [receive, hearing]
      dsimp only
      rw [took, Option.map_some]
    obtain ⟨after, t, owned, later, idle, post⟩ := ih
      { s with
        post := { s.post with waiting := rest, taken := s.post.taken ++ [data] }
        task := received clock router session data
        world := (s.task.eval s.world).2 } hearing rfl (first _) others
    refine ⟨before ++ .receive :: after, t, ?_, ?_, idle, ?_⟩
    · exact List.forall_mem_append.2 ⟨own, List.forall_mem_cons.2 ⟨trivial, owned⟩⟩
    · rw [run_append, ran, Option.bind_some, run_cons, next, Option.bind_some, later]
    · rw [post, List.append_assoc]
      rfl

end

/-- In every run an event is dispatched at most once for each successful call that sent it, and
nothing else is but what came from elsewhere. Without overtaking the order is that of the calls,
and without losses none is missing in the end. With nothing else running each dispatch finds the
world as the last one has left it; without middlewares each listener is run once for each event
whatever else runs. While the task hears, it can go on to dispatch all that has arrived, unless a
dispatch has to wait for others. -/
theorem emitted_dispatched {hearing : Bool} {world : World ω} {labels : List (Label ω)}
    (ran : run (step clock router session supportsDatagram) (.init hearing world) labels = some s) :
    s.dispatched.Subperm (s.emitted ++ s.foreign.filterMap eventOf) ∧
    ((∀ label ∈ labels, label.Lossless) → s.post.flying = [] → s.post.waiting = [] →
      s.dispatched.Perm (s.emitted ++ s.foreign.filterMap eventOf)) ∧
    ((∀ label ∈ labels, label.Orderly) → s.dispatched.Sublist s.emitted) ∧
    (s.allocated ≤ 2 ^ 64 → s.foreign = [] → (s.dispatched.map EventMsg.id).Nodup) ∧
    ((∀ label ∈ labels, label.Alone) → s.task = .done () →
      s.world = s.dispatched.foldl (handled clock router session) world) ∧
    (∀ mine : Mark → Bool, router.middlewares = [] → (∀ label ∈ labels, label.Outside mine) → s.task = .done () →
      s.world.trace.filter mine = (world.trace ++ s.dispatched.flatMap (reports router session)).filter mine) ∧
    (∀ waits : Task (World ω) Unit → World ω → Bool, s.hearing = true → s.task.Finishes waits s.world →
      (∀ data ∈ s.post.waiting, ∀ world, (received clock router session data).Finishes waits world) →
      ∃ later t, (∀ label ∈ later, label.Own) ∧
        run (awaiting clock router session supportsDatagram waits) s later = some t ∧ t.task = .done () ∧
        t.dispatched = s.dispatched ++ s.post.waiting.filterMap eventOf) := by
  have known : Known s := run_invariant (fun _ _ _ known stepped => known.step (step_effect stepped))
    (Known.init hearing world) ran
  have numbered : Numbered s := run_invariant (fun _ _ _ numbered stepped => numbered.step (step_effect stepped))
    (Numbered.init hearing world) ran
  refine ⟨known.dispatched, ?_, ?_, ?_, ?_, ?_, ?_⟩
  · intro lossless
    have kept : s.post.lost = [] := run_invariant_where
      (fun s _ _ (kept : s.post.lost = []) allowed stepped => lost_step kept allowed (step_effect stepped)) rfl lossless ran
    exact known.whole kept
  · intro orderly
    have straight : Straight s := run_invariant_where
      (fun _ _ _ straight allowed stepped => straight.step allowed (step_effect stepped))
      (Straight.init hearing world) orderly ran
    exact straight.dispatched
  · intro few own
    have once := known.dispatched
    rw [own, List.filterMap_nil, List.append_nil] at once
    obtain ⟨some, same, fewer⟩ := once
    exact (same.map EventMsg.id).nodup_iff.1 ((fewer.map EventMsg.id).nodup (numbered.nodup few))
  · intro alone idle
    have applied := run_invariant_where
      (fun s _ _ (applied : (s.task.eval s.world).2 = s.dispatched.foldl (handled clock router session) world)
        allowed stepped => applied_step applied allowed (step_effect stepped)) rfl alone ran
    rw [idle, Task.eval_done] at applied
    exact applied
  · intro mine bare outside idle
    have begun : Telling mine router session world.trace (.init hearing world) := ⟨[], rfl, rfl⟩
    have telling : Telling mine router session world.trace s := run_invariant_where
      (fun _ _ _ telling allowed stepped => telling.step bare allowed (step_effect stepped)) begun outside ran
    obtain ⟨rest, tells, same⟩ := telling
    rw [idle] at tells
    rw [show rest = [] from tells, List.append_nil] at same
    exact same
  · intro waits hearing finishes others
    obtain ⟨later, t, own, ended, idle, post⟩ :=
      drained clock router session supportsDatagram s hearing rfl finishes others
    refine ⟨later, t, own, ended, idle, ?_⟩
    rw [Channel.dispatched, post, List.filterMap_append]
    rfl

private def tickRouter : Router Unit := (Router.new.addEvent ⟨"tick", fun _ _ => pure (.ok ())⟩).1

private def unheard : World Unit := ⟨⟨fun _ _ => none, ()⟩, [], [], []⟩

/-- The second event overtakes the first, the third is too large, and another task does something. -/
private def overtaking : List (Label Unit) :=
  [.emit "tick" [1] (fun _ => .ok ()), .emit "tick" [2] (fun _ => .ok ()),
    .emit "tick" [3] (fun _ => .error (.invalidParameter "数据报超过最大尺寸")), .arrive 1, .arrive 0,
    .receive, .other (World.write 0 (.event ⟨9, "other", []⟩))]

theorem emitted_dispatched_overtaking : ∃ later t,
    run (step (fun _ _ => false) tickRouter 7 true) (.init true unheard) (overtaking ++ later) = some t ∧
    t.dispatched = [⟨2, "tick", [2]⟩, ⟨1, "tick", [1]⟩] ∧
    t.world.trace = [.reached 7 (.event ⟨2, "tick", [2]⟩), .ran .event 7 0 "tick" [2],
      .reached 7 (.event ⟨1, "tick", [1]⟩), .ran .event 7 0 "tick" [1]] := by
  obtain ⟨s, ran, hearing, waiting, dispatched⟩ : ∃ s,
      run (step (fun _ _ => false) tickRouter 7 true) (.init true unheard) overtaking = some s ∧ s.hearing = true ∧
        s.post.waiting.filterMap eventOf = [⟨1, "tick", [1]⟩] ∧ s.dispatched = [⟨2, "tick", [2]⟩] :=
    ⟨_, rfl, rfl, rfl, rfl⟩
  have free : ∀ (task : Task (World Unit) Unit) world, task.Finishes (fun _ _ => false) world :=
    Task.Finishes.unhindered (fun _ _ => rfl)
  obtain ⟨later, t, own, ended, idle, heard⟩ :=
    (emitted_dispatched ran).2.2.2.2.2.2 (fun _ _ => false) hearing (free _ _) (fun _ _ => free _)
  replace ended := run_mono awaiting_step ended
  have whole : run (step (fun _ _ => false) tickRouter 7 true) (.init true unheard) (overtaking ++ later) = some t := by
    rw [run_append, ran, Option.bind_some, ended]
  have outside : ∀ label ∈ overtaking ++ later, label.Outside (fun _ => true) := by
    intro label member
    rcases List.mem_append.1 member with before | after
    · simp only [overtaking, List.mem_cons, List.not_mem_nil, or_false] at before
      rcases before with rfl | rfl | rfl | rfl | rfl | rfl | rfl
      all_goals first | trivial | exact fun _ => rfl
    · exact (own label after).outside _
  rw [waiting, dispatched] at heard
  refine ⟨later, t, whole, heard, ?_⟩
  have told := (emitted_dispatched whole).2.2.2.2.2.1 (fun _ => true) rfl outside idle
  rw [List.filter_true, List.filter_true, heard] at told
  rw [told]
  rfl

end EchoStream.Core.Datagrams
