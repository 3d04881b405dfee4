import Mathlib.Data.List.AList
import EchoStream.Foundation.Run
import EchoStream.Core.Request

/-! The multiplexed channel of a session as a transition system: any number of
calls, their time limits, the reader loop, and frames from the peer in any
order. Each label is one section of the source that runs under a lock or between
two points of waiting. Calls are numbered, a call that has not begun is idle.
Besides what the source keeps, a call records how many frames the reader had
taken off the channel when it registered, and which frame answered it. -/

namespace EchoStream.Core.RpcChannel
open Foundation.Run
open Proto.Messages
open Request

/-- How far a call of `request_muxed_with_timeout` is. The time limit counts from
`waiting` on; `expired` is past it, with the entry not yet removed. -/
inductive Phase where
  | idle
  | opening
  | ready
  | allocated
  | registered
  | waiting
  | expired
  | returned (result : Result Bytes)
deriving DecidableEq

/-- The call has not put its entry into the pending map. -/
def Phase.early : Phase → Bool
  | idle | opening | ready | allocated => true
  | _ => false

/-- The receiving side of a call's oneshot channel. -/
inductive Slot where
  | empty
  | filled (result : Result Bytes)
  | dropped
deriving DecidableEq

structure Call where
  phase : Phase
  id : Option UInt64
  since : Option Nat
  source : Option Nat
  slot : Slot

def Call.fresh : Call := ⟨.idle, none, none, none, .empty⟩

/-- The reader loop: between reads, with a sender taken out of the map, past the
last read, waking those it drained, done. -/
inductive Reader where
  | absent
  | reading
  | sending (call : Nat) (result : Result Bytes)
  | ended
  | waking (todo : List Nat)
  | finished
deriving DecidableEq

/-- The loop may still take entries out of the pending map. -/
def Reader.running : Reader → Bool
  | reading | sending _ _ | ended => true
  | _ => false

structure Channel where
  calls : Nat → Call
  locked : Bool
  nextId : UInt64
  pending : AList (fun _ : UInt64 => Nat)
  reader : Reader
  arrived : List Message

def Channel.init : Channel := ⟨fun _ => .fresh, false, 1, ∅, .absent, []⟩

inductive Label where
  | enter (i : Nat)
  | opened (i : Nat) (failure : Option Error)
  | allocate (i : Nat)
  | register (i : Nat)
  | write (i : Nat) (failure : Option Error)
  | expire (i : Nat)
  | abandon (i : Nat)
  | complete (i : Nat)
  | read (result : Result (Option Message))
  | deliver
  | drain
  | wake (k : Nat)
  | finish

namespace Channel

def setCall (s : Channel) (i : Nat) (call : Call) : Channel :=
  { s with calls := fun j => if j = i then call else s.calls j }

def setPhase (s : Channel) (i : Nat) (phase : Phase) : Channel :=
  s.setCall i { s.calls i with phase }

def setSlot (s : Channel) (i : Nat) (slot : Slot) : Channel :=
  s.setCall i { s.calls i with slot }

/-- The sender under the id goes away without having been used. -/
def dropSender (s : Channel) (id : UInt64) : Channel :=
  match s.pending.lookup id with
  | some j => s.setSlot j .dropped
  | none => s

end Channel

/-- A connection fails with errors of its own, never with an answer of the peer. -/
def transportError : Error → Bool
  | .rpc _ _ => false
  | _ => true

/-- The first call opens the channel under the lock, later ones use it. -/
def enter (s : Channel) (i : Nat) : Option Channel :=
  match (s.calls i).phase, s.locked, s.reader with
  | .idle, false, .absent => some { s.setPhase i .opening with locked := true }
  | .idle, false, _ => some (s.setPhase i .ready)
  | _, _, _ => none

/-- Opening, splitting and marking the stream succeeded, or one of them failed. -/
def opened (s : Channel) (i : Nat) (failure : Option Error) : Option Channel :=
  match (s.calls i).phase, failure with
  | .opening, none => some { s.setPhase i .ready with locked := false, reader := .reading }
  | .opening, some e =>
      if transportError e then some { s.setPhase i (.returned (.error e)) with locked := false } else none
  | _, _ => none

def allocate (s : Channel) (i : Nat) : Option Channel :=
  match (s.calls i).phase with
  | .ready =>
      some { s.setCall i { s.calls i with phase := .allocated, id := some s.nextId } with
        nextId := s.nextId + 1 }
  | _ => none

def register (s : Channel) (i : Nat) : Option Channel :=
  match (s.calls i).phase, (s.calls i).id with
  | .allocated, some id =>
      let s := s.dropSender id
      some { s.setCall i { s.calls i with phase := .registered, since := some s.arrived.length } with
        pending := s.pending.insert id i }
  | _, _ => none

/-- A request that cannot be written returns the error and does nothing else. -/
def write (s : Channel) (i : Nat) (failure : Option Error) : Option Channel :=
  match (s.calls i).phase, failure with
  | .registered, none => some (s.setPhase i .waiting)
  | .registered, some e => if transportError e then some (s.setPhase i (.returned (.error e))) else none
  | _, _ => none

/-- The time limit passes with nothing received. -/
def expire (s : Channel) (i : Nat) : Option Channel :=
  match (s.calls i).phase, (s.calls i).slot with
  | .waiting, .empty => some (s.setPhase i .expired)
  | _, _ => none

def abandon (s : Channel) (i : Nat) : Option Channel :=
  match (s.calls i).phase, (s.calls i).id with
  | .expired, some id =>
      some { (s.dropSender id).setPhase i (.returned (.error (.timeout id))) with
        pending := s.pending.erase id }
  | _, _ => none

def complete (s : Channel) (i : Nat) : Option Channel :=
  match (s.calls i).phase, (s.calls i).slot with
  | .waiting, .filled result => some (s.setPhase i (.returned result))
  | .waiting, .dropped => some (s.setPhase i (.returned (.error .sessionClosed)))
  | _, _ => none

/-- A response takes the sender under its id out of the map; every other frame,
and a response nobody waits for, is skipped; an end or an error ends the loop. -/
def read (s : Channel) (result : Result (Option Message)) : Option Channel :=
  match s.reader, result with
  | .reading, .ok (some msg) =>
      let after := { s with arrived := s.arrived ++ [msg] }
      match msg with
      | .response resp =>
          match s.pending.lookup resp.id with
          | some i =>
              some { after.setCall i { s.calls i with source := some s.arrived.length } with
                pending := s.pending.erase resp.id, reader := .sending i (settle resp) }
          | none => some after
      | _ => some after
  | .reading, _ => some { s with reader := .ended }
  | _, _ => none

def deliver (s : Channel) : Option Channel :=
  match s.reader with
  | .sending i result => some { s.setSlot i (.filled result) with reader := .reading }
  | _ => none

def drain (s : Channel) : Option Channel :=
  match s.reader with
  | .ended => some { s with pending := ∅, reader := .waking (s.pending.entries.map Sigma.snd) }
  | _ => none

def wake (s : Channel) (k : Nat) : Option Channel :=
  match s.reader with
  | .waking todo =>
      match todo[k]? with
      | some i =>
          some { s.setSlot i (.filled (.error .sessionClosed)) with reader := .waking (todo.eraseIdx k) }
      | none => none
  | _ => none

def finish (s : Channel) : Option Channel :=
  match s.reader with
  | .waking [] => some { s with reader := .finished }
  | _ => none

def step : Step Channel Label
  | s, .enter i => enter s i
  | s, .opened i failure => opened s i failure
  | s, .allocate i => allocate s i
  | s, .register i => register s i
  | s, .write i failure => write s i failure
  | s, .expire i => expire s i
  | s, .abandon i => abandon s i
  | s, .complete i => complete s i
  | s, .read result => read s result
  | s, .deliver => deliver s
  | s, .drain => drain s
  | s, .wake k => wake s k
  | s, .finish => finish s

inductive Effect (s : Channel) : Label → Channel → Prop where
  | opening {i : Nat} (idle : (s.calls i).phase = .idle) :
      Effect s (.enter i) { s.setPhase i .opening with locked := true }
  | joined {i : Nat} (idle : (s.calls i).phase = .idle) : Effect s (.enter i) (s.setPhase i .ready)
  | opened {i : Nat} (opening : (s.calls i).phase = .opening) :
      Effect s (.opened i none) { s.setPhase i .ready with locked := false, reader := .reading }
  | notOpened {i : Nat} {e : Error} (opening : (s.calls i).phase = .opening)
      (transport : transportError e = true) :
      Effect s (.opened i (some e)) { s.setPhase i (.returned (.error e)) with locked := false }
  | allocated {i : Nat} (ready : (s.calls i).phase = .ready) :
      Effect s (.allocate i) { s.setCall i { s.calls i with phase := .allocated, id := some s.nextId } with
        nextId := s.nextId + 1 }
  | registered {i : Nat} {id : UInt64} (allocated : (s.calls i).phase = .allocated)
      (has : (s.calls i).id = some id) :
      Effect s (.register i) { (s.dropSender id).setCall i { (s.dropSender id).calls i with
          phase := .registered, since := some (s.dropSender id).arrived.length } with
        pending := (s.dropSender id).pending.insert id i }
  | written {i : Nat} (registered : (s.calls i).phase = .registered) :
      Effect s (.write i none) (s.setPhase i .waiting)
  | notWritten {i : Nat} {e : Error} (registered : (s.calls i).phase = .registered)
      (transport : transportError e = true) :
      Effect s (.write i (some e)) (s.setPhase i (.returned (.error e)))
  | expired {i : Nat} (waiting : (s.calls i).phase = .waiting) : Effect s (.expire i) (s.setPhase i .expired)
  | abandoned {i : Nat} {id : UInt64} (expired : (s.calls i).phase = .expired)
      (has : (s.calls i).id = some id) :
      Effect s (.abandon i) { (s.dropSender id).setPhase i (.returned (.error (.timeout id))) with
        pending := s.pending.erase id }
  | completed {i : Nat} {result : Result Bytes} (waiting : (s.calls i).phase = .waiting)
      (filled : (s.calls i).slot = .filled result) : Effect s (.complete i) (s.setPhase i (.returned result))
  | orphaned {i : Nat} (waiting : (s.calls i).phase = .waiting) (dropped : (s.calls i).slot = .dropped) :
      Effect s (.complete i) (s.setPhase i (.returned (.error .sessionClosed)))
  | claimed {i : Nat} {resp : ResponseMsg} (reading : s.reader = .reading)
      (found : s.pending.lookup resp.id = some i) :
      Effect s (.read (.ok (some (.response resp))))
        { s.setCall i { s.calls i with source := some s.arrived.length } with
          arrived := s.arrived ++ [.response resp]
          pending := s.pending.erase resp.id
          reader := .sending i (settle resp) }
  | skipped {msg : Message} (reading : s.reader = .reading) :
      Effect s (.read (.ok (some msg))) { s with arrived := s.arrived ++ [msg] }
  | ended {result : Result (Option Message)} (reading : s.reader = .reading) :
      Effect s (.read result) { s with reader := .ended }
  | delivered {i : Nat} {result : Result Bytes} (sending : s.reader = .sending i result) :
      Effect s .deliver { s.setSlot i (.filled result) with reader := .reading }
  | drained (ended : s.reader = .ended) :
      Effect s .drain { s with pending := ∅, reader := .waking (s.pending.entries.map Sigma.snd) }
  | woken {todo : List Nat} {k i : Nat} (waking : s.reader = .waking todo) (next : todo[k]? = some i) :
      Effect s (.wake k)
        { s.setSlot i (.filled (.error .sessionClosed)) with reader := .waking (todo.eraseIdx k) }
  | finished (waking : s.reader = .waking []) : Effect s .finish { s with reader := .finished }

theorem step_effect {s t : Channel} {label : Label} (stepped : step s label = some t) : Effect s label t := by
  cases label with
  | enter i =>
    simp only [step, enter] at stepped
    split at stepped <;> cases stepped
    · exact .opening ‹_›
    · exact .joined ‹_›
  | opened i failure =>
    simp only [step, opened] at stepped
    split at stepped
    · cases stepped
      exact .opened ‹_›
    · split at stepped <;> cases stepped
      exact .notOpened ‹_› ‹_›
    · cases stepped
  | allocate i =>
    simp only [step, allocate] at stepped
    split at stepped <;> cases stepped
    exact .allocated ‹_›
  | register i =>
    simp only [step, register] at stepped
    split at stepped <;> cases stepped
    exact .registered ‹_› ‹_›
  | write i failure =>
    simp only [step, write] at stepped
    split at stepped
    · cases stepped
      exact .written ‹_›
    · split at stepped <;> cases stepped
      exact .notWritten ‹_› ‹_›
    · cases stepped
  | expire i =>
    simp only [step, expire] at stepped
    split at stepped <;> cases stepped
    exact .expired ‹_›
  | abandon i =>
    simp only [step, abandon] at stepped
    split at stepped <;> cases stepped
    exact .abandoned ‹_› ‹_›
  | complete i =>
    simp only [step, complete] at stepped
    split at stepped <;> cases stepped
    · exact .completed ‹_› ‹_›
    · exact .orphaned ‹_› ‹_›
  | read result =>
    simp only [step, read] at stepped
    split at stepped
    · split at stepped
      · split at stepped <;> cases stepped
        · exact .claimed ‹_› ‹_›
        · exact .skipped ‹_›
      · cases stepped
        exact .skipped ‹_›
    · cases stepped
      exact .ended ‹_›
    · cases stepped
  | deliver =>
    simp only [step, deliver] at stepped
    split at stepped <;> cases stepped
    exact .delivered ‹_›
  | drain =>
    simp only [step, drain] at stepped
    split at stepped <;> cases stepped
    exact .drained ‹_›
  | wake k =>
    simp only [step, wake] at stepped
    split at stepped
    · split at stepped <;> cases stepped
      exact .woken ‹_› ‹_›
    · cases stepped
  | finish =>
    simp only [step, finish] at stepped
    split at stepped <;> cases stepped
    exact .finished ‹_›

/-- A result that only the peer's answer gives. -/
def Answer : Result Bytes → Prop
  | .ok _ => True
  | .error (.rpc _ _) => True
  | .error _ => False

/-- The frame recorded as the source of the call is a response and says `result`. -/
def Answered (arrived : List Message) (call : Call) (result : Result Bytes) : Prop :=
  ∃ q resp, call.source = some q ∧ arrived[q]? = some (.response resp) ∧ settle resp = result

/-- What is true of a call by itself: the recorded source is a response with its
id that came after it registered, and an answer it holds or returned is what
that response says. -/
structure CallSound (arrived : List Message) (call : Call) : Prop where
  early : call.phase.early = true → call.source = none ∧ call.slot = .empty
  sourced : ∀ q, call.source = some q → ∃ resp n, arrived[q]? = some (.response resp) ∧
    call.id = some resp.id ∧ call.since = some n ∧ n ≤ q
  filled : ∀ result, call.slot = .filled result → Answer result → Answered arrived call result
  returned : ∀ result, call.phase = .returned result → Answer result → Answered arrived call result

/-- The call has the entry under `id`: it got the id, has registered, and nothing
has been sent to it. -/
structure Owns (arrived : List Message) (id : UInt64) (call : Call) : Prop where
  id : call.id = some id
  late : call.phase.early = false
  empty : call.slot = .empty
  unanswered : call.source = none
  since : ∃ n, call.since = some n ∧ n ≤ arrived.length

/-- What every step keeps. No two calls have the same source, and a call whose
sender the reader loop has taken is no longer in the map. -/
structure Tracked (s : Channel) : Prop where
  sound : ∀ i, CallSound s.arrived (s.calls i)
  owned : ∀ id i, s.pending.lookup id = some i → Owns s.arrived id (s.calls i)
  once : ∀ i j q, (s.calls i).source = some q → (s.calls j).source = some q → i = j
  sending : ∀ i result, s.reader = .sending i result → Answered s.arrived (s.calls i) result
  waking : ∀ todo i, s.reader = .waking todo → i ∈ todo →
    (s.calls i).phase.early = false ∧ ∀ id, s.pending.lookup id ≠ some i

@[simp] theorem setCall_self (s : Channel) (i : Nat) (call : Call) : (s.setCall i call).calls i = call :=
  if_pos rfl

@[simp] theorem setCall_other (s : Channel) {i j : Nat} (differ : j ≠ i) (call : Call) :
    (s.setCall i call).calls j = s.calls j :=
  if_neg differ

theorem init_tracked : Tracked Channel.init := by
  constructor
  · intro i
    constructor <;> simp [Channel.init, Call.fresh]
  all_goals simp [Channel.init, Call.fresh]

variable {s t : Channel} {i : Nat}

theorem Tracked.early_absent (tracked : Tracked s) (early : (s.calls i).phase.early = true) (id : UInt64) :
    s.pending.lookup id ≠ some i := by
  intro found
  have late := (tracked.owned id i found).late
  rw [early] at late
  cases late

theorem Tracked.setCall (tracked : Tracked s) {call : Call} (sound : CallSound s.arrived call)
    (owns : ∀ id, s.pending.lookup id = some i → Owns s.arrived id call)
    (source : call.source = (s.calls i).source)
    (late : (s.calls i).phase.early = false → call.phase.early = false) : Tracked (s.setCall i call) := by
  have sources : ∀ j, ((s.setCall i call).calls j).source = (s.calls j).source := by
    intro j
    by_cases same : j = i
    · subst same
      rw [setCall_self, source]
    · rw [setCall_other s same]
  constructor
  · intro j
    by_cases same : j = i
    · subst same
      rw [setCall_self]
      exact sound
    · rw [setCall_other s same]
      exact tracked.sound j
  · intro id j found
    by_cases same : j = i
    · subst same
      rw [setCall_self]
      exact owns id found
    · rw [setCall_other s same]
      exact tracked.owned id j found
  · intro j k q first second
    rw [sources] at first second
    exact tracked.once j k q first second
  · intro j result sending
    obtain ⟨q, resp, from', rest⟩ := tracked.sending j result sending
    exact ⟨q, resp, (sources j).trans from', rest⟩
  · intro todo j waking member
    obtain ⟨lateJ, absent⟩ := tracked.waking todo j waking member
    refine ⟨?_, absent⟩
    by_cases same : j = i
    · subst same
      rw [setCall_self]
      exact late lateJ
    · rw [setCall_other s same]
      exact lateJ

theorem Tracked.setPhase (tracked : Tracked s) (i : Nat) (phase : Phase)
    (late : phase.early = true → (s.calls i).phase.early = true)
    (returned : ∀ result, phase = .returned result → Answer result →
      Answered s.arrived (s.calls i) result) : Tracked (s.setPhase i phase) := by
  have old := tracked.sound i
  apply tracked.setCall
  · exact ⟨fun early => old.early (late early), old.sourced, old.filled, returned⟩
  · intro id found
    have owns := tracked.owned id i found
    refine ⟨owns.id, ?_, owns.empty, owns.unanswered, owns.since⟩
    by_contra early
    rw [Bool.not_eq_false] at early
    have earlier := late early
    rw [owns.late] at earlier
    cases earlier
  · rfl
  · intro lateOld
    by_contra early
    rw [Bool.not_eq_false] at early
    have earlier := late early
    rw [lateOld] at earlier
    cases earlier

theorem Tracked.setSlot (tracked : Tracked s) (i : Nat) (slot : Slot) (lateI : (s.calls i).phase.early = false)
    (absent : ∀ id, s.pending.lookup id ≠ some i)
    (filled : ∀ result, slot = .filled result → Answer result → Answered s.arrived (s.calls i) result) :
    Tracked (s.setSlot i slot) := by
  have old := tracked.sound i
  apply tracked.setCall
  · refine ⟨fun early => ?_, old.sourced, filled, old.returned⟩
    rw [lateI] at early
    cases early
  · intro id found
    exact absurd found (absent id)
  · rfl
  · exact id

theorem Tracked.setReader (tracked : Tracked s) (locked : Bool) (nextId : UInt64) {reader : Reader}
    (idle : ∀ i result, reader ≠ .sending i result) (awake : ∀ todo, reader ≠ .waking todo) :
    Tracked { s with locked, nextId, reader } :=
  ⟨tracked.sound, tracked.owned, tracked.once, fun i result same => absurd same (idle i result),
    fun todo _ same => absurd same (awake todo)⟩

theorem Tracked.setCounters (tracked : Tracked s) (locked : Bool) (nextId : UInt64) :
    Tracked { s with locked, nextId } :=
  ⟨tracked.sound, tracked.owned, tracked.once, tracked.sending, tracked.waking⟩

theorem Tracked.removeEntry (tracked : Tracked s) (id : UInt64) :
    Tracked { s.dropSender id with pending := s.pending.erase id } := by
  have still : ∀ key j, (s.pending.erase id).lookup key = some j → key ≠ id ∧ s.pending.lookup key = some j := by
    intro key j found
    by_cases same : key = id
    · subst same
      rw [AList.lookup_erase] at found
      cases found
    · rw [AList.lookup_erase_ne same] at found
      exact ⟨same, found⟩
  have erased : Tracked { s with pending := s.pending.erase id } := by
    refine ⟨tracked.sound, ?_, tracked.once, tracked.sending, ?_⟩
    · intro key j found
      exact tracked.owned key j (still key j found).2
    · intro todo j waking member
      obtain ⟨late, absent⟩ := tracked.waking todo j waking member
      exact ⟨late, fun key found => absent key (still key j found).2⟩
  unfold Channel.dropSender
  cases found : s.pending.lookup id with
  | none => exact erased
  | some j =>
    have owns := tracked.owned id j found
    apply erased.setSlot j .dropped
    · exact owns.late
    · intro key again
      obtain ⟨differ, other⟩ := still key j again
      have ids := (tracked.owned key j other).id
      rw [owns.id] at ids
      exact differ (Option.some.inj ids).symm
    · intro result same
      cases same

theorem Tracked.enrol (tracked : Tracked s) (id : UInt64) (early : (s.calls i).phase.early = true)
    (has : (s.calls i).id = some id) {pending : AList (fun _ : UInt64 => Nat)}
    (lookup : ∀ key, pending.lookup key = if key = id then some i else s.pending.lookup key) :
    Tracked { s.setCall i { s.calls i with phase := .registered, since := some s.arrived.length } with
      pending } := by
  obtain ⟨unanswered, empty⟩ := (tracked.sound i).early early
  have mid : Tracked
      (s.setCall i { s.calls i with phase := .registered, since := some s.arrived.length }) := by
    apply tracked.setCall
    · constructor
      · intro early'
        cases early'
      · intro q source
        rw [unanswered] at source
        cases source
      · intro result filled
        rw [empty] at filled
        cases filled
      · intro result returned
        cases returned
    · intro key found
      exact absurd found (tracked.early_absent early key)
    · rfl
    · intro _
      rfl
  refine ⟨mid.sound, ?_, mid.once, mid.sending, ?_⟩
  · intro key j found
    change pending.lookup key = some j at found
    rw [lookup] at found
    by_cases same : key = id
    · rw [if_pos same] at found
      cases found
      subst same
      rw [setCall_self]
      exact ⟨has, rfl, empty, unanswered, s.arrived.length, rfl, le_refl _⟩
    · rw [if_neg same] at found
      exact mid.owned key j found
  · intro todo j waking member
    obtain ⟨late, absent⟩ := mid.waking todo j waking member
    refine ⟨late, fun key found => ?_⟩
    change pending.lookup key = some j at found
    rw [lookup] at found
    by_cases same : key = id
    · rw [if_pos same] at found
      cases found
      have lateOld := (tracked.waking todo i waking member).1
      rw [early] at lateOld
      cases lateOld
    · rw [if_neg same] at found
      exact absent key found

theorem arrived_kept {arrived : List Message} {q : Nat} {old : Message} (msg : Message)
    (found : arrived[q]? = some old) : (arrived ++ [msg])[q]? = some old := by
  have inside : q < arrived.length := (List.getElem?_eq_some_iff.mp found).1
  rw [List.getElem?_append_left inside, found]

theorem Answered.arrive {arrived : List Message} {call : Call} {result : Result Bytes}
    (answered : Answered arrived call result) (msg : Message) : Answered (arrived ++ [msg]) call result := by
  obtain ⟨q, resp, source, found, settled⟩ := answered
  exact ⟨q, resp, source, arrived_kept msg found, settled⟩

theorem CallSound.arrive {arrived : List Message} {call : Call} (sound : CallSound arrived call)
    (msg : Message) : CallSound (arrived ++ [msg]) call := by
  constructor
  · exact sound.early
  · intro q source
    obtain ⟨resp, n, found, rest⟩ := sound.sourced q source
    exact ⟨resp, n, arrived_kept msg found, rest⟩
  · intro result filled answer
    exact (sound.filled result filled answer).arrive msg
  · intro result returned answer
    exact (sound.returned result returned answer).arrive msg

theorem Owns.arrive {arrived : List Message} {id : UInt64} {call : Call} (owns : Owns arrived id call)
    (msg : Message) : Owns (arrived ++ [msg]) id call := by
  obtain ⟨n, since, within⟩ := owns.since
  refine ⟨owns.id, owns.late, owns.empty, owns.unanswered, n, since, ?_⟩
  rw [List.length_append]
  omega

theorem Tracked.arrive (tracked : Tracked s) (msg : Message) :
    Tracked { s with arrived := s.arrived ++ [msg] } := by
  constructor
  · exact fun i => (tracked.sound i).arrive msg
  · exact fun id i found => (tracked.owned id i found).arrive msg
  · exact tracked.once
  · exact fun i result sending => (tracked.sending i result sending).arrive msg
  · exact tracked.waking

theorem CallSound.unseen {arrived : List Message} {call : Call} (sound : CallSound arrived call) :
    call.source ≠ some arrived.length := by
  intro source
  obtain ⟨old, m, seen, rest⟩ := sound.sourced _ source
  rw [List.getElem?_eq_none (le_refl _)] at seen
  cases seen

/-- The call that has the entry under a response's id takes its answer from it. -/
theorem Owns.claimed {arrived : List Message} {call : Call} {resp : ResponseMsg} (owns : Owns arrived resp.id call)
    (sound : CallSound arrived call) :
    CallSound (arrived ++ [.response resp]) { call with source := some arrived.length } := by
  obtain ⟨n, since, within⟩ := owns.since
  have newest : (arrived ++ [.response resp])[arrived.length]? = some (.response resp) := by simp
  constructor
  · intro early
    rw [show call.phase.early = false from owns.late] at early
    cases early
  · intro q source
    cases source
    exact ⟨resp, n, newest, owns.id, since, within⟩
  · intro result filled
    rw [show call.slot = .empty from owns.empty] at filled
    cases filled
  · intro result returned answer
    obtain ⟨q, old, source, rest⟩ := sound.returned result returned answer
    rw [owns.unanswered] at source
    cases source

theorem Tracked.claim (tracked : Tracked s) {resp : ResponseMsg}
    (found : s.pending.lookup resp.id = some i) :
    Tracked { s.setCall i { s.calls i with source := some s.arrived.length } with
      arrived := s.arrived ++ [.response resp]
      pending := s.pending.erase resp.id
      reader := .sending i (settle resp) } := by
  have owns := tracked.owned resp.id i found
  have newest : (s.arrived ++ [.response resp])[s.arrived.length]? = some (.response resp) := by simp
  constructor
  · intro j
    by_cases same : j = i
    · subst same
      change CallSound _ ((s.setCall j _).calls j)
      rw [setCall_self]
      exact owns.claimed (tracked.sound j)
    · change CallSound _ ((s.setCall i _).calls j)
      rw [setCall_other s same]
      exact (tracked.sound j).arrive _
  · intro key j other
    change (s.pending.erase resp.id).lookup key = some j at other
    by_cases same : key = resp.id
    · rw [same, AList.lookup_erase] at other
      cases other
    · rw [AList.lookup_erase_ne same] at other
      have ownsJ := tracked.owned key j other
      have differ : j ≠ i := by
        intro equal
        rw [equal] at ownsJ
        have ids := ownsJ.id
        rw [owns.id] at ids
        exact same (Option.some.inj ids).symm
      change Owns _ key ((s.setCall i _).calls j)
      rw [setCall_other s differ]
      exact ownsJ.arrive _
  · intro j k q first second
    change ((s.setCall i _).calls j).source = some q at first
    change ((s.setCall i _).calls k).source = some q at second
    by_cases sameJ : j = i <;> by_cases sameK : k = i
    · rw [sameJ, sameK]
    · rw [sameJ, setCall_self] at first
      rw [setCall_other s sameK] at second
      cases first
      exact absurd second (tracked.sound k).unseen
    · rw [setCall_other s sameJ] at first
      rw [sameK, setCall_self] at second
      cases second
      exact absurd first (tracked.sound j).unseen
    · rw [setCall_other s sameJ] at first
      rw [setCall_other s sameK] at second
      exact tracked.once j k q first second
  · intro j result sending
    cases sending
    refine ⟨s.arrived.length, resp, ?_, newest, rfl⟩
    change ((s.setCall i _).calls i).source = some s.arrived.length
    rw [setCall_self]
  · intro todo j waking
    cases waking

theorem transportError_not_answer {e : Error} (transport : transportError e = true) :
    ¬ Answer (.error e) := by
  cases e with
  | rpc code message => cases transport
  | _ => exact id

@[simp] theorem dropSender_pending (s : Channel) (id : UInt64) : (s.dropSender id).pending = s.pending := by
  unfold Channel.dropSender
  split <;> rfl

theorem dropSender_other (s : Channel) (id : UInt64) (absent : s.pending.lookup id ≠ some i) :
    (s.dropSender id).calls i = s.calls i := by
  unfold Channel.dropSender
  split
  · rename_i j found
    have differ : i ≠ j := by
      intro same
      rw [same] at absent
      exact absent found
    exact setCall_other s differ _
  · rfl

theorem Tracked.allocate (tracked : Tracked s) (ready : (s.calls i).phase = .ready) (id : UInt64) :
    Tracked (s.setCall i { s.calls i with phase := .allocated, id := some id }) := by
  have early : (s.calls i).phase.early = true := by
    rw [ready]
    rfl
  obtain ⟨unanswered, empty⟩ := (tracked.sound i).early early
  apply tracked.setCall
  · constructor
    · exact fun _ => ⟨unanswered, empty⟩
    · intro q source
      rw [unanswered] at source
      cases source
    · intro result filled
      rw [empty] at filled
      cases filled
    · intro result returned
      cases returned
  · intro key found
    exact absurd found (tracked.early_absent early key)
  · rfl
  · intro late
    rw [early] at late
    cases late

theorem Tracked.register (tracked : Tracked s) {id : UInt64} (allocated : (s.calls i).phase = .allocated)
    (has : (s.calls i).id = some id) :
    Tracked { (s.dropSender id).setCall i { (s.dropSender id).calls i with
        phase := .registered, since := some (s.dropSender id).arrived.length } with
      pending := (s.dropSender id).pending.insert id i } := by
  have early : (s.calls i).phase.early = true := by
    rw [allocated]
    rfl
  have same := dropSender_other s id (tracked.early_absent early id)
  apply (tracked.removeEntry id).enrol id
  · change ((s.dropSender id).calls i).phase.early = true
    rw [same, early]
  · change ((s.dropSender id).calls i).id = some id
    rw [same, has]
  · intro key
    change ((s.dropSender id).pending.insert id i).lookup key =
      if key = id then some i else (s.pending.erase id).lookup key
    rw [dropSender_pending]
    by_cases equal : key = id
    · rw [if_pos equal, equal, AList.lookup_insert]
    · rw [if_neg equal, AList.lookup_insert_ne equal, AList.lookup_erase_ne equal]

theorem Tracked.held (tracked : Tracked s) {result : Result Bytes} (sending : s.reader = .sending i result) :
    (s.calls i).phase.early = false ∧ ∀ id, s.pending.lookup id ≠ some i := by
  obtain ⟨q, resp, source, rest⟩ := tracked.sending i result sending
  constructor
  · by_contra early
    rw [Bool.not_eq_false] at early
    have unanswered := ((tracked.sound i).early early).1
    rw [source] at unanswered
    cases unanswered
  · intro id found
    have unanswered := (tracked.owned id i found).unanswered
    rw [source] at unanswered
    cases unanswered

theorem Tracked.drain (tracked : Tracked s) :
    Tracked { s with pending := ∅, reader := .waking (s.pending.entries.map Sigma.snd) } := by
  refine ⟨tracked.sound, ?_, tracked.once, ?_, ?_⟩
  · intro id i found
    cases found
  · intro i result sending
    cases sending
  · intro todo i waking member
    cases waking
    obtain ⟨⟨id, j⟩, entry, same⟩ := List.mem_map.mp member
    subst same
    exact ⟨(tracked.owned id j (AList.mem_lookup_iff.mpr entry)).late, fun id found => by cases found⟩

theorem Tracked.wake (tracked : Tracked s) {todo : List Nat} {k : Nat} (waking : s.reader = .waking todo)
    (next : todo[k]? = some i) :
    Tracked { s.setSlot i (.filled (.error .sessionClosed)) with reader := .waking (todo.eraseIdx k) } := by
  obtain ⟨late, absent⟩ := tracked.waking todo i waking (List.mem_of_getElem? next)
  have mid := tracked.setSlot i (.filled (.error .sessionClosed)) late absent
    (fun _ same answer => by cases same; exact absurd answer id)
  refine ⟨mid.sound, mid.owned, mid.once, (fun _ _ sending => by cases sending), ?_⟩
  intro left j same member
  cases same
  exact mid.waking todo j waking (List.mem_of_mem_eraseIdx member)

theorem step_tracked (s : Channel) (label : Label) (t : Channel) (tracked : Tracked s)
    (stepped : step s label = some t) : Tracked t := by
  cases step_effect stepped with
  | @opening i idle =>
    have mid := tracked.setPhase i .opening (fun _ => by rw [idle]; rfl) (fun _ same => by cases same)
    exact mid.setCounters true s.nextId
  | joined idle => exact tracked.setPhase _ .ready (fun _ => by rw [idle]; rfl) (fun _ same => by cases same)
  | @opened i opening =>
    have mid := tracked.setPhase i .ready (fun _ => by rw [opening]; rfl) (fun _ same => by cases same)
    exact mid.setReader false s.nextId (by simp) (by simp)
  | @notOpened i e opening transport =>
    have mid := tracked.setPhase i (.returned (.error e)) (fun early => by cases early)
      (fun _ same answer => by cases same; exact absurd answer (transportError_not_answer transport))
    exact mid.setCounters false s.nextId
  | allocated ready => exact (tracked.allocate ready s.nextId).setCounters s.locked (s.nextId + 1)
  | registered allocated has => exact tracked.register allocated has
  | written registered =>
    exact tracked.setPhase _ .waiting (fun early => by cases early) (fun _ same => by cases same)
  | notWritten registered transport =>
    exact tracked.setPhase _ (.returned (.error _)) (fun early => by cases early)
      (fun _ same answer => by cases same; exact absurd answer (transportError_not_answer transport))
  | expired waiting =>
    exact tracked.setPhase _ .expired (fun early => by cases early) (fun _ same => by cases same)
  | abandoned expired has =>
    exact (tracked.removeEntry _).setPhase _ (.returned (.error (.timeout _))) (fun early => by cases early)
      (fun _ same answer => by cases same; exact absurd answer id)
  | completed waiting filled =>
    exact tracked.setPhase _ (.returned _) (fun early => by cases early)
      (fun _ same answer => by cases same; exact (tracked.sound _).filled _ filled answer)
  | orphaned waiting dropped =>
    exact tracked.setPhase _ (.returned (.error .sessionClosed)) (fun early => by cases early)
      (fun _ same answer => by cases same; exact absurd answer id)
  | claimed reading found => exact tracked.claim found
  | skipped reading => exact tracked.arrive _
  | ended reading => exact tracked.setReader s.locked s.nextId (by simp) (by simp)
  | @delivered i result sending =>
    obtain ⟨lateI, absent⟩ := tracked.held sending
    have mid := tracked.setSlot i (.filled result) lateI absent
      (fun _ same _ => by cases same; exact tracked.sending i result sending)
    exact mid.setReader s.locked s.nextId (by simp) (by simp)
  | drained ended => exact tracked.drain
  | woken waking next => exact tracked.wake waking next
  | finished waking => exact tracked.setReader s.locked s.nextId (by simp) (by simp)

theorem reachable_tracked (reached : Reachable step Channel.init s) : Tracked s :=
  reached.invariant init_tracked step_tracked

theorem setCall_phase (s : Channel) (i j : Nat) (call : Call) :
    ((s.setCall i call).calls j).phase = if j = i then call.phase else (s.calls j).phase := by
  by_cases same : j = i
  · rw [if_pos same, same, setCall_self]
  · rw [if_neg same, setCall_other s same]

theorem dropSender_phase (s : Channel) (id : UInt64) (j : Nat) :
    ((s.dropSender id).calls j).phase = (s.calls j).phase := by
  unfold Channel.dropSender
  split
  · rename_i k _
    rw [Channel.setSlot, setCall_phase]
    split
    · rename_i same
      rw [same]
    · rfl
  · rfl

def Label.call : Label → Option Nat
  | .enter i | .opened i _ | .allocate i | .register i | .write i _ | .expire i | .abandon i | .complete i =>
      some i
  | _ => none

/-- Only a call's own step changes its phase, and a call that has returned takes none. -/
theorem phase_step {label : Label} (stepped : step s label = some t) (j : Nat) :
    (t.calls j).phase = (s.calls j).phase ∨
      label.call = some j ∧ ∀ result, (s.calls j).phase ≠ .returned result := by
  have own : ∀ (u : Channel) i call, (u.calls j).phase = (s.calls j).phase →
      (∀ result, (s.calls i).phase ≠ .returned result) →
      ((u.setCall i call).calls j).phase = (s.calls j).phase ∨
        some i = some j ∧ ∀ result, (s.calls j).phase ≠ .returned result := by
    intro u i call same active
    by_cases equal : j = i
    · rw [equal]
      exact Or.inr ⟨rfl, active⟩
    · rw [setCall_phase, if_neg equal]
      exact Or.inl same
  have stays : ∀ i call, call.phase = (s.calls i).phase →
      ((s.setCall i call).calls j).phase = (s.calls j).phase := by
    intro i call same
    rw [setCall_phase]
    split
    · rename_i equal
      rw [same, equal]
    · rfl
  cases step_effect stepped with
  | opening idle => exact own s _ _ rfl (by simp [idle])
  | joined idle => exact own s _ _ rfl (by simp [idle])
  | opened opening => exact own s _ _ rfl (by simp [opening])
  | notOpened opening transport => exact own s _ _ rfl (by simp [opening])
  | allocated ready => exact own s _ _ rfl (by simp [ready])
  | registered allocated has => exact own (s.dropSender _) _ _ (dropSender_phase s _ j) (by simp [allocated])
  | written registered => exact own s _ _ rfl (by simp [registered])
  | notWritten registered transport => exact own s _ _ rfl (by simp [registered])
  | expired waiting => exact own s _ _ rfl (by simp [waiting])
  | abandoned expired has => exact own (s.dropSender _) _ _ (dropSender_phase s _ j) (by simp [expired])
  | completed waiting filled => exact own s _ _ rfl (by simp [waiting])
  | orphaned waiting dropped => exact own s _ _ rfl (by simp [waiting])
  | claimed reading found => exact Or.inl (stays _ _ rfl)
  | delivered sending => exact Or.inl (stays _ _ rfl)
  | woken waking next => exact Or.inl (stays _ _ rfl)
  | skipped | ended | drained | finished => exact Or.inl rfl

theorem returned_stays {label : Label} {j : Nat} {result : Result Bytes}
    (returned : (s.calls j).phase = .returned result) (stepped : step s label = some t) :
    (t.calls j).phase = .returned result := by
  rcases phase_step stepped j with same | ⟨own, active⟩
  · rw [same, returned]
  · exact absurd returned (active result)

/-- In every run a call that has completed stays as it completed; what it
completed with from the peer is what a response with its own id says that came
after it registered; and two calls never complete from one response. -/
theorem calls_answered_once (reached : Reachable step Channel.init s) :
    (∀ i result, (s.calls i).phase = .returned result →
      ∀ labels t, run step s labels = some t → (t.calls i).phase = .returned result) ∧
    (∀ i result, (s.calls i).phase = .returned result → Answer result →
      ∃ q resp n, (s.calls i).source = some q ∧ s.arrived[q]? = some (.response resp) ∧
        (s.calls i).id = some resp.id ∧ settle resp = result ∧ (s.calls i).since = some n ∧ n ≤ q) ∧
    (∀ i j q, (s.calls i).source = some q → (s.calls j).source = some q → i = j) := by
  have tracked := reachable_tracked reached
  refine ⟨?_, ?_, tracked.once⟩
  · intro i result returned labels t ran
    have keeps : ∀ u label v, (Channel.calls u i).phase = .returned result → step u label = some v →
        (v.calls i).phase = .returned result := fun _ _ _ before stepped => returned_stays before stepped
    exact run_invariant keeps returned ran
  · intro i result returned answer
    obtain ⟨q, resp, source, found, settled⟩ := (tracked.sound i).returned result returned answer
    obtain ⟨other, n, again, id, since, within⟩ := (tracked.sound i).sourced q source
    rw [found] at again
    cases again
    exact ⟨q, resp, n, source, found, id, settled, since, within⟩

private def crossing : List Label :=
  [.enter 0, .opened 0 none, .allocate 0, .register 0, .write 0 none,
    .enter 1, .allocate 1, .register 1, .write 1 none,
    .read (.ok (some (.response ⟨2, .success, none, [8]⟩))), .deliver, .complete 1,
    .read (.ok (some (.response ⟨1, .success, none, [9]⟩))), .deliver, .complete 0]

private def crossed : Channel := (run step Channel.init crossing).getD .init

theorem calls_answered_once_crossed :
    (∃ q resp n, (crossed.calls 0).source = some q ∧ crossed.arrived[q]? = some (.response resp) ∧
      (crossed.calls 0).id = some resp.id ∧ settle resp = .ok [9] ∧ (crossed.calls 0).since = some n ∧ n ≤ q) ∧
    (∃ q resp n, (crossed.calls 1).source = some q ∧ crossed.arrived[q]? = some (.response resp) ∧
      (crossed.calls 1).id = some resp.id ∧ settle resp = .ok [8] ∧ (crossed.calls 1).since = some n ∧ n ≤ q) := by
  have answered := (calls_answered_once (s := crossed) ⟨crossing, rfl⟩).2.1
  exact ⟨answered 0 (.ok [9]) rfl trivial, answered 1 (.ok [8]) rfl trivial⟩

end EchoStream.Core.RpcChannel
