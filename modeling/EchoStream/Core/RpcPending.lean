import EchoStream.Core.RpcChannel

/-! Who waits in the pending map of the channel. An entry is meant to stand for
a call that still waits, on a channel that is still read. Registering after the
reader loop has drained the map, and failing to write a request without taking
its entry back, are the two ways in which it comes to stand for less. -/

namespace EchoStream.Core.RpcPending
open Foundation.Run
open Proto.Messages
open RpcChannel

variable {s t : Channel} {i : Nat}

/-- Whoever has an entry in the map has not returned, and the reader loop will
still see the entry. -/
def Awaited (s : Channel) : Prop :=
  ∀ id i, s.pending.lookup id = some i →
    (s.calls i).id = some id ∧ (∀ result, (s.calls i).phase ≠ .returned result) ∧ s.reader.running = true

/-- A call registers before the reader loop has drained the map, and a request
that fails to be written has lost its entry by then. -/
def Careful (s : Channel) : Label → Prop
  | .register _ => s.reader.running = true
  | .write i (some _) => ∀ id, s.pending.lookup id ≠ some i
  | _ => True

theorem lookup_of_erase {pending : AList (fun _ : UInt64 => Nat)} {id key : UInt64}
    (left : (pending.erase key).lookup id = some i) : id ≠ key ∧ pending.lookup id = some i := by
  by_cases same : id = key
  · rw [same, AList.lookup_erase] at left
    cases left
  · rw [AList.lookup_erase_ne same] at left
    exact ⟨same, left⟩

theorem entry_step {label : Label} {id : UInt64} (stepped : step s label = some t)
    (found : t.pending.lookup id = some i) : s.pending.lookup id = some i ∨ label = .register i := by
  cases step_effect stepped with
  | @registered k key allocated has =>
    change ((s.dropSender key).pending.insert key k).lookup id = some i at found
    rw [dropSender_pending] at found
    by_cases same : id = key
    · rw [same, AList.lookup_insert] at found
      cases found
      exact Or.inr rfl
    · rw [AList.lookup_insert_ne same] at found
      exact Or.inl found
  | abandoned expired has => exact Or.inl (lookup_of_erase found).2
  | claimed reading taken => exact Or.inl (lookup_of_erase found).2
  | drained ended => cases found
  | _ => exact Or.inl found

@[simp] theorem dropSender_reader (s : Channel) (id : UInt64) : (s.dropSender id).reader = s.reader := by
  unfold Channel.dropSender
  split <;> rfl

theorem running_step {label : Label} (stepped : step s label = some t) (running : s.reader.running = true)
    {id : UInt64} (found : t.pending.lookup id = some i) : t.reader.running = true := by
  cases step_effect stepped with
  | drained ended => cases found
  | registered allocated has =>
    rw [← dropSender_reader s] at running
    exact running
  | abandoned expired has =>
    rw [← dropSender_reader s] at running
    exact running
  | woken waking next =>
    rw [waking] at running
    cases running
  | finished waking =>
    rw [waking] at running
    cases running
  | opened | claimed | ended | delivered => rfl
  | _ => exact running

theorem entry_of_register (stepped : step s (.register i) = some t) :
    t.reader = s.reader ∧ ∃ id, t.pending.lookup id = some i := by
  cases step_effect stepped with
  | @registered _ id allocated has =>
    refine ⟨dropSender_reader s id, id, ?_⟩
    change ((s.dropSender id).pending.insert id i).lookup id = some i
    rw [AList.lookup_insert]

/-- A careful step does not make a call return that keeps its entry. -/
theorem entry_not_returned {label : Label} {id : UInt64} (tracked : Tracked s) (careful : Careful s label)
    (stepped : step s label = some t) (old : s.pending.lookup id = some i)
    (found : t.pending.lookup id = some i) (waits : ∀ result, (s.calls i).phase ≠ .returned result)
    (result : Result Bytes) : (t.calls i).phase ≠ .returned result := by
  have owns := tracked.owned id i old
  have registered : ∀ phase, (s.calls i).phase = phase → phase.early = false := by
    rintro _ rfl
    exact owns.late
  have set : ∀ phase, phase ≠ .returned result → ((s.setPhase i phase).calls i).phase ≠ .returned result := by
    intro phase other
    rw [Channel.setPhase, setCall_self]
    exact other
  rcases phase_step stepped i with same | ⟨own, -⟩
  · rw [same]
    exact waits result
  · cases step_effect stepped with
    | opening idle | joined idle => cases own; cases registered _ idle
    | opened opening | notOpened opening => cases own; cases registered _ opening
    | allocated ready => cases own; cases registered _ ready
    | registered allocated has => cases own; cases registered _ allocated
    | written before => cases own; exact set _ Phase.noConfusion
    | expired waiting => cases own; exact set _ Phase.noConfusion
    | notWritten before transport => cases own; exact absurd old (careful id)
    | abandoned expired has =>
      cases own
      rw [owns.id] at has
      exact absurd (Option.some.inj has) (lookup_of_erase found).1
    | completed waiting filled =>
      cases own
      rw [owns.empty] at filled
      cases filled
    | orphaned waiting dropped =>
      cases own
      rw [owns.empty] at dropped
      cases dropped
    | _ => cases own

theorem awaited_step {label : Label} (tracked : Tracked s) (awaited : Awaited s) (careful : Careful s label)
    (stepped : step s label = some t) : Awaited t := by
  have after := step_tracked s label t tracked stepped
  intro id i found
  have owns := after.owned id i found
  refine ⟨owns.id, ?_⟩
  rcases entry_step stepped found with old | rfl
  · obtain ⟨_, waits, running⟩ := awaited id i old
    exact ⟨entry_not_returned tracked careful stepped old found waits, running_step stepped running found⟩
  · refine ⟨fun result returned => ?_, running_step stepped careful found⟩
    cases step_effect stepped with
    | registered allocated has =>
      change (((s.dropSender _).setCall i _).calls i).phase = .returned result at returned
      rw [setCall_self] at returned
      cases returned

/-- A step that is not careful leaves an entry that nobody waits for or reads. -/
theorem careful_of_awaited {label : Label} (stepped : step s label = some t) (awaited : Awaited t) :
    Careful s label := by
  cases label with
  | register i =>
    obtain ⟨same, id, found⟩ := entry_of_register stepped
    have running := (awaited id i found).2.2
    rw [same] at running
    exact running
  | write i failure =>
    cases failure with
    | none => trivial
    | some e =>
      intro id old
      cases step_effect stepped with
      | notWritten registered transport =>
        apply (awaited id i old).2.1 (.error e)
        rw [Channel.setPhase, setCall_self]
  | _ => trivial

/-- Every entry stands for a waiting call on a channel still read, in every state
of a run, exactly when every step of the run is careful. -/
theorem awaited_iff_careful (labels : List Label) :
    Always step Awaited Channel.init labels ↔ Guarded step Careful Channel.init labels :=
  always_iff_guarded step_tracked
    (fun _ _ _ tracked awaited careful stepped => awaited_step tracked awaited careful stepped)
    (fun _ _ _ _ _ stepped awaited => careful_of_awaited stepped awaited)
    labels init_tracked (fun _ _ found => by cases found)

/-- A request that could not be written leaves its entry behind. -/
private def unwritten : List Label :=
  [.enter 0, .opened 0 none, .allocate 0, .register 0, .write 0 (some .sessionClosed)]

/-- A call that registers after the channel was closed waits where nobody reads. -/
private def tooLate : List Label :=
  [.enter 0, .opened 0 none, .read (.ok none), .drain, .finish, .allocate 0, .register 0]

private def channelAfter (labels : List Label) : Channel := (run step Channel.init labels).getD .init

theorem entries_left_behind :
    ¬ Always step Awaited Channel.init unwritten ∧ ¬ Always step Awaited Channel.init tooLate := by
  constructor
  · intro always
    have ran : run step Channel.init unwritten = some (channelAfter unwritten) := rfl
    have awaited := always.last ran
    exact (awaited 1 0 rfl).2.1 (.error .sessionClosed) rfl
  · intro always
    have ran : run step Channel.init tooLate = some (channelAfter tooLate) := rfl
    have awaited := always.last ran
    cases (awaited 1 0 rfl).2.2

end EchoStream.Core.RpcPending
