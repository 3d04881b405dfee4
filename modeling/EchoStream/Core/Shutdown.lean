import EchoStream.Foundation.Run

/-! Shutting a server down while it runs. `shutdown` wakes the loop by a
notification, which reaches only a loop that is waiting in its `select!` at that
moment. The core server closes its listener after that, and a closed listener
accepts nothing; the WebSocket server does no more. -/

namespace EchoStream.Core.Shutdown
open Foundation.Run

inductive Front where
  | core
  | ws

/-- `run` before it starts, between two waits, waiting (with the notification or
without), with a connection that is not registered yet, running the connect hooks,
and behind its loop. -/
inductive Phase where
  | before
  | looping
  | selecting (notified : Bool)
  | accepted
  | connecting
  | stopped
deriving DecidableEq

/-- `closing` counts the calls of `shutdown` that have notified and not closed the
listener yet. What follows after the first call has returned is counted: the
connections `run` was processing then, those it took since, those it registered. -/
structure Server where
  phase : Phase
  backlog : Nat
  closed : Bool
  closing : Nat
  returned : Bool
  owed : Nat
  taken : Nat
  registered : Nat

def Server.init : Server := ⟨.before, 0, false, 0, false, 0, 0, 0⟩

/-- `accept` and `refuse` are the outcomes of `listener.accept()` in the `select!`,
`notified` is that of its other branch. -/
inductive Label where
  | start
  | arrive
  | select
  | accept
  | refuse
  | notified
  | handshake (succeeds : Bool)
  | hooks
  | shutdown
  | close

/-- A connection that is not registered yet. -/
def Phase.pending (phase : Phase) : Nat := if phase = .accepted then 1 else 0

def Server.returns (s : Server) : Server :=
  if s.returned then s else { s with returned := true, owed := s.phase.pending }

def notifyWaiters : Phase → Phase
  | .selecting _ => .selecting true
  | phase => phase

/-- Only the WebSocket server is done with the notification. -/
def shutdown (front : Front) (s : Server) : Server :=
  match front with
  | .core => { s with phase := notifyWaiters s.phase, closing := s.closing + 1 }
  | .ws => { s with phase := notifyWaiters s.phase }.returns

def close (front : Front) (s : Server) : Option Server :=
  match front, s.closing with
  | .core, closing + 1 => some { s with closing, closed := true }.returns
  | _, _ => none

def accept (s : Server) : Option Server :=
  match s.phase, s.backlog, s.closed with
  | .selecting _, backlog + 1, false =>
      some { s with phase := .accepted, backlog, taken := if s.returned then s.taken + 1 else s.taken }
  | _, _, _ => none

/-- The session is registered, which in the core server nothing comes before. -/
def handshake (front : Front) (s : Server) (succeeds : Bool) : Option Server :=
  match s.phase, succeeds with
  | .accepted, true =>
      some { s with phase := .connecting, registered := if s.returned then s.registered + 1 else s.registered }
  | .accepted, false =>
      match front with
      | .core => none
      | .ws => some { s with phase := .looping }
  | _, _ => none

def step (front : Front) : Step Server Label
  | s, .start => if s.phase = .before then some { s with phase := .looping } else none
  | s, .arrive => some { s with backlog := s.backlog + 1 }
  | s, .select => if s.phase = .looping then some { s with phase := .selecting false } else none
  | s, .accept => accept s
  | s, .refuse =>
      match s.phase with
      | .selecting _ => some { s with phase := .stopped }
      | _ => none
  | s, .notified => if s.phase = .selecting true then some { s with phase := .stopped } else none
  | s, .handshake succeeds => handshake front s succeeds
  | s, .hooks => if s.phase = .connecting then some { s with phase := .looping } else none
  | s, .shutdown => some (shutdown front s)
  | s, .close => close front s

/-- Once `shutdown` has returned, no connection is taken, no other is registered
than the one that was being processed, and a wait of the loop is one that ends. -/
def Faithful (s : Server) : Prop :=
  s.returned = true →
    s.taken = 0 ∧ s.registered ≤ s.owed ∧
      ∀ notified, s.phase = .selecting notified → notified = true ∨ s.closed = true

/-- The WebSocket server is shut down while its loop waits or is over, and no
connection is taken in place of the notification. -/
def Heard (s : Server) : Label → Prop
  | .shutdown => (∃ notified, s.phase = .selecting notified) ∨ s.phase = .stopped
  | .accept => s.phase ≠ .selecting true
  | _ => True

/-- The core server has no such condition. -/
def Careful : Front → Server → Label → Prop
  | .core, _, _ => True
  | .ws, s, label => Heard s label

/-- Why no further connection will be taken. -/
def Ends : Front → Server → Prop
  | .core, s => s.closed = true
  | .ws, s => s.phase = .selecting true ∨ s.phase = .stopped

structure Sound (front : Front) (s : Server) : Prop where
  none_taken : s.taken = 0
  unreturned : s.returned = false → s.registered = 0
  owed : s.returned = true → s.registered + s.phase.pending ≤ s.owed
  ends : s.returned = true → Ends front s

variable {front : Front} {s t : Server} {phase : Phase}

theorem init_sound (front : Front) : Sound front .init := by
  constructor
  · rfl
  · exact fun _ => rfl
  · intro returned
    cases returned
  · intro returned
    cases returned

/-- What ends the loop of the core server is not in its phase. -/
theorem Ends.move (ends : Ends front s) (deaf : s.phase ≠ .selecting true) (going : s.phase ≠ .stopped) :
    Ends front { s with phase } := by
  cases front with
  | core => exact ends
  | ws =>
    rcases ends with notified | stopped
    · exact absurd notified deaf
    · exact absurd stopped going

theorem Sound.move (sound : Sound front s) (fewer : phase.pending ≤ s.phase.pending)
    (still : Ends front s → Ends front { s with phase }) : Sound front { s with phase } := by
  constructor
  · exact sound.none_taken
  · exact sound.unreturned
  · intro returned
    exact Nat.le_trans (Nat.add_le_add_left fewer s.registered) (sound.owed returned)
  · intro returned
    exact still (sound.ends returned)

theorem Sound.stop (sound : Sound front s) : Sound front { s with phase := .stopped } := by
  refine sound.move (Nat.zero_le _) (fun ends => ?_)
  cases front with
  | core => exact ends
  | ws => exact Or.inr rfl

theorem Sound.returns (sound : Sound front s) (ends : Ends front s.returns) : Sound front s.returns := by
  by_cases before : s.returned = true
  · rw [Server.returns, if_pos before]
    exact sound
  · have first : s.returns = { s with returned := true, owed := s.phase.pending } := if_neg before
    rw [first] at ends ⊢
    constructor
    · exact sound.none_taken
    · intro unreturned
      cases unreturned
    · intro _
      have registered := sound.unreturned (Bool.eq_false_iff.mpr before)
      exact Nat.le_of_eq (by rw [registered, Nat.zero_add])
    · exact fun _ => ends

theorem Ends.congr (ends : Ends front s) (same_phase : t.phase = s.phase) (same_closed : t.closed = s.closed) :
    Ends front t := by
  cases front with
  | core => exact same_closed.trans ends
  | ws =>
    change t.phase = .selecting true ∨ t.phase = .stopped
    rw [same_phase]
    exact ends

theorem Ends.returns (ends : Ends front s) : Ends front s.returns := by
  unfold Server.returns
  split
  · exact ends
  · exact ends.congr rfl rfl

theorem notifyWaiters_pending (phase : Phase) : (notifyWaiters phase).pending = phase.pending := by
  cases phase <;> rfl

theorem shutdown_sound (sound : Sound front s) (careful : Careful front s .shutdown) :
    Sound front (shutdown front s) := by
  have fewer : (notifyWaiters s.phase).pending ≤ s.phase.pending :=
    Nat.le_of_eq (notifyWaiters_pending s.phase)
  cases front with
  | core =>
    have moved : Sound .core { s with phase := notifyWaiters s.phase } := sound.move fewer id
    exact ⟨moved.none_taken, moved.unreturned, moved.owed, moved.ends⟩
  | ws =>
    have heard : Ends .ws { s with phase := notifyWaiters s.phase } := by
      rcases careful with ⟨notified, waits⟩ | stopped
      · left
        change notifyWaiters s.phase = _
        rw [waits]
        rfl
      · right
        change notifyWaiters s.phase = _
        rw [stopped]
        rfl
    exact (sound.move fewer (fun _ => heard)).returns heard.returns

theorem close_sound (sound : Sound front s) (stepped : close front s = some t) : Sound front t := by
  unfold close at stepped
  split at stepped
  · rename_i closing _
    cases stepped
    have closed : Sound .core { s with closing, closed := true } :=
      ⟨sound.none_taken, sound.unreturned, sound.owed, fun _ => rfl⟩
    have ends : Ends .core { s with closing, closed := true } := rfl
    exact closed.returns ends.returns
  · cases stepped

theorem accept_some (stepped : accept s = some t) :
    (∃ notified, s.phase = .selecting notified) ∧ s.closed = false ∧ ∃ backlog,
      t = { s with phase := .accepted, backlog, taken := if s.returned then s.taken + 1 else s.taken } := by
  unfold accept at stepped
  split at stepped
  · rename_i notified backlog waits _ opened
    exact ⟨⟨notified, waits⟩, opened, backlog, (Option.some.inj stepped).symm⟩
  · cases stepped

/-- Nothing is taken once the call has returned: the core server's listener is
closed, and the loop of the other holds the notification. -/
theorem accept_sound (sound : Sound front s) (careful : Careful front s .accept) (stepped : accept s = some t) :
    Sound front t := by
  obtain ⟨⟨notified, waits⟩, opened, backlog, rfl⟩ := accept_some stepped
  have unreturned : s.returned = false := by
    by_contra returned
    have ends := sound.ends (Bool.not_eq_false _ ▸ returned)
    cases front with
    | core => exact Bool.noConfusion (opened.symm.trans ends)
    | ws =>
      rcases ends with holds | stopped
      · exact careful holds
      · exact Phase.noConfusion (waits.symm.trans stopped)
  constructor
  · change (if s.returned then s.taken + 1 else s.taken) = 0
    rw [unreturned]
    exact sound.none_taken
  · exact sound.unreturned
  · intro returned
    exact Bool.noConfusion (unreturned.symm.trans returned)
  · intro returned
    exact Bool.noConfusion (unreturned.symm.trans returned)

theorem Sound.go {deaf : Phase} (sound : Sound front s) (now : s.phase = deaf) (fewer : phase.pending = 0)
    (unheard : deaf ≠ .selecting true) (going : deaf ≠ .stopped) : Sound front { s with phase } := by
  refine sound.move ?_ (fun ends => ends.move ?_ ?_)
  · rw [fewer]
    exact Nat.zero_le _
  · rw [now]
    exact unheard
  · rw [now]
    exact going

theorem handshake_sound {succeeds : Bool} (sound : Sound front s)
    (stepped : handshake front s succeeds = some t) : Sound front t := by
  unfold handshake at stepped
  split at stepped
  · rename_i accepted
    cases stepped
    have moved : Sound front { s with phase := .connecting } :=
      sound.go accepted rfl Phase.noConfusion Phase.noConfusion
    constructor
    · exact sound.none_taken
    · intro unreturned
      change (if s.returned then s.registered + 1 else s.registered) = 0
      rw [unreturned]
      exact sound.unreturned unreturned
    · intro returned
      change (if s.returned then s.registered + 1 else s.registered) + 0 ≤ s.owed
      have owed := sound.owed returned
      rw [accepted] at owed
      rw [if_pos returned]
      exact owed
    · intro returned
      exact (moved.ends returned).congr rfl rfl
  · rename_i accepted
    split at stepped
    · cases stepped
    · cases stepped
      exact sound.go accepted rfl Phase.noConfusion Phase.noConfusion
  · cases stepped

theorem step_sound (s : Server) (label : Label) (t : Server) (sound : Sound front s)
    (careful : Careful front s label) (stepped : step front s label = some t) : Sound front t := by
  cases label with
  | start =>
    obtain ⟨before, same⟩ := Option.ite_none_right_eq_some.mp stepped
    cases same
    exact sound.go before rfl Phase.noConfusion Phase.noConfusion
  | arrive =>
    cases stepped
    exact ⟨sound.none_taken, sound.unreturned, sound.owed, fun returned => (sound.ends returned).congr rfl rfl⟩
  | select =>
    obtain ⟨looping, same⟩ := Option.ite_none_right_eq_some.mp stepped
    cases same
    exact sound.go looping rfl Phase.noConfusion Phase.noConfusion
  | accept => exact accept_sound sound careful stepped
  | refuse =>
    simp only [step] at stepped
    split at stepped
    · cases stepped
      exact sound.stop
    · cases stepped
  | notified =>
    obtain ⟨_, same⟩ := Option.ite_none_right_eq_some.mp stepped
    cases same
    exact sound.stop
  | handshake succeeds => exact handshake_sound sound stepped
  | hooks =>
    obtain ⟨connecting, same⟩ := Option.ite_none_right_eq_some.mp stepped
    cases same
    exact sound.go connecting rfl Phase.noConfusion Phase.noConfusion
  | shutdown =>
    cases stepped
    exact shutdown_sound sound careful
  | close => exact close_sound sound stepped

theorem Sound.faithful (sound : Sound front s) : Faithful s := by
  intro returned
  refine ⟨sound.none_taken, Nat.le_of_add_right_le (sound.owed returned), fun notified waits => ?_⟩
  have ends := sound.ends returned
  cases front with
  | core => exact Or.inr ends
  | ws =>
    rcases ends with holds | stopped
    · left
      rw [waits] at holds
      exact Phase.selecting.inj holds
    · exact Phase.noConfusion (waits.symm.trans stopped)

/-- The WebSocket server never closes its listener, and only `shutdown` notifies. -/
structure Kept (s : Server) : Prop where
  opened : s.closed = false
  notified : s.phase = .selecting true → s.returned = true

theorem returns_phase (s : Server) : s.returns.phase = s.phase := by
  unfold Server.returns
  split <;> rfl

theorem returns_returned (s : Server) : s.returns.returned = true := by
  unfold Server.returns
  split
  · assumption
  · rfl

theorem returns_kept (opened : s.closed = false) : Kept s.returns := by
  unfold Server.returns
  split
  · rename_i returned
    exact ⟨opened, fun _ => returned⟩
  · exact ⟨opened, fun _ => rfl⟩

theorem step_kept (s : Server) (label : Label) (t : Server) (kept : Kept s)
    (stepped : step .ws s label = some t) : Kept t := by
  cases label with
  | start =>
    obtain ⟨_, same⟩ := Option.ite_none_right_eq_some.mp stepped
    cases same
    exact ⟨kept.opened, Phase.noConfusion⟩
  | arrive =>
    cases stepped
    exact ⟨kept.opened, kept.notified⟩
  | select =>
    obtain ⟨_, same⟩ := Option.ite_none_right_eq_some.mp stepped
    cases same
    refine ⟨kept.opened, fun notified => ?_⟩
    cases notified
  | accept =>
    obtain ⟨_, _, _, rfl⟩ := accept_some stepped
    exact ⟨kept.opened, Phase.noConfusion⟩
  | refuse =>
    simp only [step] at stepped
    split at stepped
    · cases stepped
      exact ⟨kept.opened, Phase.noConfusion⟩
    · cases stepped
  | notified =>
    obtain ⟨_, same⟩ := Option.ite_none_right_eq_some.mp stepped
    cases same
    exact ⟨kept.opened, Phase.noConfusion⟩
  | handshake succeeds =>
    simp only [step, handshake] at stepped
    split at stepped
    · cases stepped
      exact ⟨kept.opened, Phase.noConfusion⟩
    · cases stepped
      exact ⟨kept.opened, Phase.noConfusion⟩
    · cases stepped
  | hooks =>
    obtain ⟨_, same⟩ := Option.ite_none_right_eq_some.mp stepped
    cases same
    exact ⟨kept.opened, Phase.noConfusion⟩
  | shutdown =>
    cases stepped
    exact returns_kept kept.opened
  | close => cases stepped

/-- What the loop does next, until it waits. -/
def wayBack : Phase → List Label
  | .before => [.start, .select]
  | .looping => [.select]
  | .accepted => [.handshake true, .hooks, .select]
  | .connecting => [.hooks, .select]
  | .selecting _ | .stopped => []

theorem wayBack_run (busy : ∀ notified, s.phase ≠ .selecting notified) (going : s.phase ≠ .stopped) :
    ∃ t, run (step front) s (wayBack s.phase) = some t ∧ t.phase = .selecting false ∧ t.closed = s.closed ∧
      t.returned = s.returned := by
  obtain ⟨phase, backlog, closed, closing, returned, owed, taken, registered⟩ := s
  cases phase with
  | before => exact ⟨_, rfl, rfl, rfl, rfl⟩
  | looping => exact ⟨_, rfl, rfl, rfl, rfl⟩
  | selecting notified => exact absurd rfl (busy notified)
  | accepted => exact ⟨_, rfl, rfl, rfl, rfl⟩
  | connecting => exact ⟨_, rfl, rfl, rfl, rfl⟩
  | stopped => exact absurd rfl going

theorem notifyWaiters_busy (busy : ∀ notified, phase ≠ .selecting notified) : notifyWaiters phase = phase := by
  cases phase with
  | selecting notified => exact absurd rfl (busy notified)
  | before => rfl
  | looping => rfl
  | accepted => rfl
  | connecting => rfl
  | stopped => rfl

/-- The notification of a loop that does not wait is lost: the loop comes to wait
for a connection. -/
theorem unheard_fails (kept : Kept s) (unheard : ¬ Heard s .shutdown) :
    ∃ later, ¬ Always (step .ws) Faithful s (.shutdown :: later) := by
  have busy : ∀ notified, s.phase ≠ .selecting notified :=
    fun notified waits => unheard (Or.inl ⟨notified, waits⟩)
  have going : s.phase ≠ .stopped := fun stopped => unheard (Or.inr stopped)
  have same : (shutdown .ws s).phase = s.phase := (returns_phase _).trans (notifyWaiters_busy busy)
  have opened : (shutdown .ws s).closed = false := (step_kept s .shutdown _ kept rfl).opened
  have called : (shutdown .ws s).returned = true := returns_returned _
  rw [← same] at busy going
  obtain ⟨t, ran, waits, still, returned⟩ := wayBack_run busy going
  refine ⟨wayBack (shutdown .ws s).phase, fun always => ?_⟩
  have ends := (((always.2 _ rfl).last ran) (returned.trans called)).2.2 false waits
  rw [still, opened] at ends
  rcases ends with notified | closed
  · cases notified
  · cases closed

/-- The select takes a connection although it was notified. -/
theorem passed_over_fails (kept : Kept s) (passed : s.phase = .selecting true) (stepped : accept s = some t) :
    ¬ Always (step .ws) Faithful s [.accept] := by
  intro always
  have returned := kept.notified passed
  have later : Faithful t := always.2 t stepped
  obtain ⟨_, _, _, rfl⟩ := accept_some stepped
  have none_taken : (if s.returned then s.taken + 1 else s.taken) = 0 := (later returned).1
  rw [returned] at none_taken
  cases none_taken

/-- The core server keeps what `shutdown` promises in every run, the WebSocket
server in those in which the notification is heard each time. A step in which it
is not has a sequel that breaks the promise. -/
theorem shutdown_stops (labels : List Label) :
    Always (step .core) Faithful .init labels ∧
      (Guarded (step .ws) Heard .init labels → Always (step .ws) Faithful .init labels) ∧
        ∀ s, run (step .ws) .init labels = some s → ∀ label t, step .ws s label = some t → ¬ Heard s label →
          ∃ later, ¬ Always (step .ws) Faithful s (label :: later) := by
  refine ⟨?_, fun heard => ?_, fun s ran label t stepped unheard => ?_⟩
  · have careful : Guarded (step .core) (Careful .core) .init labels :=
      guarded_of_forall (fun _ _ _ _ => trivial) _ labels
    exact (guarded_always step_sound (init_sound .core) careful).mono (fun _ sound => sound.faithful)
  · have careful : Guarded (step .ws) (Careful .ws) .init labels := heard
    exact (guarded_always step_sound (init_sound .ws) careful).mono (fun _ sound => sound.faithful)
  · have start : Kept .init := ⟨rfl, Phase.noConfusion⟩
    have kept : Kept s := run_invariant step_kept start ran
    cases label with
    | shutdown => exact unheard_fails kept unheard
    | accept => exact ⟨[], passed_over_fails kept (not_not.mp unheard) stepped⟩
    | start => exact absurd trivial unheard
    | arrive => exact absurd trivial unheard
    | select => exact absurd trivial unheard
    | refuse => exact absurd trivial unheard
    | notified => exact absurd trivial unheard
    | handshake succeeds => exact absurd trivial unheard
    | hooks => exact absurd trivial unheard
    | close => exact absurd trivial unheard

/-- The call comes while the loop waits, a connection after it. -/
theorem shutdown_stops_waiting :
    Always (step .ws) Faithful .init
      [.start, .select, .arrive, .accept, .handshake true, .hooks, .select, .shutdown, .arrive, .notified] := by
  apply (shutdown_stops _).2.1
  refine .cons rfl trivial (.cons rfl trivial (.cons rfl trivial (.cons rfl ?_ (.cons rfl trivial (.cons rfl trivial
    (.cons rfl trivial (.cons rfl ?_ (.cons rfl trivial (.cons rfl trivial trivial)))))))))
  · intro notified
    cases notified
  · exact Or.inl ⟨false, rfl⟩

/-- The call comes during a handshake. -/
private def duringHandshake : List Label :=
  [.start, .select, .arrive, .accept, .shutdown, .handshake true, .hooks, .select, .arrive, .accept]

/-- The WebSocket server then takes the next connection, too. -/
theorem shutdown_lost : ¬ ∀ front labels, Always (step front) Faithful .init labels := by
  intro all
  have ran : run (step .ws) .init duringHandshake =
      some ((run (step .ws) .init duringHandshake).getD .init) := rfl
  have none_taken := (((all .ws duringHandshake).last ran) rfl).1
  cases none_taken

end EchoStream.Core.Shutdown
