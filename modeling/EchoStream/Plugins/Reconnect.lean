import EchoStream.Core.Lifecycle

/-! The reconnect plugin. Its callback starts a task that tries to connect again
and again, and hands the first new connection to `reconnect`. Before each attempt
the task checks that the client has not been closed. The user calls `close` at
any time, from any number of places, and nothing that opens a connection. -/

namespace EchoStream.Plugins.Reconnect
open Foundation.Run
open Core.Lifecycle

/-- Whether the address can be parsed is all that is said of it. -/
structure ReconnectPlugin where
  validAddr : Bool
  maxRetries : Nat

inductive Retry where
  | checking (attempt : Nat)
  | connecting (attempt : Nat)
  | holding
  | sleeping (attempt : Nat)
  | done
deriving DecidableEq

/-- A client with the tasks of the plugin, and whether a call of `close` has returned. -/
structure Plugged where
  client : Client
  retries : List Retry
  returned : Bool

def Plugged.init (more : Nat) : Plugged := ⟨.init more, [], false⟩

inductive Label where
  | close (i : Nat)
  | advance (i : Nat)
  | lose (k : Nat)
  | leave (k : Nat)
  | notify (k : Nat)
  | check (r : Nat)
  | attempt (r : Nat) (ok : Bool)
  | wake (r : Nat)
  | install (r : Nat) (i : Nat)

def Plugged.setRetry (s : Plugged) (r : Nat) (retry : Retry) : Plugged :=
  { s with retries := s.retries.set r retry }

def advance (s : Plugged) (i : Nat) : Option Plugged :=
  (Core.Lifecycle.advance s.client i).map (fun client =>
    { s with client, returned := s.returned || s.client.callers i = .shutting [] })

/-- Where the callbacks fire, that of the plugin starts its task. -/
def notify (s : Plugged) (k : Nat) : Option Plugged :=
  (Core.Lifecycle.notify s.client k).map (fun client =>
    { s with client, retries := if client.fired = s.client.fired then s.retries else s.retries ++ [.checking 1] })

/-- The task gives up past the last attempt, on a closed client and on an invalid address. -/
def check (plugin : ReconnectPlugin) (s : Plugged) (r : Nat) : Option Plugged :=
  match s.retries[r]? with
  | some (.checking attempt) =>
      if attempt ≤ plugin.maxRetries ∧ s.client.closed = false ∧ plugin.validAddr then
        some (s.setRetry r (.connecting attempt))
      else some (s.setRetry r .done)
  | _ => none

def attempt (s : Plugged) (r : Nat) (ok : Bool) : Option Plugged :=
  match s.retries[r]? with
  | some (.connecting attempt) => some (s.setRetry r (if ok then .holding else .sleeping attempt))
  | _ => none

def wake (s : Plugged) (r : Nat) : Option Plugged :=
  match s.retries[r]? with
  | some (.sleeping attempt) => some (s.setRetry r (.checking (attempt + 1)))
  | _ => none

/-- With a connection in hand the task calls `reconnect` and is done. -/
def install (s : Plugged) (r i : Nat) : Option Plugged :=
  match s.retries[r]? with
  | some .holding => (reconnect s.client i).map (fun client => { s.setRetry r .done with client })
  | _ => none

def step (plugin : ReconnectPlugin) : Step Plugged Label
  | s, .close i => (close s.client i).map (fun client => { s with client })
  | s, .advance i => advance s i
  | s, .lose k => (lose s.client k).map (fun client => { s with client })
  | s, .leave k => (leave s.client k).map (fun client => { s with client })
  | s, .notify k => notify s k
  | s, .check r => check plugin s r
  | s, .attempt r ok => attempt s r ok
  | s, .wake r => wake s r
  | s, .install r i => install s r i

/-- Once a call of `close` has returned the client is closed and not connected. -/
def Settled (s : Plugged) : Prop :=
  s.returned = true → s.client.closed = true ∧ s.client.connected = false

/-- A call of `reconnect` that will still set the flag `connected`. -/
def Installing : Call → Prop
  | .reopened => True
  | .retiring .. => True
  | _ => False

/-- `close` starts when no task is about to connect the client, and no task hands
a connection to a client that has been closed. -/
def Careful (s : Plugged) : Label → Prop
  | .close _ => ∀ i, ¬ Installing (s.client.callers i)
  | .install .. => s.client.closed = false
  | _ => True

/-- A call of `close` that has cleared the flag `connected`. -/
def Lowered : Call → Prop
  | .lowered => True
  | .shutting _ => True
  | _ => False

/-- A closed client is one that nobody is about to connect, and stays closed and,
once `close` has cleared the flag, disconnected. -/
structure Shut (s : Plugged) : Prop where
  alone : s.client.closed = true → ∀ i, ¬ Installing (s.client.callers i)
  closed : (∃ i, (s.client.callers i).Closes) ∨ s.returned = true → s.client.closed = true
  off : (∃ i, Lowered (s.client.callers i)) ∨ s.returned = true → s.client.connected = false

variable {s t : Plugged} {plugin : ReconnectPlugin} {c d : Client} {i k r : Nat}

theorem init_shut (more : Nat) : Shut (.init more) := by
  refine ⟨fun closed => ?_, fun closes => ?_, fun lowered => ?_⟩
  · cases closed
  · rcases closes with ⟨_, closes⟩ | returned
    · cases closes
    · cases returned
  · rcases lowered with ⟨_, lowered⟩ | returned
    · cases lowered
    · cases returned

theorem Lowered.closes {call : Call} (lowered : Lowered call) : call.Closes := by
  cases call <;> trivial

/-- A step of a call neither begins one nor opens the client. It connects the
client only for a call that was to do so. -/
theorem advance_flags (stepped : Core.Lifecycle.advance c i = some d) :
    d.closed = c.closed ∧ (d.connected = true → c.connected = true ∨ Installing (c.callers i)) ∧
      ∃ call, d.callers = Function.update c.callers i call ∧ (Installing call → Installing (c.callers i)) ∧
        (call.Closes → (c.callers i).Closes) ∧
        (Lowered call → d.connected = false ∨ Lowered (c.callers i)) := by
  unfold Core.Lifecycle.advance at stepped
  split at stepped <;> cases stepped <;> rename_i here <;> rw [here]
  · exact ⟨rfl, Or.inl, _, rfl, id, False.elim, False.elim⟩
  · exact ⟨rfl, Or.inl, _, rfl, id, False.elim, False.elim⟩
  · exact ⟨rfl, fun _ => Or.inr trivial, _, rfl, fun _ => trivial, False.elim, False.elim⟩
  · exact ⟨rfl, Or.inl, _, rfl, False.elim, False.elim, False.elim⟩
  · exact ⟨rfl, fun on => Bool.noConfusion on, _, rfl, False.elim, fun _ => trivial, fun _ => Or.inl rfl⟩
  · exact ⟨rfl, Or.inl, _, rfl, False.elim, fun _ => trivial, fun _ => Or.inr trivial⟩
  · exact ⟨rfl, Or.inl, _, rfl, False.elim, fun _ => trivial, fun _ => Or.inr trivial⟩
  · exact ⟨rfl, Or.inl, _, rfl, False.elim, False.elim, False.elim⟩

theorem Shut.of_callers (shut : Shut s) (closed : t.client.closed = s.client.closed)
    (callers : t.client.callers = s.client.callers) (returned : t.returned = s.returned)
    (connected : t.client.connected = true → s.client.connected = true) : Shut t := by
  refine ⟨fun is_closed => ?_, fun closes => ?_, fun lowered => ?_⟩
  · rw [callers]
    exact shut.alone (closed ▸ is_closed)
  · rw [callers, returned] at closes
    rw [closed]
    exact shut.closed closes
  · rw [callers, returned] at lowered
    have off := shut.off lowered
    cases on : t.client.connected with
    | false => rfl
    | true =>
      rw [connected on] at off
      cases off

theorem close_shut (shut : Shut s) (careful : Careful s (.close i)) (closed : close s.client i = some d) :
    Shut { s with client := d } := by
  unfold close at closed
  split at closed
  · cases closed
    refine ⟨fun _ j => ?_, fun _ => rfl, fun lowered => ?_⟩
    · by_cases here : j = i
      · rw [here, Client.setCaller_self]
        exact id
      · rw [Client.setCaller_other _ _ here]
        exact careful j
    · apply shut.off
      rcases lowered with ⟨j, lowered⟩ | returned
      · by_cases here : j = i
        · rw [here, Client.setCaller_self] at lowered
          cases lowered
        · rw [Client.setCaller_other _ _ here] at lowered
          exact Or.inl ⟨j, lowered⟩
      · exact Or.inr returned
  · cases closed

/-- A task that finds the client open finds no call of `close` under way. -/
theorem reconnect_shut (shut : Shut s) (opened : s.client.closed = false)
    (called : reconnect s.client i = some d) {retries : List Retry} :
    Shut { s with client := d, retries } := by
  have none_closes : ∀ {P : Prop}, (∃ j, (s.client.callers j).Closes) ∨ s.returned = true → P := by
    intro P closes
    rw [shut.closed closes] at opened
    cases opened
  unfold reconnect at called
  split at called
  · cases called
    refine ⟨fun is_closed => ?_, fun closes => ?_, fun lowered => ?_⟩
    · cases is_closed
    · apply none_closes
      rcases closes with ⟨j, closes⟩ | returned
      · exact Or.inl (Client.closing_setCaller (fun k closes => ⟨k, closes⟩) False.elim j closes)
      · exact Or.inr returned
    · apply none_closes
      rcases lowered with ⟨j, lowered⟩ | returned
      · exact Or.inl (Client.closing_setCaller (fun k closes => ⟨k, closes⟩) False.elim j lowered.closes)
      · exact Or.inr returned
  · cases called

theorem advance_shut (shut : Shut s) (stepped : advance s i = some t) : Shut t := by
  unfold advance at stepped
  rw [Option.map_eq_some_iff] at stepped
  obtain ⟨d, advanced, same⟩ := stepped
  obtain ⟨closed, connects, call, callers, installing, closes, lowered⟩ := advance_flags advanced
  have ends : s.client.callers i = .shutting [] → Lowered (s.client.callers i) := by
    intro here
    rw [here]
    trivial
  have stays_off : (∃ j, Lowered (s.client.callers j)) ∨ s.returned = true → d.connected = false := by
    intro past
    have was_off := shut.off past
    have was_closed : s.client.closed = true :=
      shut.closed (past.imp (fun ⟨j, lowered⟩ => ⟨j, lowered.closes⟩) id)
    cases on : d.connected with
    | false => rfl
    | true =>
      rcases connects on with before | installs
      · rw [before] at was_off
        cases was_off
      · exact absurd installs (shut.alone was_closed i)
  subst same
  refine ⟨fun is_closed j => ?_, fun closing => ?_, fun past => ?_⟩
  · change d.closed = true at is_closed
    rw [closed] at is_closed
    change ¬ Installing (d.callers j)
    rw [callers]
    by_cases here : j = i
    · rw [here, Function.update_self]
      exact fun installs => shut.alone is_closed i (installing installs)
    · rw [Function.update_of_ne here]
      exact shut.alone is_closed j
  · change d.closed = true
    rw [closed]
    apply shut.closed
    rcases closing with ⟨j, now⟩ | returned
    · change (d.callers j).Closes at now
      rw [callers] at now
      by_cases here : j = i
      · rw [here, Function.update_self] at now
        exact Or.inl ⟨i, closes now⟩
      · rw [Function.update_of_ne here] at now
        exact Or.inl ⟨j, now⟩
    · rw [Bool.or_eq_true, decide_eq_true_eq] at returned
      exact returned.symm.imp (fun here => ⟨i, (ends here).closes⟩) id
  · rcases past with ⟨j, now⟩ | returned
    · change Lowered (d.callers j) at now
      rw [callers] at now
      by_cases here : j = i
      · rw [here, Function.update_self] at now
        rcases lowered now with off | before
        · exact off
        · exact stays_off (Or.inl ⟨i, before⟩)
      · rw [Function.update_of_ne here] at now
        exact stays_off (Or.inl ⟨j, now⟩)
    · rw [Bool.or_eq_true, decide_eq_true_eq] at returned
      exact stays_off (returned.symm.imp (fun here => ⟨i, ends here⟩) id)

theorem loop_flags (stepped : lose c k = some d ∨ leave c k = some d ∨ Core.Lifecycle.notify c k = some d) :
    d.closed = c.closed ∧ d.callers = c.callers ∧ (d.connected = true → c.connected = true) := by
  rcases stepped with lost | left | notified
  · unfold lose at lost
    split at lost <;> cases lost
    exact ⟨rfl, rfl, id⟩
  · unfold leave at left
    split at left
    · split at left <;> cases left
      · exact ⟨rfl, rfl, fun on => Bool.noConfusion on⟩
      · exact ⟨rfl, rfl, id⟩
    · cases left
  · unfold Core.Lifecycle.notify at notified
    split at notified
    · split at notified <;> cases notified <;> exact ⟨rfl, rfl, id⟩
    · cases notified

theorem step_shut (s : Plugged) (label : Label) (t : Plugged) (shut : Shut s) (careful : Careful s label)
    (stepped : step plugin s label = some t) : Shut t := by
  have tasks : ∀ {r : Nat} {retry : Retry}, Shut (s.setRetry r retry) :=
    shut.of_callers rfl rfl rfl id
  cases label with
  | close i =>
    obtain ⟨d, closed, same⟩ := Option.map_eq_some_iff.mp stepped
    subst same
    exact close_shut shut careful closed
  | advance i => exact advance_shut shut stepped
  | lose k =>
    obtain ⟨d, lost, same⟩ := Option.map_eq_some_iff.mp stepped
    obtain ⟨closed, callers, connected⟩ := loop_flags (Or.inl lost)
    subst same
    exact shut.of_callers closed callers rfl connected
  | leave k =>
    obtain ⟨d, left, same⟩ := Option.map_eq_some_iff.mp stepped
    obtain ⟨closed, callers, connected⟩ := loop_flags (Or.inr (Or.inl left))
    subst same
    exact shut.of_callers closed callers rfl connected
  | notify k =>
    obtain ⟨d, notified, same⟩ := Option.map_eq_some_iff.mp stepped
    obtain ⟨closed, callers, connected⟩ := loop_flags (Or.inr (Or.inr notified))
    subst same
    exact shut.of_callers closed callers rfl connected
  | check r =>
    simp only [step, check] at stepped
    split at stepped
    · split at stepped <;> cases stepped <;> exact tasks
    · cases stepped
  | attempt r ok =>
    simp only [step, attempt] at stepped
    split at stepped <;> cases stepped
    exact tasks
  | wake r =>
    simp only [step, wake] at stepped
    split at stepped <;> cases stepped
    exact tasks
  | install r i =>
    simp only [step, install] at stepped
    split at stepped
    · obtain ⟨d, called, same⟩ := Option.map_eq_some_iff.mp stepped
      subst same
      exact reconnect_shut shut careful called
    · cases stepped

theorem Shut.settled (shut : Shut s) : Settled s :=
  fun returned => ⟨shut.closed (Or.inr returned), shut.off (Or.inr returned)⟩

/-- In a run in which no task is about to connect the client when `close` starts,
and none hands it a connection afterwards, a closed client stays closed. -/
theorem close_is_final (plugin : ReconnectPlugin) (more : Nat) {labels : List Label}
    (careful : Guarded (step plugin) Careful (.init more) labels) :
    Always (step plugin) Settled (.init more) labels :=
  (guarded_always step_shut (init_shut more) careful).mono (fun _ shut => shut.settled)

theorem close_is_final_lost :
    Always (step ⟨true, 10⟩) Settled (.init 0)
      [.lose 0, .leave 0, .notify 0, .check 0, .attempt 0 true, .install 0 0, .advance 0, .advance 0, .advance 0,
        .advance 0, .close 0, .advance 0, .advance 0, .advance 0, .advance 0] := by
  apply close_is_final
  refine .cons rfl trivial (.cons rfl trivial (.cons rfl trivial (.cons rfl trivial (.cons rfl trivial
    (.cons rfl rfl (.cons rfl trivial (.cons rfl trivial (.cons rfl trivial (.cons rfl trivial
    (.cons rfl ?_ (.cons rfl trivial (.cons rfl trivial (.cons rfl trivial (.cons rfl trivial trivial))))))))))))))
  intro i
  cases i <;> exact id

/-- The task has checked that the client is open and is connecting while the
client is closed; then its attempt succeeds. -/
private def overlooked : List Label :=
  [.lose 0, .leave 0, .notify 0, .check 0, .close 0, .advance 0, .advance 0, .advance 0, .advance 0,
    .attempt 0 true, .install 0 1]

private def afterOverlooked : Plugged := (run (step ⟨true, 10⟩) (.init 0) overlooked).getD (.init 0)

theorem reconnect_reopens : ¬ Always (step ⟨true, 10⟩) Settled (.init 0) overlooked := by
  intro always
  have ran : run (step ⟨true, 10⟩) (.init 0) overlooked = some afterOverlooked := rfl
  have closed : afterOverlooked.client.closed = true := (always.last ran rfl).1
  cases closed

end EchoStream.Plugins.Reconnect
