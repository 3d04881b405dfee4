import EchoStream.Core.Lifecycle

/-! The heartbeat plugin of the client. Its callback starts a task whenever a connection
is there. Each round of a task looks up the first session of the pool anew, so a task that
sleeps while its connection is lost and another one is installed goes on with that. -/

namespace EchoStream.Plugins.HeartbeatClient
open Foundation.Run
open Core.Lifecycle

inductive Beat where
  | looking
  | emitting (session : Nat)
  | sleeping
  | checking
  | done
deriving DecidableEq

/-- A client with the tasks of the plugin. `called` are the sessions whose loop has run
the callbacks it begins with. -/
structure Plugged where
  client : Client
  beats : List Beat
  called : List Nat

def Plugged.init (more : Nat) : Plugged := ⟨.init more, [], []⟩

inductive Label where
  | client (label : Core.Lifecycle.Label)
  | connect (k : Nat)
  | look (b : Nat)
  | emit (b : Nat) (ok : Bool)
  | wake (b : Nat)
  | check (b : Nat)

def Plugged.setBeat (s : Plugged) (b : Nat) (beat : Beat) : Plugged := { s with beats := s.beats.set b beat }

/-- The loop of a primary session begins with the callbacks. -/
def Pending (s : Plugged) (k : Nat) : Prop := (s.client.session k).primary = true ∧ k ∉ s.called

instance (s : Plugged) (k : Nat) : Decidable (Pending s k) := inferInstanceAs (Decidable (_ ∧ _))

def clientStep (s : Plugged) (label : Core.Lifecycle.Label) : Option Plugged :=
  match label with
  | .leave k => if Pending s k then none else (leave s.client k).map (fun client => { s with client })
  | label => (Core.Lifecycle.step s.client label).map (fun client => { s with client })

/-- A client that is not connected by then calls nobody. -/
def connect (s : Plugged) (k : Nat) : Option Plugged :=
  if (s.client.session k).loop = .running ∧ Pending s k then
    some { s with
      beats := if s.client.connected then s.beats ++ [.looking] else s.beats
      called := s.called ++ [k] }
  else none

def look (s : Plugged) (b : Nat) : Option Plugged :=
  match s.beats[b]? with
  | some .looking => s.client.sessions.head?.map (fun k => s.setBeat b (.emitting k))
  | _ => none

/-- Nothing can be sent on a connection that is down. -/
def emit (s : Plugged) (b : Nat) (ok : Bool) : Option Plugged :=
  match s.beats[b]? with
  | some (.emitting k) =>
      if ok then
        if (s.client.session k).conn = .up then some (s.setBeat b .sleeping) else none
      else some (s.setBeat b .done)
  | _ => none

def wake (s : Plugged) (b : Nat) : Option Plugged :=
  match s.beats[b]? with
  | some .sleeping => some (s.setBeat b .checking)
  | _ => none

def check (s : Plugged) (b : Nat) : Option Plugged :=
  match s.beats[b]? with
  | some .checking => some (s.setBeat b (if s.client.closed then .done else .looking))
  | _ => none

def step : Step Plugged Label
  | s, .client label => clientStep s label
  | s, .connect k => connect s k
  | s, .look b => look s b
  | s, .emit b ok => emit s b ok
  | s, .wake b => wake s b
  | s, .check b => check s b

def alive (s : Plugged) : Nat := s.beats.countP (· ≠ .done)

def Single (s : Plugged) : Prop := alive s ≤ 1

/-- No task is alive when the callbacks of a connection start another one. -/
def Exited (s : Plugged) : Label → Prop
  | .connect _ => s.client.connected = true → alive s = 0
  | _ => True

/-- A session is installed when all tasks have ended and no callbacks are outstanding. -/
def Careful (s : Plugged) : Label → Prop
  | .client (.advance i) => s.client.callers i = .reopened → alive s = 0 ∧ ∀ k, ¬ Pending s k
  | _ => True

variable {s t : Plugged} {b k : Nat} {beat : Beat}

theorem alive_setBeat (there : s.beats[b]? = some beat) (lives : beat ≠ .done) (next : Beat) :
    alive (s.setBeat b next) ≤ alive s := by
  obtain ⟨inside, same⟩ := List.getElem?_eq_some_iff.1 there
  have counted : 0 < s.beats.countP (· ≠ .done) :=
    List.countP_pos_iff.2 ⟨beat, List.mem_of_getElem? there, decide_eq_true lives⟩
  rw [alive, alive, Plugged.setBeat, List.countP_set inside, same, if_pos (decide_eq_true lives)]
  split <;> omega

theorem alive_pos (there : s.beats[b]? = some beat) (lives : beat ≠ .done) : 0 < alive s :=
  List.countP_pos_iff.2 ⟨beat, List.mem_of_getElem? there, decide_eq_true lives⟩

/-- What the steps of a task have in common. -/
structure Goes (s t : Plugged) : Prop where
  lives : 0 < alive s
  fewer : alive t ≤ alive s
  client : t.client = s.client
  called : t.called = s.called

theorem goes_setBeat (there : s.beats[b]? = some beat) (lives : beat ≠ .done) (next : Beat) : Goes s (s.setBeat b next) :=
  ⟨alive_pos there lives, alive_setBeat there lives next, rfl, rfl⟩

theorem look_goes (stepped : look s b = some t) : Goes s t := by
  unfold look at stepped
  split at stepped
  · rename_i there
    obtain ⟨k, -, rfl⟩ := Option.map_eq_some_iff.1 stepped
    exact goes_setBeat there (by decide) _
  · cases stepped

theorem emit_goes {ok : Bool} (stepped : emit s b ok = some t) : Goes s t := by
  unfold emit at stepped
  split at stepped
  · rename_i k there
    split at stepped
    · split at stepped
      · cases stepped
        exact goes_setBeat there (by rintro ⟨⟩) _
      · cases stepped
    · cases stepped
      exact goes_setBeat there (by rintro ⟨⟩) _
  · cases stepped

theorem wake_goes (stepped : wake s b = some t) : Goes s t := by
  unfold wake at stepped
  split at stepped
  · rename_i there
    cases stepped
    exact goes_setBeat there (by decide) _
  · cases stepped

theorem check_goes (stepped : check s b = some t) : Goes s t := by
  unfold check at stepped
  split at stepped
  · rename_i there
    cases stepped
    exact goes_setBeat there (by decide) _
  · cases stepped

theorem clientStep_some {label : Core.Lifecycle.Label} (stepped : clientStep s label = some t) :
    ∃ client, Core.Lifecycle.step s.client label = some client ∧ t = { s with client } := by
  cases label with
  | leave k =>
    rw [clientStep] at stepped
    split at stepped
    · cases stepped
    · obtain ⟨client, left, rfl⟩ := Option.map_eq_some_iff.1 stepped
      exact ⟨client, left, rfl⟩
  | _ =>
    obtain ⟨client, changed, rfl⟩ := Option.map_eq_some_iff.1 stepped
    exact ⟨client, changed, rfl⟩

theorem connect_some (stepped : connect s k = some t) :
    Pending s k ∧ alive t = (if s.client.connected then alive s + 1 else alive s) ∧ t.client = s.client ∧
      t.called = s.called ++ [k] := by
  unfold connect at stepped
  split at stepped
  · rename_i runs
    cases stepped
    refine ⟨runs.2, ?_, rfl, rfl⟩
    rw [alive, alive]
    split
    · rw [List.countP_append]
      rfl
    · rfl
  · cases stepped

/-- What a step does to the tasks: those there are go on or end, or the callbacks of a
connection run. -/
theorem step_cases {label : Label} (stepped : step s label = some t) :
    Goes s t ∨
    (∃ inner client, label = .client inner ∧ Core.Lifecycle.step s.client inner = some client ∧ t = { s with client }) ∨
    (∃ k, label = .connect k ∧ Pending s k ∧ alive t = (if s.client.connected then alive s + 1 else alive s) ∧
      t.client = s.client ∧ t.called = s.called ++ [k]) := by
  cases label with
  | client inner =>
    obtain ⟨client, changed, same⟩ := clientStep_some stepped
    exact Or.inr (Or.inl ⟨inner, client, rfl, changed, same⟩)
  | connect k => exact Or.inr (Or.inr ⟨k, rfl, connect_some stepped⟩)
  | look b => exact Or.inl (look_goes stepped)
  | emit b ok => exact Or.inl (emit_goes stepped)
  | wake b => exact Or.inl (wake_goes stepped)
  | check b => exact Or.inl (check_goes stepped)

theorem step_single (s : Plugged) (label : Label) (t : Plugged) (single : Single s) (exited : Exited s label)
    (stepped : step s label = some t) : Single t := by
  rcases step_cases stepped with goes | ⟨inner, client, -, -, rfl⟩ | ⟨k, rfl, -, count, -, -⟩
  · exact Nat.le_trans goes.fewer single
  · exact single
  · rw [Single, count]
    split
    · rename_i connected
      have none_alive : alive s = 0 := exited connected
      omega
    · exact single

theorem exited_of_single (s : Plugged) (label : Label) (t : Plugged) (stepped : step s label = some t) (single : Single t) :
    Exited s label := by
  cases label with
  | connect k =>
    intro connected
    obtain ⟨-, count, -, -⟩ := connect_some stepped
    rw [Single, count, if_pos connected] at single
    omega
  | _ => trivial

/-- At most one task is alive or still to be started. -/
structure Sound (s : Plugged) : Prop where
  single : Single s
  one : ∀ j k, Pending s j → Pending s k → j = k
  none : ∀ k, Pending s k → alive s = 0

theorem init_sound (more : Nat) : Sound (.init more) := by
  have first : ∀ k, Pending (.init more) k → k = 0 := fun k pending => beq_iff_eq.1 pending.1
  exact ⟨Nat.zero_le 1, fun j k here there => (first j here).trans (first k there).symm, fun _ _ => rfl⟩

theorem step_sound (s : Plugged) (label : Label) (t : Plugged) (sound : Sound s) (careful : Careful s label)
    (stepped : step s label = some t) : Sound t := by
  rcases step_cases stepped with goes | ⟨inner, client, rfl, changed, rfl⟩ | ⟨k, rfl, pending, count, same, called⟩
  · have nobody : ∀ k, ¬ Pending t k := by
      intro k pending
      have before : Pending s k := by
        rw [Pending, goes.client, goes.called] at pending
        exact pending
      exact absurd goes.lives (Nat.not_lt.2 (Nat.le_of_eq (sound.none k before)))
    exact ⟨Nat.le_trans goes.fewer sound.single, fun j _ pending => absurd pending (nobody j),
      fun k pending => absurd pending (nobody k)⟩
  · rcases step_pool changed with trims | ⟨i, rfl, here, renews⟩
    · have before : ∀ k, Pending { s with client } k → Pending s k := fun k pending => ⟨trims.primary k ▸ pending.1, pending.2⟩
      exact ⟨sound.single, fun j k here there => sound.one j k (before j here) (before k there),
        fun k pending => sound.none k (before k pending)⟩
    · -- the callbacks of the new session are the only ones that are left
      obtain ⟨nobody, none⟩ := careful here
      have new : ∀ k, Pending { s with client } k → k = s.client.count := by
        intro k pending
        by_contra differ
        exact none k ⟨renews.primary k differ ▸ pending.1, pending.2⟩
      exact ⟨sound.single, fun j k here there => (new j here).trans (new k there).symm, fun _ _ => nobody⟩
  · have nobody : ∀ j, ¬ Pending t j := by
      intro j other
      rw [Pending, same, called] at other
      have before : Pending s j := ⟨other.1, fun member => other.2 (List.mem_append_left _ member)⟩
      rw [sound.one j k before pending] at other
      exact other.2 (List.mem_append_right _ (List.mem_singleton_self k))
    refine ⟨?_, fun j _ other => absurd other (nobody j), fun j other => absurd other (nobody j)⟩
    rw [Single, count, sound.none k pending]
    split <;> omega

/-- No more than one task is ever alive just when the callbacks of a connection run after
the tasks of the earlier ones have ended. That is so where each session is installed after
the end of all tasks and with no callbacks outstanding. -/
theorem single_iff_exited (more : Nat) (labels : List Label) :
    (Always step Single (.init more) labels ↔ Guarded step Exited (.init more) labels) ∧
      (Guarded step Careful (.init more) labels → Always step Single (.init more) labels) := by
  constructor
  · exact always_iff_guarded (fun _ _ _ (_ : True) _ => trivial) (fun s label t _ => step_single s label t)
      (fun s label t _ _ stepped single => exited_of_single s label t stepped single) labels trivial (Nat.zero_le 1)
  · intro careful
    exact (guarded_always step_sound (init_sound more) careful).mono (fun _ sound => sound.single)

private def exited : List Label :=
  [.connect 0, .look 0, .emit 0 true, .client (.lose 0), .client (.leave 0), .client (.notify 0), .wake 0, .check 0, .look 0,
    .emit 0 false, .client (.reconnect 0), .client (.advance 0), .client (.advance 0), .client (.advance 0), .client (.advance 0),
    .connect 1]

theorem exited_single : Always step Single (.init 0) exited := by
  apply (single_iff_exited 0 exited).2
  refine .cons rfl trivial (.cons rfl trivial (.cons rfl trivial (.cons rfl trivial (.cons rfl trivial (.cons rfl trivial
    (.cons rfl trivial (.cons rfl trivial (.cons rfl trivial (.cons rfl trivial (.cons rfl trivial (.cons rfl ?_
    (.cons rfl ?_ (.cons rfl ?_ (.cons rfl ?_ (.cons rfl trivial trivial)))))))))))))))
  · intro _
    refine ⟨rfl, ?_⟩
    rintro k ⟨primary, uncalled⟩
    cases k with
    | zero => exact uncalled (List.mem_singleton_self 0)
    | succ k => cases primary
  · rintro ⟨⟩
  · rintro ⟨⟩
  · rintro ⟨⟩

private def slept : List Label :=
  [.connect 0, .look 0, .emit 0 true, .client (.lose 0), .client (.leave 0), .client (.notify 0), .client (.reconnect 0),
    .client (.advance 0), .client (.advance 0), .client (.advance 0), .client (.advance 0), .connect 1, .wake 0, .check 0,
    .look 0, .emit 0 true, .look 1, .emit 1 true]

/-- Both tasks have sent on the new connection and sleep. -/
theorem slept_two : ¬ ∀ labels, Always step Single (.init 0) labels := by
  intro always
  have ran : (run step (.init 0) slept).map Plugged.beats = some [.sleeping, .sleeping] := rfl
  obtain ⟨last, ran, beats⟩ := Option.map_eq_some_iff.1 ran
  have single := (always slept).last ran
  rw [Single, alive, beats] at single
  exact absurd single (by decide)

end EchoStream.Plugins.HeartbeatClient
