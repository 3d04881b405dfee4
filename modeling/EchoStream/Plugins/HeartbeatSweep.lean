import EchoStream.Plugins.Heartbeat

/-! What the sweep of the heartbeat plugin is there for. A pass reads the clock, takes the
sessions there are, and looks at one after the other. Those with an old timestamp are gone
when it is done, and no session goes without being closed, whatever comes in between. -/

namespace EchoStream.Plugins.HeartbeatSweep
open Foundation.Run
open Proto.Messages
open Heartbeat

/-- The reading of the clock by which a pass goes over the sessions. -/
def reading : Sweep → Option Instant
  | .scanning now _ => some now
  | .closing now _ _ => some now
  | .removing now _ _ => some now
  | _ => none

/-- The pass is under way, and has the session still to look at or to remove if it is registered. -/
structure Passing (j k : Nat) (now : Instant) (s : Server) : Prop where
  running : reading (s.sweeps j) = some now
  known : k < s.count
  held : k ∈ s.sessions → k ∈ (s.sweeps j).held

variable {plugin : HeartbeatServerPlugin} {s t : Server} {i j k : Nat} {now : Instant}

theorem Passing.beside (passing : Passing j k now s) (sweeps : t.sweeps j = s.sweeps j) (count : s.count ≤ t.count)
    (sessions : k ∈ t.sessions → k ∈ s.sessions) : Passing j k now t := by
  refine ⟨?_, Nat.lt_of_lt_of_le passing.known count, fun member => ?_⟩
  · rw [sweeps]
    exact passing.running
  · rw [sweeps]
    exact passing.held (sessions member)

theorem setSweep_other (s : Server) (sweep : Sweep) (other : i ≠ j) : (s.setSweep i sweep).sweeps j = s.sweeps j :=
  Function.update_of_ne (Ne.symm other) ..

theorem setSweep_self (s : Server) (sweep : Sweep) : (s.setSweep j sweep).sweeps j = sweep := Function.update_self ..

theorem Passing.otherSweep (passing : Passing j k now s) (sweep : Sweep) (other : i ≠ j) :
    Passing j k now (s.setSweep i sweep) :=
  passing.beside (setSweep_other s sweep other) (Nat.le_refl _) id

theorem Passing.advance (passing : Passing j k now s) {sweep : Sweep} (running : reading sweep = some now)
    (held : k ∈ s.sessions → k ∈ sweep.held) : Passing j k now (s.setSweep j sweep) := by
  refine ⟨?_, passing.known, fun member => ?_⟩
  · rw [setSweep_self]
    exact running
  · rw [setSweep_self]
    exact held member

theorem examine_passing (passing : Passing j k now s) (silent : stale plugin.timeout now (s.lastSeen k) = true)
    (stepped : examine plugin s i = some t) : Passing j k now t := by
  unfold examine at stepped
  split at stepped
  · rename_i since head todo sweep
    cases stepped
    by_cases same : i = j
    · rw [same] at sweep ⊢
      have running := passing.running
      have held := passing.held
      rw [sweep] at running held
      cases running
      split
      · exact passing.advance rfl held
      · rename_i fresh
        refine passing.advance rfl fun member => ?_
        rcases List.mem_cons.1 (held member) with rfl | later
        · exact absurd silent fresh
        · exact later
    · exact passing.otherSweep _ same
  · cases stepped

theorem close_passing (passing : Passing j k now s) (stepped : close s i = some t) : Passing j k now t := by
  unfold close at stepped
  split at stepped
  · rename_i since head todo sweep
    cases stepped
    have moved : Passing j k now (s.setSweep i (.removing since head todo)) := by
      by_cases same : i = j
      · rw [same] at sweep ⊢
        have running := passing.running
        have held := passing.held
        rw [sweep] at running held
        cases running
        exact passing.advance rfl held
      · exact passing.otherSweep _ same
    exact moved.beside rfl (Nat.le_refl _) id
  · cases stepped

theorem unregister_passing (passing : Passing j k now s) (stepped : unregister s i = some t) : Passing j k now t := by
  unfold unregister at stepped
  split at stepped
  · rename_i since head todo sweep
    cases stepped
    by_cases same : i = j
    · rw [same] at sweep ⊢
      have running := passing.running
      have held := passing.held
      rw [sweep] at running held
      cases running
      refine ⟨?_, passing.known, fun member => ?_⟩
      · rw [Server.note, setSweep_self]
        rfl
      · obtain ⟨registered, kept⟩ := List.mem_filter.1 member
        rw [Server.note, setSweep_self]
        rcases List.mem_cons.1 (held registered) with rfl | later
        · exact absurd rfl (bne_iff_ne.1 kept)
        · exact later
    · exact (passing.otherSweep (.scanning since todo) same).beside rfl (Nat.le_refl _) (fun member => List.mem_of_mem_filter member)
  · cases stepped

/-- While the timestamp of the session is old, a step of whatever it may be keeps it in hand. -/
theorem step_passing {label : Label} (passing : Passing j k now s) (silent : stale plugin.timeout now (s.lastSeen k) = true)
    (unfinished : label ≠ .rest j) (stepped : step plugin s label = some t) : Passing j k now t := by
  cases label with
  | tick passed =>
    cases stepped
    exact passing.beside rfl (Nat.le_refl _) id
  | accept =>
    change accept s = some t at stepped
    unfold accept at stepped
    split at stepped
    · cases stepped
      refine passing.beside rfl (Nat.le_succ _) fun member => ?_
      rcases List.mem_cons.1 member with new | old
      · exact absurd new (Nat.ne_of_lt passing.known)
      · exact old
    · cases stepped
  | stampConnect =>
    change stampConnect s = some t at stepped
    unfold stampConnect at stepped
    split at stepped <;> cases stepped
    exact passing.beside rfl (Nat.le_refl _) id
  | recordConnect =>
    change recordConnect s = some t at stepped
    unfold recordConnect at stepped
    split at stepped <;> cases stepped
    exact passing.beside rfl (Nat.le_refl _) id
  | spawn =>
    change spawn s = some t at stepped
    unfold spawn at stepped
    split at stepped <;> cases stepped
    exact passing.beside rfl (Nat.le_refl _) id
  | handle other msg =>
    change handle s other msg = some t at stepped
    unfold handle at stepped
    split at stepped
    · split at stepped <;> cases stepped
      · exact passing.beside rfl (Nat.le_refl _) id
      · exact passing
    · cases stepped
  | record stamped =>
    obtain ⟨stamp, -, rfl⟩ := Option.map_eq_some_iff.1 stepped
    exact passing.beside rfl (Nat.le_refl _) id
  | leave other =>
    change leave s other = some t at stepped
    unfold leave at stepped
    split at stepped <;> cases stepped
    exact passing.beside rfl (Nat.le_refl _) (fun member => List.mem_of_mem_filter member)
  | start i =>
    change start plugin s i = some t at stepped
    unfold start at stepped
    split at stepped <;> cases stepped
    rename_i sweep
    refine passing.otherSweep _ fun same => ?_
    have running := passing.running
    rw [← same, sweep] at running
    cases running
  | wake i =>
    change wake s i = some t at stepped
    unfold wake at stepped
    split at stepped
    · rename_i sweep
      split at stepped <;> cases stepped
      refine passing.otherSweep _ fun same => ?_
      have running := passing.running
      rw [← same, sweep] at running
      cases running
    · cases stepped
  | list i order =>
    change list s i order = some t at stepped
    unfold list at stepped
    split at stepped
    · rename_i sweep
      split at stepped <;> cases stepped
      refine passing.otherSweep _ fun same => ?_
      have running := passing.running
      rw [← same, sweep] at running
      cases running
    · cases stepped
  | examine i => exact examine_passing passing silent stepped
  | close i => exact close_passing passing stepped
  | unregister i => exact unregister_passing passing stepped
  | rest i =>
    change rest plugin s i = some t at stepped
    unfold rest at stepped
    split at stepped <;> cases stepped
    exact passing.otherSweep _ fun same => unfinished (congrArg Label.rest same)

theorem list_passing {order : List Nat} (awake : s.sweeps j = .awake now) (known : k < s.count)
    (stepped : list s j order = some t) : Passing j k now t := by
  unfold list at stepped
  rw [awake] at stepped
  dsimp only at stepped
  split at stepped
  · rename_i permuted
    cases stepped
    refine ⟨?_, known, fun member => ?_⟩
    · rw [setSweep_self]
      rfl
    · rw [setSweep_self]
      exact (List.isPerm_iff.1 permuted).mem_iff.2 member
  · cases stepped

/-- The session was closed, or it is registered if it ever was and no sweep is about to remove it. -/
def Accounted (k : Nat) (s : Server) : Prop :=
  (∃ since, .closed k since ∈ s.log) ∨ (k < s.count → k ∈ s.sessions) ∧ ∀ i since todo, s.sweeps i ≠ .removing since k todo

theorem Accounted.beside (accounted : Accounted k s) (log : ∀ happening ∈ s.log, happening ∈ t.log) (sweeps : t.sweeps = s.sweeps)
    (sessions : (k < s.count → k ∈ s.sessions) → k < t.count → k ∈ t.sessions) : Accounted k t := by
  rcases accounted with ⟨since, closed⟩ | ⟨registered, kept⟩
  · exact .inl ⟨since, log _ closed⟩
  · rw [← sweeps] at kept
    exact .inr ⟨sessions registered, kept⟩

theorem Accounted.setSweep (accounted : Accounted k s) {sweep : Sweep} (kept : ∀ since todo, sweep ≠ .removing since k todo) :
    Accounted k (s.setSweep i sweep) := by
  refine accounted.imp id fun ⟨registered, others⟩ => ⟨registered, fun other since todo => ?_⟩
  by_cases same : i = other
  · rw [← same, setSweep_self]
    exact kept since todo
  · rw [setSweep_other s sweep same]
    exact others other since todo

theorem close_accounted (accounted : Accounted k s) (stepped : close s i = some t) : Accounted k t := by
  unfold close at stepped
  split at stepped
  · rename_i since head todo sweep
    cases stepped
    by_cases same : head = k
    · exact .inl ⟨since, List.mem_append_right _ (same ▸ List.mem_singleton_self _)⟩
    · have moved : Accounted k (s.setSweep i (.removing since head todo)) := by
        refine accounted.setSweep fun other rest equal => ?_
        cases equal
        exact same rfl
      exact moved.beside (fun _ known => List.mem_append_left _ known) rfl (fun registered => registered)
  · cases stepped

theorem unregister_accounted (accounted : Accounted k s) (stepped : unregister s i = some t) : Accounted k t := by
  unfold unregister at stepped
  split at stepped
  · rename_i since head todo sweep
    cases stepped
    rcases accounted with ⟨before, closed⟩ | ⟨registered, kept⟩
    · exact .inl ⟨before, List.mem_append_left _ closed⟩
    · have other : k ≠ head := by
        rintro rfl
        exact kept i since todo sweep
      have moved : Accounted k (s.setSweep i (.scanning since todo)) :=
        Accounted.setSweep (.inr ⟨registered, kept⟩) fun _ _ equal => by cases equal
      refine moved.beside (fun _ known => List.mem_append_left _ known) rfl fun registered known => ?_
      exact List.mem_filter.2 ⟨registered known, bne_iff_ne.2 other⟩
  · cases stepped

/-- Only a session's own loop takes it off the list without closing it. -/
theorem step_accounted (s : Server) (label : Label) (t : Server) (accounted : Accounted k s) (stays : label ≠ .leave k)
    (stepped : step plugin s label = some t) : Accounted k t := by
  cases label with
  | tick passed =>
    cases stepped
    exact accounted.beside (fun _ known => known) rfl id
  | accept =>
    change accept s = some t at stepped
    unfold accept at stepped
    split at stepped
    · cases stepped
      refine accounted.beside (fun _ known => List.mem_append_left _ known) rfl fun registered known => ?_
      rcases Nat.lt_succ_iff_lt_or_eq.1 known with old | new
      · exact List.mem_cons_of_mem _ (registered old)
      · exact new ▸ List.mem_cons_self
    · cases stepped
  | stampConnect =>
    change stampConnect s = some t at stepped
    unfold stampConnect at stepped
    split at stepped <;> cases stepped
    exact accounted.beside (fun _ known => known) rfl id
  | recordConnect =>
    change recordConnect s = some t at stepped
    unfold recordConnect at stepped
    split at stepped <;> cases stepped
    exact accounted.beside (fun _ known => known) rfl id
  | spawn =>
    change spawn s = some t at stepped
    unfold spawn at stepped
    split at stepped <;> cases stepped
    exact accounted.beside (fun _ known => known) rfl id
  | handle other msg =>
    change handle s other msg = some t at stepped
    unfold handle at stepped
    split at stepped
    · split at stepped <;> cases stepped
      · exact accounted.beside (fun _ known => List.mem_append_left _ known) rfl id
      · exact accounted
    · cases stepped
  | record stamped =>
    obtain ⟨stamp, -, rfl⟩ := Option.map_eq_some_iff.1 stepped
    exact accounted.beside (fun _ known => known) rfl id
  | leave other =>
    change leave s other = some t at stepped
    unfold leave at stepped
    split at stepped <;> cases stepped
    refine accounted.beside (fun _ known => known) rfl fun registered known => ?_
    exact List.mem_filter.2 ⟨registered known, bne_iff_ne.2 fun same => stays (congrArg Label.leave same.symm)⟩
  | start i =>
    change start plugin s i = some t at stepped
    unfold start at stepped
    split at stepped <;> cases stepped
    exact accounted.setSweep fun _ _ equal => by cases equal
  | wake i =>
    change wake s i = some t at stepped
    unfold wake at stepped
    split at stepped
    · split at stepped <;> cases stepped
      exact accounted.setSweep fun _ _ equal => by cases equal
    · cases stepped
  | list i order =>
    change list s i order = some t at stepped
    unfold list at stepped
    split at stepped
    · split at stepped <;> cases stepped
      exact accounted.setSweep fun _ _ equal => by cases equal
    · cases stepped
  | examine i =>
    change examine plugin s i = some t at stepped
    unfold examine at stepped
    split at stepped
    · cases stepped
      refine accounted.setSweep fun _ _ equal => ?_
      split at equal <;> cases equal
    · cases stepped
  | close i => exact close_accounted accounted stepped
  | unregister i => exact unregister_accounted accounted stepped
  | rest i =>
    change rest plugin s i = some t at stepped
    unfold rest at stepped
    split at stepped <;> cases stepped
    exact accounted.setSweep fun _ _ equal => by cases equal

theorem Passing.within {labels : List Label} (passing : Passing j k now s)
    (silent : Always (step plugin) (fun s => stale plugin.timeout now (s.lastSeen k) = true) s labels)
    (unfinished : .rest j ∉ labels) (ran : run (step plugin) s labels = some t) : Passing j k now t := by
  induction labels generalizing s with
  | nil =>
    cases ran
    exact passing
  | cons label rest ih =>
    obtain ⟨next, stepped, ran⟩ := run_cons_some ran
    obtain ⟨not_label, not_rest⟩ := not_or.1 (fun either => unfinished (List.mem_cons.2 either))
    exact ih (step_passing passing silent.first (Ne.symm not_label) stepped) (silent.2 next stepped) not_rest ran

/-- A pass begins at any time, whatever went on before. Once it is through, every session that
was registered and whose timestamp was too old for it all along is gone, and was closed
unless its own loop had ended. -/
theorem silent_swept {clock : Instant} {before during : List Label} {order : List Nat}
    (began : run (step plugin) (.init clock) before = some s) (awake : s.sweeps j = .awake now) (known : k < s.count)
    (ran : run (step plugin) s (.list j order :: during) = some t) (through : t.sweeps j = .scanning now [])
    (unfinished : .rest j ∉ during)
    (silent : Always (step plugin) (fun s => stale plugin.timeout now (s.lastSeen k) = true) s (.list j order :: during)) :
    k ∉ t.sessions ∧ (.leave k ∉ before ++ during → ∃ since, .closed k since ∈ t.log) := by
  obtain ⟨listed, stepped, later⟩ := run_cons_some ran
  have passed : Passing j k now t := (list_passing awake known stepped).within (silent.2 listed stepped) unfinished later
  have gone : k ∉ t.sessions := by
    intro registered
    have held := passed.held registered
    rw [through] at held
    cases held
  refine ⟨gone, fun stays => ?_⟩
  have whole : run (step plugin) (.init clock) (before ++ .list j order :: during) = some t := by
    rw [run_append, began]
    exact ran
  have all : ∀ label ∈ before ++ .list j order :: during, label ≠ .leave k := by
    rintro label member rfl
    rcases List.mem_append.1 member with early | late
    · exact stays (List.mem_append_left _ early)
    · rcases List.mem_cons.1 late with first | later
      · cases first
      · exact stays (List.mem_append_right _ later)
  have fresh : Accounted k (.init clock) := .inr ⟨fun known => absurd known (Nat.not_lt_zero k), fun _ _ _ equal => by cases equal⟩
  rcases run_invariant_where step_accounted fresh all whole with closed | ⟨registered, -⟩
  · exact closed
  · exact absurd (registered passed.known) gone

private def twoSessions : List Label :=
  [.start 0, .accept, .stampConnect, .recordConnect, .spawn, .accept, .stampConnect, .recordConnect, .spawn, .tick 20,
    .handle 1 (.event ⟨1, heartbeatEvent, []⟩), .record 0, .wake 0]

private def onePass : List Label := [.examine 0, .close 0, .tick 1, .unregister 0, .examine 0]

theorem silent_swept_first :
    ∃ s t, run (step (.new 12)) (.init 0) twoSessions = some s ∧ run (step (.new 12)) s (.list 0 [0, 1] :: onePass) = some t ∧
      (0 ∉ t.sessions ∧ (.leave 0 ∉ twoSessions ++ onePass → ∃ since, .closed 0 since ∈ t.log)) ∧ t.sessions = [1] := by
  obtain ⟨s, began, awake, known, t, ran, through, left, silent⟩ :
      ∃ s, run (step (.new 12)) (.init 0) twoSessions = some s ∧ s.sweeps 0 = .awake 20 ∧ 0 < s.count ∧
        ∃ t, run (step (.new 12)) s (.list 0 [0, 1] :: onePass) = some t ∧ t.sweeps 0 = .scanning 20 [] ∧ t.sessions = [1] ∧
          Always (step (.new 12)) (fun s => stale 12 20 (s.lastSeen 0) = true) s (.list 0 [0, 1] :: onePass) :=
    ⟨_, rfl, rfl, by decide, _, rfl, rfl, rfl,
      .cons rfl rfl (.cons rfl rfl (.cons rfl rfl (.cons rfl rfl (.cons rfl rfl (.cons rfl rfl rfl)))))⟩
  have unfinished : .rest 0 ∉ onePass := by
    unfold onePass
    simp
  exact ⟨s, t, began, ran, silent_swept began awake known ran through unfinished silent, left⟩

end EchoStream.Plugins.HeartbeatSweep
