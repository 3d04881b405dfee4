import Mathlib.Logic.Function.Basic
import EchoStream.Foundation.Run
import EchoStream.Foundation.Trace

/-! The user's hooks on disconnecting. They are registered and unregistered while
the server runs, by id. The server takes a copy of them for each session before it
spawns the session's connection loop, and the copy is what is run behind the loop. -/

namespace EchoStream.Core.ServerHooks
open Foundation.Run Foundation.Trace

abbrev HookId := UInt64
abbrev Hook := Nat
abbrev Entry := HookId × Hook

/-- The ids given while building, counted on from the hooks of other kinds. -/
def number : HookId → List Hook → List Entry
  | _, [] => []
  | next, hook :: rest => (next, hook) :: number (next + 1) rest

/-- Where a session is, with the copy of the hooks it was spawned with and,
behind its loop, with those still to be run. -/
inductive Phase where
  | absent
  | connecting
  | running (hooks : List Entry)
  | leaving (hooks : List Entry)
  | notifying (todo : List Entry)
  | gone

inductive Happening where
  | registered (entry : Entry)
  | unregistered (id : HookId)
  | ended (k : Nat)
  | invoked (k : Nat) (entry : Entry)
  | finished (k : Nat)
deriving DecidableEq

structure Server where
  onDisconnect : List Entry
  nextHookId : HookId
  numbered : List Entry
  phases : Nat → Phase
  count : Nat
  accepting : Option Nat
  stopped : Bool
  log : List Happening

/-- `build` numbers the hooks on start, stop and connecting first. -/
def build (others : Nat) (onDisconnect : List Hook) : Server where
  onDisconnect := number (UInt64.ofNat (others + 1)) onDisconnect
  nextHookId := UInt64.ofNat (others + onDisconnect.length + 1)
  numbered := []
  phases := fun _ => .absent
  count := 0
  accepting := none
  stopped := false
  log := []

inductive Label where
  | addOnDisconnect (hook : Hook)
  | addOther
  | push (i : Nat)
  | removeOnDisconnect (id : HookId)
  | accept
  | spawn
  | endLoop (k : Nat)
  | unregister (k : Nat)
  | disconnectHook (k : Nat)
  | finish (k : Nat)
  | shutdown

def Server.setPhase (s : Server) (k : Nat) (phase : Phase) : Server :=
  { s with phases := Function.update s.phases k phase }

def Server.note (s : Server) (happening : Happening) : Server := { s with log := s.log ++ [happening] }

/-- The lock is taken for the `i`-th of the hooks that have an id and no place yet. -/
def push (s : Server) (i : Nat) : Option Server :=
  (s.numbered[i]?).map (fun entry =>
    { s.note (.registered entry) with
      onDisconnect := s.onDisconnect ++ [entry], numbered := s.numbered.eraseIdx i })

def removeOnDisconnect (s : Server) (id : HookId) : Server :=
  { s.note (.unregistered id) with onDisconnect := s.onDisconnect.filter (fun entry => entry.1 != id) }

def accept (s : Server) : Option Server :=
  match s.accepting, s.stopped with
  | none, false => some { s.setPhase s.count .connecting with count := s.count + 1, accepting := some s.count }
  | _, _ => none

/-- The connect hooks were run. The hooks on disconnecting are read, and the task
that gets them is spawned. -/
def spawn (s : Server) : Option Server :=
  match s.accepting with
  | none => none
  | some k => some { s.setPhase k (.running s.onDisconnect) with accepting := none }

def endLoop (s : Server) (k : Nat) : Option Server :=
  match s.phases k with
  | .running hooks => some ((s.setPhase k (.leaving hooks)).note (.ended k))
  | _ => none

/-- The middlewares' disconnect hooks were run, and the session is unregistered. -/
def unregister (s : Server) (k : Nat) : Option Server :=
  match s.phases k with
  | .leaving hooks => some (s.setPhase k (.notifying hooks))
  | _ => none

def disconnectHook (s : Server) (k : Nat) : Option Server :=
  match s.phases k with
  | .notifying (entry :: todo) => some ((s.setPhase k (.notifying todo)).note (.invoked k entry))
  | _ => none

def finish (s : Server) (k : Nat) : Option Server :=
  match s.phases k with
  | .notifying [] => some ((s.setPhase k .gone).note (.finished k))
  | _ => none

def step : Step Server Label
  | s, .addOnDisconnect hook =>
      some { s with numbered := s.numbered ++ [(s.nextHookId, hook)], nextHookId := s.nextHookId + 1 }
  | s, .addOther => some { s with nextHookId := s.nextHookId + 1 }
  | s, .push i => push s i
  | s, .removeOnDisconnect id => some (removeOnDisconnect s id)
  | s, .accept => accept s
  | s, .spawn => spawn s
  | s, .endLoop k => endLoop s k
  | s, .unregister k => unregister s k
  | s, .disconnectHook k => disconnectHook s k
  | s, .finish k => finish s k
  | s, .shutdown => some { s with stopped := true }

def registered (initial : List Entry) (log : List Happening) : List Entry :=
  log.foldl (fun hooks happening =>
    match happening with
    | .registered entry => hooks ++ [entry]
    | .unregistered id => hooks.filter (fun entry => entry.1 != id)
    | _ => hooks) initial

def invoked (k : Nat) (log : List Happening) : List Entry :=
  log.filterMap (fun
    | .invoked j entry => if j = k then some entry else none
    | _ => none)

/-- Of the hooks registered when the session's loop ended, `ran` were run and
none besides them. -/
def Served (initial : List Entry) (k : Nat) (log : List Happening) (left : List Entry) : Prop :=
  ∃ early late, log = early ++ .ended k :: late ∧ invoked k early = [] ∧
    invoked k late ++ left = registered initial early

/-- A hook is run for a session only behind its loop and as the next of those that
were registered when the loop ended, and the session is through with all of them. -/
def Allowed (initial : List Entry) (before : List Happening) : Happening → Prop
  | .ended k => .ended k ∉ before
  | .invoked k entry => ∃ todo, Served initial k before (entry :: todo)
  | .finished k => Served initial k before []
  | _ => True

def Faithful (initial : List Entry) (s : Server) : Prop := Ordered (Allowed initial) s.log

/-- When a loop ends, the hooks registered are those its session was spawned with. -/
def Careful (s : Server) : Label → Prop
  | .endLoop k => ∀ hooks, s.phases k = .running hooks → s.onDisconnect = hooks
  | _ => True

/-- What the log says of a session in its phase. -/
def Tally (initial : List Entry) (k : Nat) (log : List Happening) : Phase → Prop
  | .leaving hooks => Served initial k log hooks
  | .notifying todo => Served initial k log todo
  | .gone => True
  | _ => .ended k ∉ log ∧ invoked k log = []

structure Sound (initial : List Entry) (s : Server) : Prop where
  faithful : Faithful initial s
  current : s.onDisconnect = registered initial s.log
  fresh : ∀ k, s.count ≤ k → s.phases k = .absent
  connecting : ∀ k, s.accepting = some k → s.phases k = .connecting
  tally : ∀ k, Tally initial k s.log (s.phases k)

variable {initial : List Entry} {s t : Server} {k : Nat} {log : List Happening}

theorem build_sound (others : Nat) (hooks : List Hook) :
    Sound (build others hooks).onDisconnect (build others hooks) :=
  ⟨Ordered.nil, rfl, fun _ _ => rfl, fun _ at_work => absurd at_work (Option.some_ne_none _).symm,
    fun _ => ⟨List.not_mem_nil, rfl⟩⟩

/-- What is noted changes neither the hooks registered nor those run for a session. -/
def Quiet (k : Nat) (happening : Happening) : Prop :=
  happening ≠ .ended k ∧ ∀ entry, happening ≠ .invoked k entry

theorem invoked_append (k : Nat) (first second : List Happening) :
    invoked k (first ++ second) = invoked k first ++ invoked k second :=
  List.filterMap_append

theorem invoked_quiet {happening : Happening} (quiet : Quiet k happening) (log : List Happening) :
    invoked k (log ++ [happening]) = invoked k log := by
  rw [invoked_append]
  cases happening with
  | invoked j entry =>
    have differ : j ≠ k := fun same => quiet.2 entry (by rw [same])
    simp [invoked, differ]
  | _ => simp [invoked]

theorem Served.quiet {left : List Entry} (served : Served initial k log left) {happening : Happening}
    (quiet : Quiet k happening) : Served initial k (log ++ [happening]) left := by
  obtain ⟨early, late, split, none_before, all⟩ := served
  refine ⟨early, late ++ [happening], by rw [split]; simp, none_before, ?_⟩
  rw [invoked_quiet quiet]
  exact all

theorem Served.invoke {entry : Entry} {left : List Entry} (served : Served initial k log (entry :: left)) :
    Served initial k (log ++ [.invoked k entry]) left := by
  obtain ⟨early, late, split, none_before, all⟩ := served
  refine ⟨early, late ++ [.invoked k entry], by rw [split]; simp, none_before, ?_⟩
  have one : invoked k [.invoked k entry] = [entry] := by simp [invoked]
  rw [invoked_append, one, List.append_assoc]
  exact all

theorem Tally.quiet {phase : Phase} (tally : Tally initial k log phase) {happening : Happening}
    (quiet : Quiet k happening) : Tally initial k (log ++ [happening]) phase := by
  have untouched : .ended k ∉ log ∧ invoked k log = [] →
      .ended k ∉ log ++ [happening] ∧ invoked k (log ++ [happening]) = [] := by
    intro before
    rw [invoked_quiet quiet, List.mem_append, List.mem_singleton]
    exact ⟨fun either => either.elim before.1 (fun same => quiet.1 same.symm), before.2⟩
  cases phase with
  | leaving hooks => exact Served.quiet tally quiet
  | notifying todo => exact Served.quiet tally quiet
  | gone => trivial
  | absent => exact untouched tally
  | connecting => exact untouched tally
  | running hooks => exact untouched tally

theorem Sound.within (sound : Sound initial s) {here : Phase} (phase : s.phases k = here)
    (present : here ≠ .absent) : k < s.count := by
  by_contra beyond
  exact present (phase.symm.trans (sound.fresh k (Nat.le_of_not_lt beyond)))

theorem Sound.tell (sound : Sound initial s) {happening : Happening} (quiet : ∀ k, Quiet k happening)
    (allowed : Allowed initial s.log happening) (phases : t.phases = s.phases) (count : t.count = s.count)
    (accepting : t.accepting = s.accepting) (log : t.log = s.log ++ [happening])
    (current : t.onDisconnect = registered initial t.log) : Sound initial t := by
  refine ⟨?_, current, ?_, ?_, fun k => ?_⟩
  · rw [Faithful, log]
    exact sound.faithful.append allowed
  · rw [phases, count]
    exact sound.fresh
  · rw [phases, accepting]
    exact sound.connecting
  · rw [phases, log]
    exact (sound.tally k).quiet (quiet k)

/-- A step that moves one session on behind its loop's end, or to it, and notes one
thing about it. -/
theorem Sound.advance (sound : Sound initial s) {happening : Happening} {here phase : Phase}
    (at_phase : s.phases k = here) (present : here ≠ .absent) (beyond : here ≠ .connecting)
    (about : ∀ j, j ≠ k → Quiet j happening)
    (unchanged : registered initial (s.log ++ [happening]) = registered initial s.log)
    (allowed : Allowed initial s.log happening) (tally : Tally initial k (s.log ++ [happening]) phase) :
    Sound initial ((s.setPhase k phase).note happening) := by
  have within := sound.within at_phase present
  refine ⟨sound.faithful.append allowed, sound.current.trans unchanged.symm, fun j far => ?_, fun j at_work => ?_,
    fun j => ?_⟩
  · have other : j ≠ k := fun same => absurd far (Nat.not_le_of_lt (same ▸ within))
    exact (Function.update_of_ne other _ _).trans (sound.fresh j far)
  · have connecting := sound.connecting j at_work
    have other : j ≠ k := fun same => beyond (at_phase.symm.trans (same ▸ connecting))
    exact (Function.update_of_ne other _ _).trans connecting
  · simp only [Server.note, Server.setPhase, Function.update_apply]
    by_cases same : j = k
    · rw [if_pos same, same]
      exact tally
    · rw [if_neg same]
      exact (sound.tally j).quiet (about j same)

theorem push_sound {i : Nat} (sound : Sound initial s) (stepped : push s i = some t) : Sound initial t := by
  unfold push at stepped
  obtain ⟨entry, _, rfl⟩ := Option.map_eq_some_iff.1 stepped
  have quiet : ∀ k, Quiet k (.registered entry) := fun _ => ⟨Happening.noConfusion, fun _ => Happening.noConfusion⟩
  refine sound.tell quiet trivial rfl rfl rfl rfl ?_
  have current := sound.current
  simp only [Server.note, registered, List.foldl_append, List.foldl_cons, List.foldl_nil] at current ⊢
  rw [current]

theorem removeOnDisconnect_sound (id : HookId) (sound : Sound initial s) :
    Sound initial (removeOnDisconnect s id) := by
  have quiet : ∀ k, Quiet k (.unregistered id) := fun _ => ⟨Happening.noConfusion, fun _ => Happening.noConfusion⟩
  refine sound.tell quiet trivial rfl rfl rfl rfl ?_
  have current := sound.current
  simp only [removeOnDisconnect, Server.note, registered, List.foldl_append, List.foldl_cons, List.foldl_nil] at current ⊢
  rw [current]

theorem accept_sound (sound : Sound initial s) (stepped : accept s = some t) : Sound initial t := by
  unfold accept at stepped
  split at stepped
  · cases stepped
    have tally := sound.tally s.count
    rw [sound.fresh s.count (Nat.le_refl _)] at tally
    refine ⟨sound.faithful, sound.current, fun j far => ?_, fun j at_work => ?_, fun j => ?_⟩
    · have other : j ≠ s.count := Nat.ne_of_gt far
      exact (Function.update_of_ne other _ _).trans (sound.fresh j (Nat.le_of_succ_le far))
    · cases at_work
      exact Function.update_self _ _ _
    · simp only [Server.setPhase, Function.update_apply]
      by_cases same : j = s.count
      · rw [if_pos same, same]
        exact tally
      · rw [if_neg same]
        exact sound.tally j
  · cases stepped

theorem spawn_sound (sound : Sound initial s) (stepped : spawn s = some t) : Sound initial t := by
  unfold spawn at stepped
  cases accepting : s.accepting with
  | none =>
    rw [accepting] at stepped
    cases stepped
  | some k =>
    rw [accepting] at stepped
    cases stepped
    have phase := sound.connecting k accepting
    have within := sound.within phase Phase.noConfusion
    have tally := sound.tally k
    rw [phase] at tally
    refine ⟨sound.faithful, sound.current, fun j far => ?_, fun j at_work => absurd at_work (Option.some_ne_none j).symm,
      fun j => ?_⟩
    · have other : j ≠ k := fun same => absurd far (Nat.not_le_of_lt (same ▸ within))
      exact (Function.update_of_ne other _ _).trans (sound.fresh j far)
    · simp only [Server.setPhase, Function.update_apply]
      by_cases same : j = k
      · rw [if_pos same, same]
        exact tally
      · rw [if_neg same]
        exact sound.tally j

theorem endLoop_sound (sound : Sound initial s) (careful : Careful s (.endLoop k))
    (stepped : endLoop s k = some t) : Sound initial t := by
  unfold endLoop at stepped
  split at stepped
  · rename_i hooks phase
    cases stepped
    have tally := sound.tally k
    rw [phase] at tally
    have unchanged : registered initial (s.log ++ [.ended k]) = registered initial s.log := by
      simp [registered]
    refine sound.advance phase Phase.noConfusion Phase.noConfusion (fun j other => ?_) unchanged tally.1 ?_
    · exact ⟨fun same => other (Happening.ended.inj same).symm, fun _ => Happening.noConfusion⟩
    · refine ⟨s.log, [], rfl, tally.2, ?_⟩
      -- The copy is what is left, and it is what is registered now.
      rw [← sound.current, careful hooks phase]
      rfl
  · cases stepped

theorem unregister_sound (sound : Sound initial s) (stepped : unregister s k = some t) : Sound initial t := by
  unfold unregister at stepped
  split at stepped
  · rename_i hooks phase
    cases stepped
    have tally := sound.tally k
    rw [phase] at tally
    have within := sound.within phase Phase.noConfusion
    refine ⟨sound.faithful, sound.current, fun j far => ?_, fun j at_work => ?_, fun j => ?_⟩
    · have other : j ≠ k := fun same => absurd far (Nat.not_le_of_lt (same ▸ within))
      exact (Function.update_of_ne other _ _).trans (sound.fresh j far)
    · have connecting := sound.connecting j at_work
      have other : j ≠ k := fun same => Phase.noConfusion (phase.symm.trans (same ▸ connecting))
      exact (Function.update_of_ne other _ _).trans connecting
    · simp only [Server.setPhase, Function.update_apply]
      by_cases same : j = k
      · rw [if_pos same, same]
        exact tally
      · rw [if_neg same]
        exact sound.tally j
  · cases stepped

theorem disconnectHook_sound (sound : Sound initial s) (stepped : disconnectHook s k = some t) : Sound initial t := by
  unfold disconnectHook at stepped
  split at stepped
  · rename_i entry todo phase
    cases stepped
    have tally := sound.tally k
    rw [phase] at tally
    have unchanged : registered initial (s.log ++ [.invoked k entry]) = registered initial s.log := by
      simp [registered]
    refine sound.advance phase Phase.noConfusion Phase.noConfusion (fun j other => ?_) unchanged ⟨todo, tally⟩ ?_
    · exact ⟨Happening.noConfusion, fun _ same => other (Happening.invoked.inj same).1.symm⟩
    · exact Served.invoke tally
  · cases stepped

theorem finish_sound (sound : Sound initial s) (stepped : finish s k = some t) : Sound initial t := by
  unfold finish at stepped
  split at stepped
  · rename_i phase
    cases stepped
    have tally := sound.tally k
    rw [phase] at tally
    have unchanged : registered initial (s.log ++ [.finished k]) = registered initial s.log := by
      simp [registered]
    exact sound.advance phase Phase.noConfusion Phase.noConfusion
      (fun j _ => ⟨Happening.noConfusion, fun _ => Happening.noConfusion⟩) unchanged tally trivial
  · cases stepped

theorem step_sound (s : Server) (label : Label) (t : Server) (sound : Sound initial s) (careful : Careful s label)
    (stepped : step s label = some t) : Sound initial t := by
  cases label with
  | addOnDisconnect hook =>
    cases stepped
    exact ⟨sound.faithful, sound.current, sound.fresh, sound.connecting, sound.tally⟩
  | addOther =>
    cases stepped
    exact ⟨sound.faithful, sound.current, sound.fresh, sound.connecting, sound.tally⟩
  | push i => exact push_sound sound stepped
  | removeOnDisconnect id =>
    cases stepped
    exact removeOnDisconnect_sound id sound
  | accept => exact accept_sound sound stepped
  | spawn => exact spawn_sound sound stepped
  | endLoop k => exact endLoop_sound sound careful stepped
  | unregister k => exact unregister_sound sound stepped
  | disconnectHook k => exact disconnectHook_sound sound stepped
  | finish k => exact finish_sound sound stepped
  | shutdown =>
    cases stepped
    exact ⟨sound.faithful, sound.current, sound.fresh, sound.connecting, sound.tally⟩

/-- Where no loop ends with other hooks registered than its session was spawned
with, the hooks run for a session are those registered when its loop ended. -/
theorem faithful_of_careful (others : Nat) (hooks : List Hook) (labels : List Label)
    (careful : Guarded step Careful (build others hooks) labels) :
    Always step (Faithful (build others hooks).onDisconnect) (build others hooks) labels := by
  have sound := guarded_always (fun s label t sound met stepped => step_sound s label t sound met stepped)
    (build_sound others hooks) careful
  exact sound.mono (fun _ sound => sound.faithful)

/-- A session comes and goes, and between its loop's end and its hook's run the
hook is unregistered. -/
private def visited : List Label :=
  [.accept, .spawn, .endLoop 0, .removeOnDisconnect 1, .unregister 0, .disconnectHook 0, .finish 0]

theorem visited_faithful : Always step (Faithful [(1, 7)]) (build 0 [7]) visited := by
  have careful : Guarded step Careful (build 0 [7]) visited := by
    refine Guarded.cons rfl trivial (Guarded.cons rfl trivial (Guarded.cons rfl ?_ ?_))
    · intro hooks running
      exact Phase.running.inj running
    · exact Guarded.cons rfl trivial (Guarded.cons rfl trivial (Guarded.cons rfl trivial (Guarded.cons rfl trivial trivial)))
  exact faithful_of_careful 0 [7] visited careful

/-- The hook is unregistered while the session is connected, and run nevertheless. -/
private def removed : List Label :=
  [.accept, .spawn, .removeOnDisconnect 1, .endLoop 0, .unregister 0, .disconnectHook 0]

theorem removed_hook_run : ¬ ∀ labels, Always step (Faithful [(1, 7)]) (build 0 [7]) labels := by
  intro always
  have ran : (run step (build 0 [7]) removed).map Server.log =
      some [.unregistered 1, .ended 0, .invoked 0 (1, 7)] := rfl
  obtain ⟨last, ran, log⟩ := Option.map_eq_some_iff.1 ran
  have faithful := (always removed).last ran
  rw [Faithful, log] at faithful
  obtain ⟨todo, early, late, split, _, all⟩ := faithful [.unregistered 1, .ended 0] (.invoked 0 (1, 7)) [] rfl
  cases early with
  | nil => cases split
  | cons first early =>
    cases early with
    | nil =>
      cases split
      exact List.cons_ne_nil _ _ all
    | cons second early => cases early <;> cases split

end EchoStream.Core.ServerHooks
