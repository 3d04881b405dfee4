import Mathlib.Logic.Function.Basic
import EchoStream.Foundation.Run
import EchoStream.Foundation.Trace
import EchoStream.Core.Dispatch

/-! The connection hooks of middlewares. A server accepts one session after the
other: it registers the session, runs what it runs on connecting, and spawns the
session's connection loop. The loops of all sessions overlap. When one ends, what
is run on disconnecting is run, and the session is unregistered. The three
servers have this in common and differ in whether they run the middlewares' hooks.
A core server with the heartbeat plugin also has a task that unregisters sessions
whose loops are still running. -/

namespace EchoStream.Core.SessionHooks
open Foundation.Run Foundation.Trace
open Proto.Messages
open Dispatch

inductive Front where
  | server
  | ws
  | web
deriving DecidableEq

/-- The middlewares of a server. The heartbeat plugin is one for the core server alone, and
brings a middleware of its own. -/
structure Setup where
  front : Front
  middlewares : List Token
  heartbeat : Bool
  installed : heartbeat = true → front = .server ∧ middlewares ≠ []

/-- The hooks run in the accept loop, `run_connect_hooks` or none. -/
def Front.connectHooks (front : Front) (middlewares : List Token) : List Token :=
  match front with
  | .server => middlewares
  | .ws => []
  | .web => []

/-- The hooks run behind the connection loop, `run_disconnect_hooks` or none. -/
def Front.disconnectHooks (front : Front) (middlewares : List Token) : List Token :=
  match front with
  | .server => middlewares
  | .ws => []
  | .web => []

/-- Where a session is, with the hooks that are still to be run. -/
inductive Phase where
  | absent
  | connecting (todo : List Token)
  | running
  | leaving (todo : List Token)
  | gone

inductive Happening where
  | registered (k : Nat)
  | connected (k : Nat) (middleware : Token)
  | dispatched (k : Nat) (msg : Message)
  | ended (k : Nat)
  | disconnected (k : Nat) (middleware : Token)
  | unregistered (k : Nat)
deriving DecidableEq

/-- `sessions` are the registered ones. -/
structure Server where
  phases : Nat → Phase
  sessions : List Nat
  count : Nat
  accepting : Option Nat
  stopped : Bool
  log : List Happening

def Server.init : Server := ⟨fun _ => .absent, [], 0, none, false, []⟩

/-- A hook may fail, which is only traced. -/
inductive Label where
  | accept
  | connectHook (failure : Option Error)
  | spawn
  | dispatch (k : Nat) (msg : Message)
  | endLoop (k : Nat)
  | disconnectHook (k : Nat) (failure : Option Error)
  | unregister (k : Nat)
  | sweep (k : Nat)
  | shutdown

def Server.setPhase (s : Server) (k : Nat) (phase : Phase) : Server :=
  { s with phases := Function.update s.phases k phase }

def Server.note (s : Server) (happening : Happening) : Server := { s with log := s.log ++ [happening] }

/-- A session that is not registered is not unregistered again. -/
def Server.unregisterSession (s : Server) (k : Nat) : Server :=
  if k ∈ s.sessions then { s.note (.unregistered k) with sessions := s.sessions.filter (fun other => other != k) } else s

def accept (front : Front) (middlewares : List Token) (s : Server) : Option Server :=
  match s.accepting, s.stopped with
  | none, false =>
      some { (s.setPhase s.count (.connecting (front.connectHooks middlewares))).note (.registered s.count) with
        sessions := s.sessions ++ [s.count], count := s.count + 1, accepting := some s.count }
  | _, _ => none

def connectHook (s : Server) : Option Server :=
  match s.accepting with
  | none => none
  | some k =>
      match s.phases k with
      | .connecting (middleware :: todo) => some ((s.setPhase k (.connecting todo)).note (.connected k middleware))
      | _ => none

def spawn (s : Server) : Option Server :=
  match s.accepting with
  | none => none
  | some k =>
      match s.phases k with
      | .connecting [] => some { s.setPhase k .running with accepting := none }
      | _ => none

/-- The loop dispatches messages, and tasks it spawned may outlive it. -/
def dispatch (s : Server) (k : Nat) (msg : Message) : Option Server :=
  match s.phases k with
  | .absent => none
  | .connecting _ => none
  | _ => some (s.note (.dispatched k msg))

def endLoop (front : Front) (middlewares : List Token) (s : Server) (k : Nat) : Option Server :=
  match s.phases k with
  | .running => some ((s.setPhase k (.leaving (front.disconnectHooks middlewares))).note (.ended k))
  | _ => none

def disconnectHook (s : Server) (k : Nat) : Option Server :=
  match s.phases k with
  | .leaving (middleware :: todo) => some ((s.setPhase k (.leaving todo)).note (.disconnected k middleware))
  | _ => none

def unregister (s : Server) (k : Nat) : Option Server :=
  match s.phases k with
  | .leaving [] => some ((s.setPhase k .gone).unregisterSession k)
  | _ => none

/-- The sweep of the heartbeat plugin has found the session stale. -/
def sweep (heartbeat : Bool) (s : Server) (k : Nat) : Option Server :=
  if heartbeat then some (s.unregisterSession k) else none

def step (setup : Setup) : Step Server Label
  | s, .accept => accept setup.front setup.middlewares s
  | s, .connectHook _ => connectHook s
  | s, .spawn => spawn s
  | s, .dispatch k msg => dispatch s k msg
  | s, .endLoop k => endLoop setup.front setup.middlewares s k
  | s, .disconnectHook k _ => disconnectHook s k
  | s, .unregister k => unregister s k
  | s, .sweep k => sweep setup.heartbeat s k
  | s, .shutdown => some { s with stopped := true }

/-- The middlewares whose connect hook was run for the session, in order. -/
def connects (k : Nat) (log : List Happening) : List Token :=
  log.filterMap (fun
    | .connected j middleware => if j = k then some middleware else none
    | _ => none)

def disconnects (k : Nat) (log : List Happening) : List Token :=
  log.filterMap (fun
    | .disconnected j middleware => if j = k then some middleware else none
    | _ => none)

/-- What has to have happened before. No hook is run twice, all connect hooks
before a message is dispatched, disconnect hooks only behind the loop, and all of
them before the session is unregistered. -/
def Allowed (middlewares : List Token) (before : List Happening) : Happening → Prop
  | .connected k middleware => connects k before ++ [middleware] <+: middlewares
  | .dispatched k _ => connects k before = middlewares
  | .disconnected k middleware => .ended k ∈ before ∧ disconnects k before ++ [middleware] <+: middlewares
  | .unregistered k => disconnects k before = middlewares
  | _ => True

def Hooked (middlewares : List Token) (s : Server) : Prop := Ordered (Allowed middlewares) s.log

/-- The hooks that were run and those still to be run are all of them. -/
def Tally (middlewares : List Token) (k : Nat) (log : List Happening) : Phase → Prop
  | .absent => connects k log = [] ∧ disconnects k log = []
  | .connecting todo => connects k log ++ todo = middlewares ∧ disconnects k log = []
  | .running => connects k log = middlewares ∧ disconnects k log = []
  | .leaving todo => connects k log = middlewares ∧ .ended k ∈ log ∧ disconnects k log ++ todo = middlewares
  | .gone => connects k log = middlewares ∧ disconnects k log = middlewares

def Phase.Done : Phase → Prop
  | .leaving [] => True
  | .gone => True
  | _ => False

/-- The sweep comes upon a session that is registered only when its hooks are done. -/
def Unhurried (s : Server) : Label → Prop
  | .sweep k => k ∈ s.sessions → (s.phases k).Done
  | _ => True

structure Sound (middlewares : List Token) (s : Server) : Prop where
  hooked : Hooked middlewares s
  fresh : ∀ k, s.count ≤ k → s.phases k = .absent
  tally : ∀ k, Tally middlewares k s.log (s.phases k)

variable {front : Front} {middlewares : List Token} {s t : Server} {k : Nat}

theorem init_sound (middlewares : List Token) : Sound middlewares .init :=
  ⟨Ordered.nil, fun _ _ => rfl, fun _ => ⟨rfl, rfl⟩⟩

def Happening.session : Happening → Nat
  | registered k => k
  | connected k _ => k
  | dispatched k _ => k
  | ended k => k
  | disconnected k _ => k
  | unregistered k => k

theorem connects_other {happening : Happening} (other : happening.session ≠ k) (log : List Happening) :
    connects k (log ++ [happening]) = connects k log := by
  unfold connects
  rw [List.filterMap_append]
  cases happening with
  | connected j middleware =>
    have differ : j ≠ k := other
    simp [differ]
  | _ => simp

theorem disconnects_other {happening : Happening} (other : happening.session ≠ k) (log : List Happening) :
    disconnects k (log ++ [happening]) = disconnects k log := by
  unfold disconnects
  rw [List.filterMap_append]
  cases happening with
  | disconnected j middleware =>
    have differ : j ≠ k := other
    simp [differ]
  | _ => simp

theorem Tally.other {happening : Happening} {phase : Phase} {log : List Happening}
    (tally : Tally middlewares k log phase) (other : happening.session ≠ k) :
    Tally middlewares k (log ++ [happening]) phase := by
  cases phase <;>
    simp only [Tally, connects_other other, disconnects_other other, List.mem_append] at tally ⊢
  case leaving todo => exact ⟨tally.1, Or.inl tally.2.1, tally.2.2⟩
  all_goals exact tally

theorem Sound.advance (sound : Sound middlewares s) {happening : Happening} {phase : Phase}
    (about : happening.session = k) (phases : t.phases = Function.update s.phases k phase)
    (log : t.log = s.log ++ [happening]) (within : k < t.count) (grown : s.count ≤ t.count)
    (allowed : Allowed middlewares s.log happening) (tally : Tally middlewares k (s.log ++ [happening]) phase) :
    Sound middlewares t := by
  refine ⟨?_, fun j beyond => ?_, fun j => ?_⟩
  · rw [Hooked, log]
    exact sound.hooked.append allowed
  · rw [phases, Function.update_of_ne (by omega)]
    exact sound.fresh j (Nat.le_trans grown beyond)
  · rw [phases, log]
    by_cases same : j = k
    · subst same
      rw [Function.update_self]
      exact tally
    · rw [Function.update_of_ne same]
      exact (sound.tally j).other (about.trans_ne (Ne.symm same))

theorem Sound.present (sound : Sound middlewares s) {here : Phase} (phase : s.phases k = here) (present : here ≠ .absent) :
    k < s.count ∧ Tally middlewares k s.log here := by
  constructor
  · by_contra beyond
    exact present (phase.symm.trans (sound.fresh k (Nat.le_of_not_lt beyond)))
  · rw [← phase]
    exact sound.tally k

theorem accept_sound (all : front.connectHooks middlewares = middlewares) (sound : Sound middlewares s)
    (stepped : accept front middlewares s = some t) : Sound middlewares t := by
  unfold accept at stepped
  split at stepped
  · cases stepped
    have fresh := sound.tally s.count
    rw [sound.fresh s.count (Nat.le_refl _)] at fresh
    refine sound.advance (k := s.count) rfl rfl rfl (Nat.lt_succ_self _) (Nat.le_succ _) trivial ?_
    have quiet : connects s.count (s.log ++ [.registered s.count]) = connects s.count s.log ∧
        disconnects s.count (s.log ++ [.registered s.count]) = disconnects s.count s.log := by
      simp [connects, disconnects]
    rw [all, Tally, quiet.1, quiet.2, fresh.1, fresh.2]
    exact ⟨rfl, rfl⟩
  · cases stepped

theorem connectHook_sound (sound : Sound middlewares s) (stepped : connectHook s = some t) :
    Sound middlewares t := by
  unfold connectHook at stepped
  split at stepped
  · cases stepped
  rename_i k at_work
  split at stepped
  · rename_i middleware todo phase
    cases stepped
    obtain ⟨within, tally⟩ := sound.present phase Phase.noConfusion
    have now : connects k (s.log ++ [.connected k middleware]) = connects k s.log ++ [middleware] ∧
        disconnects k (s.log ++ [.connected k middleware]) = disconnects k s.log := by
      simp [connects, disconnects]
    have all : connects k s.log ++ [middleware] ++ todo = middlewares := by
      rw [List.append_assoc]
      exact tally.1
    refine sound.advance (k := k) rfl rfl rfl within (Nat.le_refl _) ⟨todo, all⟩ ?_
    rw [Tally, now.1, now.2]
    exact ⟨all, tally.2⟩
  · cases stepped

theorem spawn_sound (sound : Sound middlewares s) (stepped : spawn s = some t) : Sound middlewares t := by
  unfold spawn at stepped
  split at stepped
  · cases stepped
  rename_i k at_work
  split at stepped
  · rename_i phase
    cases stepped
    obtain ⟨within, tally⟩ := sound.present phase Phase.noConfusion
    refine ⟨sound.hooked, fun j beyond => ?_, fun j => ?_⟩
    · simp only [Server.setPhase] at beyond ⊢
      rw [Function.update_of_ne (by omega)]
      exact sound.fresh j beyond
    · simp only [Server.setPhase, Function.update_apply]
      split
      · rename_i same
        subst same
        exact ⟨(List.append_nil _).symm.trans tally.1, tally.2⟩
      · exact sound.tally j
  · cases stepped

theorem dispatch_sound {msg : Message} (sound : Sound middlewares s) (stepped : dispatch s k msg = some t) :
    Sound middlewares t := by
  have quiet : connects k (s.log ++ [.dispatched k msg]) = connects k s.log ∧
      disconnects k (s.log ++ [.dispatched k msg]) = disconnects k s.log := by
    simp [connects, disconnects]
  have same : Function.update s.phases k (s.phases k) = s.phases := Function.update_eq_self k s.phases
  unfold dispatch at stepped
  cases phase : s.phases k with
  | absent =>
    rw [phase] at stepped
    cases stepped
  | connecting todo =>
    rw [phase] at stepped
    cases stepped
  | running =>
    obtain ⟨within, tally⟩ := sound.present phase Phase.noConfusion
    rw [phase] at stepped same
    cases stepped
    refine sound.advance (k := k) rfl same.symm rfl within (Nat.le_refl _) tally.1 ?_
    rw [Tally, quiet.1, quiet.2]
    exact tally
  | leaving todo =>
    obtain ⟨within, tally⟩ := sound.present phase Phase.noConfusion
    rw [phase] at stepped same
    cases stepped
    refine sound.advance (k := k) rfl same.symm rfl within (Nat.le_refl _) tally.1 ?_
    rw [Tally, quiet.1, quiet.2]
    exact ⟨tally.1, List.mem_append_left _ tally.2.1, tally.2.2⟩
  | gone =>
    obtain ⟨within, tally⟩ := sound.present phase Phase.noConfusion
    rw [phase] at stepped same
    cases stepped
    refine sound.advance (k := k) rfl same.symm rfl within (Nat.le_refl _) tally.1 ?_
    rw [Tally, quiet.1, quiet.2]
    exact tally

theorem endLoop_sound (all : front.disconnectHooks middlewares = middlewares) (sound : Sound middlewares s)
    (stepped : endLoop front middlewares s k = some t) : Sound middlewares t := by
  unfold endLoop at stepped
  split at stepped
  · rename_i phase
    cases stepped
    obtain ⟨within, tally⟩ := sound.present phase Phase.noConfusion
    have quiet : connects k (s.log ++ [.ended k]) = connects k s.log ∧
        disconnects k (s.log ++ [.ended k]) = disconnects k s.log := by
      simp [connects, disconnects]
    refine sound.advance (k := k) rfl rfl rfl within (Nat.le_refl _) trivial ?_
    rw [all, Tally, quiet.1, quiet.2, tally.2]
    exact ⟨tally.1, List.mem_append_right _ (List.mem_singleton_self _), rfl⟩
  · cases stepped

theorem disconnectHook_sound (sound : Sound middlewares s) (stepped : disconnectHook s k = some t) :
    Sound middlewares t := by
  unfold disconnectHook at stepped
  split at stepped
  · rename_i middleware todo phase
    cases stepped
    obtain ⟨within, tally⟩ := sound.present phase Phase.noConfusion
    have now : connects k (s.log ++ [.disconnected k middleware]) = connects k s.log ∧
        disconnects k (s.log ++ [.disconnected k middleware]) = disconnects k s.log ++ [middleware] := by
      simp [connects, disconnects]
    have all : disconnects k s.log ++ [middleware] ++ todo = middlewares := by
      rw [List.append_assoc]
      exact tally.2.2
    refine sound.advance (k := k) rfl rfl rfl within (Nat.le_refl _) ⟨tally.2.1, todo, all⟩ ?_
    rw [Tally, now.1, now.2]
    exact ⟨tally.1, List.mem_append_left _ tally.2.1, all⟩
  · cases stepped

theorem Sound.unregisterSession (sound : Sound middlewares s) (within : k ∈ s.sessions → k < s.count)
    (done : k ∈ s.sessions → (s.phases k).Done) : Sound middlewares (s.unregisterSession k) := by
  unfold Server.unregisterSession
  split
  · rename_i member
    have quiet : connects k (s.log ++ [.unregistered k]) = connects k s.log ∧
        disconnects k (s.log ++ [.unregistered k]) = disconnects k s.log := by
      simp [connects, disconnects]
    have tally := sound.tally k
    have finished : disconnects k s.log = middlewares ∧ Tally middlewares k (s.log ++ [.unregistered k]) (s.phases k) := by
      have past := done member
      cases phase : s.phases k with
      | leaving todo =>
        rw [phase] at past tally
        cases todo with
        | nil =>
          have last : disconnects k s.log = middlewares := (List.append_nil _).symm.trans tally.2.2
          rw [Tally, quiet.1, quiet.2]
          exact ⟨last, tally.1, List.mem_append_left _ tally.2.1, tally.2.2⟩
        | cons middleware todo => exact past.elim
      | gone =>
        rw [phase] at tally
        rw [Tally, quiet.1, quiet.2]
        exact ⟨tally.2, tally⟩
      | _ =>
        rw [phase] at past
        exact past.elim
    exact sound.advance (k := k) rfl (Function.update_eq_self k s.phases).symm rfl (within member) (Nat.le_refl _) finished.1 finished.2
  · exact sound

theorem unregister_sound (sound : Sound middlewares s) (within : ∀ j ∈ s.sessions, j < s.count)
    (stepped : unregister s k = some t) : Sound middlewares t := by
  unfold unregister at stepped
  split at stepped
  · rename_i phase
    cases stepped
    obtain ⟨-, tally⟩ := sound.present phase Phase.noConfusion
    have last : disconnects k s.log = middlewares := (List.append_nil _).symm.trans tally.2.2
    have gone : Sound middlewares (s.setPhase k .gone) := by
      refine ⟨sound.hooked, fun j beyond => ?_, fun j => ?_⟩
      · simp only [Server.setPhase, Function.update_apply]
        split
        · rename_i same
          rw [same] at beyond
          rw [sound.fresh k beyond] at phase
          cases phase
        · exact sound.fresh j beyond
      · simp only [Server.setPhase, Function.update_apply]
        split
        · rename_i same
          subst same
          exact ⟨tally.1, last⟩
        · exact sound.tally j
    refine gone.unregisterSession (within k) (fun _ => ?_)
    show (Function.update s.phases k .gone k).Done
    rw [Function.update_self]
    trivial
  · cases stepped

/-- What is registered was accepted. -/
def Known (s : Server) : Prop := ∀ j ∈ s.sessions, j < s.count

theorem Known.unregisterSession (known : Known s) (k : Nat) : Known (s.unregisterSession k) := by
  unfold Server.unregisterSession
  split
  · exact fun j member => known j (List.mem_of_mem_filter member)
  · exact known

theorem step_known {setup : Setup} {label : Label} (known : Known s) (stepped : step setup s label = some t) : Known t := by
  cases label with
  | accept =>
    simp only [step, accept] at stepped
    split at stepped
    · cases stepped
      intro j member
      rcases List.mem_append.1 member with before | last
      · exact Nat.lt_succ_of_lt (known j before)
      · rw [List.mem_singleton.1 last]
        exact Nat.lt_succ_self _
    · cases stepped
  | connectHook failure =>
    simp only [step, connectHook] at stepped
    split at stepped
    · cases stepped
    · split at stepped <;> cases stepped
      exact known
  | spawn =>
    simp only [step, spawn] at stepped
    split at stepped
    · cases stepped
    · split at stepped <;> cases stepped
      exact known
  | dispatch k msg =>
    simp only [step, dispatch] at stepped
    split at stepped <;> cases stepped
    all_goals exact known
  | endLoop k =>
    simp only [step, endLoop] at stepped
    split at stepped <;> cases stepped
    exact known
  | disconnectHook k failure =>
    simp only [step, disconnectHook] at stepped
    split at stepped <;> cases stepped
    exact known
  | unregister k =>
    simp only [step, unregister] at stepped
    split at stepped <;> cases stepped
    exact Known.unregisterSession (s := s.setPhase k .gone) known k
  | sweep k =>
    simp only [step, sweep] at stepped
    split at stepped <;> cases stepped
    exact known.unregisterSession k
  | shutdown =>
    cases stepped
    exact known

/-- Where all hooks are to be run, every step keeps the tally, but for a sweep that comes
upon a session too early. -/
theorem step_sound {setup : Setup} (connecting : setup.front.connectHooks setup.middlewares = setup.middlewares)
    (leaving : setup.front.disconnectHooks setup.middlewares = setup.middlewares) (s : Server) (label : Label) (t : Server)
    (sound : Sound setup.middlewares s ∧ Known s) (unhurried : Unhurried s label) (stepped : step setup s label = some t) :
    Sound setup.middlewares t ∧ Known t := by
  obtain ⟨sound, known⟩ := sound
  refine ⟨?_, step_known known stepped⟩
  cases label with
  | accept => exact accept_sound connecting sound stepped
  | connectHook failure => exact connectHook_sound sound stepped
  | spawn => exact spawn_sound sound stepped
  | dispatch k msg => exact dispatch_sound sound stepped
  | endLoop k => exact endLoop_sound leaving sound stepped
  | disconnectHook k failure => exact disconnectHook_sound sound stepped
  | unregister k => exact unregister_sound sound known stepped
  | sweep k =>
    simp only [step, sweep] at stepped
    split at stepped
    · cases stepped
      exact sound.unregisterSession (known k) unhurried
    · cases stepped
  | shutdown =>
    cases stepped
    exact ⟨sound.hooked, sound.fresh, sound.tally⟩

private def tick : Message := .event ⟨1, "tick", []⟩

/-- One session that receives a message. -/
private def receiving : List Label := [.accept, .spawn, .dispatch 0 tick]

/-- A server that has a middleware and runs no hooks dispatches without them. -/
theorem unhooked {setup : Setup} (none_run : setup.front.connectHooks setup.middlewares = [])
    (some_there : setup.middlewares ≠ []) : ¬ Always (step setup) (Hooked setup.middlewares) .init receiving := by
  intro always
  have ran : (run (step setup) .init receiving).map Server.log =
      some [.registered 0, .dispatched 0 tick] := by
    simp [receiving, run_cons, step, accept, spawn, dispatch, Server.init, Server.setPhase, Server.note, none_run]
  obtain ⟨last, ran, log⟩ := Option.map_eq_some_iff.mp ran
  have hooked := always.last ran
  rw [Hooked, log] at hooked
  have before := hooked [.registered 0] (.dispatched 0 tick) [] rfl
  exact some_there before.symm

/-- The sweep takes a session out of the table before any hook was run for its end. -/
theorem swept_early {setup : Setup} (heartbeat : setup.heartbeat = true) :
    ¬ Always (step setup) (Hooked setup.middlewares) .init [.accept, .sweep 0] := by
  intro always
  have ran : (run (step setup) .init [.accept, .sweep 0]).map Server.log = some [.registered 0, .unregistered 0] := by
    simp [run_cons, step, accept, sweep, Server.init, Server.setPhase, Server.note, Server.unregisterSession, heartbeat]
  obtain ⟨last, ran, log⟩ := Option.map_eq_some_iff.mp ran
  have hooked := always.last ran
  rw [Hooked, log] at hooked
  have before := hooked [.registered 0] (.unregistered 0) [] rfl
  exact (setup.installed heartbeat).2 before.symm

end EchoStream.Core.SessionHooks
