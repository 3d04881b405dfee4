import Mathlib.Logic.Function.Basic
import Mathlib.Data.List.Perm.Basic
import EchoStream.Foundation.Run
import EchoStream.Foundation.Trace
import EchoStream.Proto.Messages

/-! The heartbeat plugin on the core server, the only one whose builder takes a
plugin. Its middleware writes a timestamp into the session on connecting and with
every heartbeat. Its sweep closes the sessions whose timestamp is too old or
missing. Timestamps are taken in one step and written in another, and the sweep
reads, closes and unregisters in steps of its own while sessions come and go. -/

namespace EchoStream.Plugins.Heartbeat
open Foundation.Run Foundation.Trace
open Proto.Messages

def heartbeatEvent : String := "__echostream.heartbeat"

abbrev Duration := Nat
abbrev Instant := Nat

structure HeartbeatServerPlugin where
  timeout : Duration
  interval : Duration

def HeartbeatServerPlugin.new (timeout : Duration) : HeartbeatServerPlugin := ⟨timeout, timeout / 3⟩

/-- `now.duration_since(last)` is zero where `last` is later. -/
def stale (timeout : Duration) (now : Instant) (lastSeen : Option Instant) : Bool :=
  match lastSeen with
  | some last => decide (timeout < now - last)
  | none => true

/-- The messages the middleware takes a timestamp for and does not pass on. -/
def isHeartbeat : Message → Bool
  | .event e => e.name == heartbeatEvent
  | _ => false

inductive Connect where
  | hooks
  | stamped (now : Instant)
  | hooked

/-- A sweep task. `scanning` has the sessions still to be looked at, `closing` and
`removing` have one that was found stale besides. -/
inductive Sweep where
  | absent
  | sleeping (deadline : Instant)
  | awake (now : Instant)
  | scanning (now : Instant) (todo : List Nat)
  | closing (now : Instant) (k : Nat) (todo : List Nat)
  | removing (now : Instant) (k : Nat) (todo : List Nat)

inductive Happening where
  | accepted (k : Nat) (time : Instant)
  | handled (k : Nat) (time : Instant)
  | closed (k : Nat) (now : Instant)
  | unregistered (k : Nat) (now : Instant)
deriving DecidableEq

/-- `handling` are the heartbeats whose timestamp is taken and not yet written. -/
structure Server where
  clock : Instant
  count : Nat
  sessions : List Nat
  accepting : Option (Nat × Connect)
  spawned : List Nat
  lastSeen : Nat → Option Instant
  handling : List (Nat × Instant)
  sweeps : Nat → Sweep
  log : List Happening

def Server.init (clock : Instant) : Server where
  clock := clock
  count := 0
  sessions := []
  accepting := none
  spawned := []
  lastSeen := fun _ => none
  handling := []
  sweeps := fun _ => .absent
  log := []

/-- The hooks of other middlewares and the hooks of the user take time and nothing
else. A session's loop may end whenever it runs. -/
inductive Label where
  | tick (passed : Duration)
  | accept
  | stampConnect
  | recordConnect
  | spawn
  | handle (k : Nat) (msg : Message)
  | record (i : Nat)
  | leave (k : Nat)
  | start (j : Nat)
  | wake (j : Nat)
  | list (j : Nat) (order : List Nat)
  | examine (j : Nat)
  | close (j : Nat)
  | unregister (j : Nat)
  | rest (j : Nat)

def Server.note (s : Server) (happening : Happening) : Server := { s with log := s.log ++ [happening] }

def Server.setSeen (s : Server) (k : Nat) (now : Instant) : Server :=
  { s with lastSeen := Function.update s.lastSeen k (some now) }

def Server.setSweep (s : Server) (j : Nat) (sweep : Sweep) : Server :=
  { s with sweeps := Function.update s.sweeps j sweep }

/-- The session is registered before its connect hooks are run. -/
def accept (s : Server) : Option Server :=
  match s.accepting with
  | none =>
      some { s.note (.accepted s.count s.clock) with
        count := s.count + 1, sessions := s.count :: s.sessions, accepting := some (s.count, .hooks) }
  | some _ => none

def stampConnect (s : Server) : Option Server :=
  match s.accepting with
  | some (k, .hooks) => some { s with accepting := some (k, .stamped s.clock) }
  | _ => none

def recordConnect (s : Server) : Option Server :=
  match s.accepting with
  | some (k, .stamped now) => some { s.setSeen k now with accepting := some (k, .hooked) }
  | _ => none

def spawn (s : Server) : Option Server :=
  match s.accepting with
  | some (k, .hooked) => some { s with accepting := none, spawned := k :: s.spawned }
  | _ => none

def handle (s : Server) (k : Nat) (msg : Message) : Option Server :=
  if k ∈ s.spawned then
    if isHeartbeat msg then some { s.note (.handled k s.clock) with handling := s.handling ++ [(k, s.clock)] }
    else some s
  else none

def record (s : Server) (i : Nat) : Option Server :=
  (s.handling[i]?).map (fun stamp => { s.setSeen stamp.1 stamp.2 with handling := s.handling.eraseIdx i })

def leave (s : Server) (k : Nat) : Option Server :=
  if k ∈ s.spawned then some { s with sessions := s.sessions.filter (fun other => other != k) } else none

/-- `on_start` spawns the task, which sleeps first. -/
def start (plugin : HeartbeatServerPlugin) (s : Server) (j : Nat) : Option Server :=
  match s.sweeps j with
  | .absent => some (s.setSweep j (.sleeping (s.clock + plugin.interval)))
  | _ => none

def wake (s : Server) (j : Nat) : Option Server :=
  match s.sweeps j with
  | .sleeping deadline => if deadline ≤ s.clock then some (s.setSweep j (.awake s.clock)) else none
  | _ => none

/-- The sessions come in any order. -/
def list (s : Server) (j : Nat) (order : List Nat) : Option Server :=
  match s.sweeps j with
  | .awake now => if order.isPerm s.sessions then some (s.setSweep j (.scanning now order)) else none
  | _ => none

def examine (plugin : HeartbeatServerPlugin) (s : Server) (j : Nat) : Option Server :=
  match s.sweeps j with
  | .scanning now (k :: todo) =>
      some (s.setSweep j (if stale plugin.timeout now (s.lastSeen k) then .closing now k todo else .scanning now todo))
  | _ => none

def close (s : Server) (j : Nat) : Option Server :=
  match s.sweeps j with
  | .closing now k todo => some ((s.setSweep j (.removing now k todo)).note (.closed k now))
  | _ => none

def unregister (s : Server) (j : Nat) : Option Server :=
  match s.sweeps j with
  | .removing now k todo =>
      some { (s.setSweep j (.scanning now todo)).note (.unregistered k now) with
        sessions := s.sessions.filter (fun other => other != k) }
  | _ => none

def rest (plugin : HeartbeatServerPlugin) (s : Server) (j : Nat) : Option Server :=
  match s.sweeps j with
  | .scanning _ [] => some (s.setSweep j (.sleeping (s.clock + plugin.interval)))
  | _ => none

def step (plugin : HeartbeatServerPlugin) : Step Server Label
  | s, .tick passed => some { s with clock := s.clock + passed }
  | s, .accept => accept s
  | s, .stampConnect => stampConnect s
  | s, .recordConnect => recordConnect s
  | s, .spawn => spawn s
  | s, .handle k msg => handle s k msg
  | s, .record i => record s i
  | s, .leave k => leave s k
  | s, .start j => start plugin s j
  | s, .wake j => wake s j
  | s, .list j order => list s j order
  | s, .examine j => examine plugin s j
  | s, .close j => close s j
  | s, .unregister j => unregister s j
  | s, .rest j => rest plugin s j

/-- The session was accepted or a heartbeat of it handled at the instant. -/
def Heard (k : Nat) (time : Instant) (log : List Happening) : Prop :=
  .accepted k time ∈ log ∨ .handled k time ∈ log

/-- All that was heard of the session is longer ago than the timeout. -/
def Silent (timeout : Duration) (now : Instant) (k : Nat) (log : List Happening) : Prop :=
  ∀ time, Heard k time log → timeout < now - time

def Allowed (timeout : Duration) (before : List Happening) : Happening → Prop
  | .closed k now => Silent timeout now k before
  | .unregistered k now => Silent timeout now k before
  | _ => True

/-- The sweeps close and unregister silent sessions only. -/
def Spared (timeout : Duration) (s : Server) : Prop := Ordered (Allowed timeout) s.log

/-- The session a sweep found stale and is not done with. -/
def Sweep.condemned : Sweep → Option (Instant × Nat)
  | closing now k _ => some (now, k)
  | removing now k _ => some (now, k)
  | _ => none

/-- A sweep looks at a session only when its timestamp shows whether it was heard of
within the timeout, and no heartbeat comes in between the look and the end of what follows. -/
def Careful (timeout : Duration) (s : Server) : Label → Prop
  | .examine j => ∀ now k todo, s.sweeps j = .scanning now (k :: todo) →
      ∀ time, Heard k time s.log → now - time ≤ timeout → ∃ last, s.lastSeen k = some last ∧ now - last ≤ timeout
  | .handle k msg => isHeartbeat msg = true → ∀ j now, (s.sweeps j).condemned ≠ some (now, k)
  | _ => True

/-- The sessions a sweep has in hand. -/
def Sweep.held : Sweep → List Nat
  | scanning _ todo => todo
  | closing _ k todo => k :: todo
  | removing _ k todo => k :: todo
  | _ => []

structure Sound (timeout : Duration) (s : Server) : Prop where
  spared : Spared timeout s
  listed : ∀ k ∈ s.sessions, k < s.count
  held : ∀ j, ∀ k ∈ (s.sweeps j).held, k < s.count
  condemned : ∀ j now k, (s.sweeps j).condemned = some (now, k) → Silent timeout now k s.log

variable {plugin : HeartbeatServerPlugin} {timeout : Duration} {s t : Server} {k j : Nat} {now : Instant}

theorem init_sound (timeout : Duration) (clock : Instant) : Sound timeout (.init clock) :=
  ⟨Ordered.nil, fun _ member => absurd member List.not_mem_nil, fun _ _ member => absurd member List.not_mem_nil,
    fun _ _ _ condemned => absurd condemned (Option.some_ne_none _).symm⟩

theorem Sweep.condemned_held {sweep : Sweep} (condemned : sweep.condemned = some (now, k)) : k ∈ sweep.held := by
  cases sweep with
  | closing since other todo =>
    cases condemned
    exact List.mem_cons_self
  | removing since other todo =>
    cases condemned
    exact List.mem_cons_self
  | absent => cases condemned
  | sleeping deadline => cases condemned
  | awake since => cases condemned
  | scanning since todo => cases condemned

/-- What is noted of other sessions, and what the sweeps do, is not heard of a session. -/
theorem Silent.note {log : List Happening} {happening : Happening} (silent : Silent timeout now k log)
    (accepted : ∀ time, happening ≠ .accepted k time) (handled : ∀ time, happening ≠ .handled k time) :
    Silent timeout now k (log ++ [happening]) := by
  intro time heard
  rcases heard with was | was
  · rcases List.mem_append.1 was with old | new
    · exact silent time (Or.inl old)
    · exact absurd (List.mem_singleton.1 new).symm (accepted time)
  · rcases List.mem_append.1 was with old | new
    · exact silent time (Or.inr old)
    · exact absurd (List.mem_singleton.1 new).symm (handled time)

theorem Sound.quiet (sound : Sound timeout s) (log : t.log = s.log) (count : t.count = s.count)
    (sessions : ∀ k ∈ t.sessions, k ∈ s.sessions) (sweeps : t.sweeps = s.sweeps) : Sound timeout t := by
  refine ⟨?_, fun k member => ?_, ?_, ?_⟩
  · rw [Spared, log]
    exact sound.spared
  · rw [count]
    exact sound.listed k (sessions k member)
  · rw [sweeps, count]
    exact sound.held
  · rw [sweeps, log]
    exact sound.condemned

theorem Sound.setSweep (sound : Sound timeout s) {sweep : Sweep} (held : ∀ k ∈ sweep.held, k < s.count)
    (condemned : ∀ now k, sweep.condemned = some (now, k) → Silent timeout now k s.log) :
    Sound timeout (s.setSweep j sweep) := by
  refine ⟨sound.spared, sound.listed, fun i k member => ?_, fun i now k found => ?_⟩
  · simp only [Server.setSweep, Function.update_apply] at member ⊢
    by_cases same : i = j
    · rw [if_pos same] at member
      exact held k member
    · rw [if_neg same] at member
      exact sound.held i k member
  · simp only [Server.setSweep, Function.update_apply] at found ⊢
    by_cases same : i = j
    · rw [if_pos same] at found
      exact condemned now k found
    · rw [if_neg same] at found
      exact sound.condemned i now k found

theorem Sound.note (sound : Sound timeout s) {happening : Happening} (allowed : Allowed timeout s.log happening)
    (accepted : ∀ j now k time, (s.sweeps j).condemned = some (now, k) → happening ≠ .accepted k time)
    (handled : ∀ j now k time, (s.sweeps j).condemned = some (now, k) → happening ≠ .handled k time) :
    Sound timeout (s.note happening) :=
  ⟨sound.spared.append allowed, sound.listed, sound.held, fun j now k condemned =>
    (sound.condemned j now k condemned).note (fun time => accepted j now k time condemned)
      (fun time => handled j now k time condemned)⟩

theorem accept_sound (sound : Sound timeout s) (stepped : accept s = some t) : Sound timeout t := by
  unfold accept at stepped
  split at stepped
  · cases stepped
    have noted : Sound timeout (s.note (.accepted s.count s.clock)) := by
      refine sound.note trivial (fun j now k time condemned same => ?_) (fun j now k time _ => Happening.noConfusion)
      -- A session that is held has an id already.
      have within := sound.held j k (Sweep.condemned_held condemned)
      rw [(Happening.accepted.inj same).1] at within
      exact Nat.lt_irrefl _ within
    refine ⟨noted.spared, fun k member => ?_, fun j k member => ?_, noted.condemned⟩
    · rcases List.mem_cons.1 member with new | old
      · rw [new]
        exact Nat.lt_succ_self _
      · exact Nat.lt_succ_of_lt (sound.listed k old)
    · exact Nat.lt_succ_of_lt (sound.held j k member)
  · cases stepped

theorem stampConnect_sound (sound : Sound timeout s) (stepped : stampConnect s = some t) : Sound timeout t := by
  unfold stampConnect at stepped
  split at stepped
  · cases stepped
    exact sound.quiet rfl rfl (fun _ member => member) rfl
  · cases stepped

theorem recordConnect_sound (sound : Sound timeout s) (stepped : recordConnect s = some t) : Sound timeout t := by
  unfold recordConnect at stepped
  split at stepped
  · cases stepped
    exact sound.quiet rfl rfl (fun _ member => member) rfl
  · cases stepped

theorem spawn_sound (sound : Sound timeout s) (stepped : spawn s = some t) : Sound timeout t := by
  unfold spawn at stepped
  split at stepped
  · cases stepped
    exact sound.quiet rfl rfl (fun _ member => member) rfl
  · cases stepped

theorem handle_sound {msg : Message} (sound : Sound timeout s) (careful : Careful timeout s (.handle k msg))
    (stepped : handle s k msg = some t) : Sound timeout t := by
  unfold handle at stepped
  split at stepped
  · split at stepped
    · rename_i heartbeat
      cases stepped
      have noted : Sound timeout (s.note (.handled k s.clock)) := by
        refine sound.note trivial (fun j now other time _ => Happening.noConfusion) (fun j now other time condemned same => ?_)
        rw [← (Happening.handled.inj same).1] at condemned
        exact careful heartbeat j now condemned
      exact noted.quiet rfl rfl (fun _ member => member) rfl
    · cases stepped
      exact sound
  · cases stepped

theorem record_sound {i : Nat} (sound : Sound timeout s) (stepped : record s i = some t) : Sound timeout t := by
  unfold record at stepped
  obtain ⟨stamp, _, rfl⟩ := Option.map_eq_some_iff.1 stepped
  exact sound.quiet rfl rfl (fun _ member => member) rfl

theorem leave_sound (sound : Sound timeout s) (stepped : leave s k = some t) : Sound timeout t := by
  unfold leave at stepped
  split at stepped
  · cases stepped
    exact sound.quiet rfl rfl (fun _ member => List.mem_of_mem_filter member) rfl
  · cases stepped

theorem start_sound (sound : Sound timeout s) (stepped : start plugin s j = some t) : Sound timeout t := by
  unfold start at stepped
  split at stepped
  · cases stepped
    exact sound.setSweep (fun _ member => absurd member List.not_mem_nil)
      (fun _ _ condemned => absurd condemned (Option.some_ne_none _).symm)
  · cases stepped

theorem wake_sound (sound : Sound timeout s) (stepped : wake s j = some t) : Sound timeout t := by
  unfold wake at stepped
  split at stepped
  · split at stepped
    · cases stepped
      exact sound.setSweep (fun _ member => absurd member List.not_mem_nil)
        (fun _ _ condemned => absurd condemned (Option.some_ne_none _).symm)
    · cases stepped
  · cases stepped

theorem list_sound {order : List Nat} (sound : Sound timeout s) (stepped : list s j order = some t) :
    Sound timeout t := by
  unfold list at stepped
  split at stepped
  · split at stepped
    · rename_i permuted
      cases stepped
      refine sound.setSweep (fun k member => ?_) (fun _ _ condemned => absurd condemned (Option.some_ne_none _).symm)
      exact sound.listed k ((List.isPerm_iff.1 permuted).mem_iff.1 member)
    · cases stepped
  · cases stepped

theorem examine_sound (sound : Sound plugin.timeout s) (careful : Careful plugin.timeout s (.examine j))
    (stepped : examine plugin s j = some t) : Sound plugin.timeout t := by
  unfold examine at stepped
  split at stepped
  · rename_i now k todo sweep
    cases stepped
    have held : ∀ other ∈ k :: todo, other < s.count := by
      have before := sound.held j
      rw [sweep] at before
      exact before
    by_cases found : stale plugin.timeout now (s.lastSeen k) = true
    · rw [if_pos found]
      refine sound.setSweep held (fun since other condemned => ?_)
      cases condemned
      intro time heard
      by_contra recent
      obtain ⟨last, seen, shown⟩ := careful now k todo sweep time heard (Nat.le_of_not_lt recent)
      rw [seen, stale, decide_eq_true_iff] at found
      exact Nat.not_lt_of_le shown found
    · rw [if_neg found]
      exact sound.setSweep (fun other member => held other (List.mem_cons_of_mem _ member))
        (fun _ _ condemned => absurd condemned (Option.some_ne_none _).symm)
  · cases stepped

theorem close_sound (sound : Sound timeout s) (stepped : close s j = some t) : Sound timeout t := by
  unfold close at stepped
  split at stepped
  · rename_i now k todo sweep
    cases stepped
    have silent := sound.condemned j now k (by rw [sweep]; rfl)
    have held := sound.held j
    rw [sweep] at held
    have moved : Sound timeout (s.setSweep j (.removing now k todo)) := by
      refine sound.setSweep held (fun since other condemned => ?_)
      cases condemned
      exact silent
    exact moved.note silent (fun _ _ _ _ _ => Happening.noConfusion) (fun _ _ _ _ _ => Happening.noConfusion)
  · cases stepped

theorem unregister_sound (sound : Sound timeout s) (stepped : unregister s j = some t) : Sound timeout t := by
  unfold unregister at stepped
  split at stepped
  · rename_i now k todo sweep
    cases stepped
    have silent := sound.condemned j now k (by rw [sweep]; rfl)
    have held := sound.held j
    rw [sweep] at held
    have moved : Sound timeout (s.setSweep j (.scanning now todo)) :=
      sound.setSweep (fun other member => held other (List.mem_cons_of_mem _ member))
        (fun _ _ condemned => absurd condemned (Option.some_ne_none _).symm)
    have noted : Sound timeout ((s.setSweep j (.scanning now todo)).note (.unregistered k now)) :=
      moved.note silent (fun _ _ _ _ _ => Happening.noConfusion) (fun _ _ _ _ _ => Happening.noConfusion)
    exact noted.quiet rfl rfl (fun _ member => List.mem_of_mem_filter member) rfl
  · cases stepped

theorem rest_sound (sound : Sound timeout s) (stepped : rest plugin s j = some t) : Sound timeout t := by
  unfold rest at stepped
  split at stepped
  · cases stepped
    exact sound.setSweep (fun _ member => absurd member List.not_mem_nil)
      (fun _ _ condemned => absurd condemned (Option.some_ne_none _).symm)
  · cases stepped

theorem step_sound (s : Server) (label : Label) (t : Server) (sound : Sound plugin.timeout s)
    (careful : Careful plugin.timeout s label) (stepped : step plugin s label = some t) : Sound plugin.timeout t := by
  cases label with
  | tick passed =>
    cases stepped
    exact sound.quiet rfl rfl (fun _ member => member) rfl
  | accept => exact accept_sound sound stepped
  | stampConnect => exact stampConnect_sound sound stepped
  | recordConnect => exact recordConnect_sound sound stepped
  | spawn => exact spawn_sound sound stepped
  | handle k msg => exact handle_sound sound careful stepped
  | record i => exact record_sound sound stepped
  | leave k => exact leave_sound sound stepped
  | start j => exact start_sound sound stepped
  | wake j => exact wake_sound sound stepped
  | list j order => exact list_sound sound stepped
  | examine j => exact examine_sound sound careful stepped
  | close j => exact close_sound sound stepped
  | unregister j => exact unregister_sound sound stepped
  | rest j => exact rest_sound sound stepped

/-- Where every look shows whether the session was heard of within the timeout, and
no heartbeat comes too late for the look, the sweeps spare all sessions that were. -/
theorem spared_of_careful (plugin : HeartbeatServerPlugin) (clock : Instant) (labels : List Label)
    (careful : Guarded (step plugin) (Careful plugin.timeout) (.init clock) labels) :
    Always (step plugin) (Spared plugin.timeout) (.init clock) labels := by
  have sound := guarded_always (fun s label t sound met stepped => step_sound s label t sound met stepped)
    (init_sound plugin.timeout clock) careful
  exact sound.mono (fun _ sound => sound.spared)

private def heartbeat : Message := .event ⟨1, heartbeatEvent, []⟩

private def sweptUp : List Label :=
  [.start 0, .accept, .stampConnect, .recordConnect, .spawn, .tick 4, .handle 0 heartbeat, .record 0, .tick 20, .wake 0,
    .list 0 [0], .examine 0, .close 0, .unregister 0, .rest 0]

theorem sweptUp_spared : Always (step (.new 12)) (Spared 12) (.init 0) sweptUp := by
  have careful : Guarded (step (.new 12)) (Careful 12) (.init 0) sweptUp := by
    refine Guarded.cons rfl trivial (Guarded.cons rfl trivial (Guarded.cons rfl trivial (Guarded.cons rfl trivial
      (Guarded.cons rfl trivial (Guarded.cons rfl trivial (Guarded.cons rfl ?_ (Guarded.cons rfl trivial
      (Guarded.cons rfl trivial (Guarded.cons rfl trivial (Guarded.cons rfl trivial (Guarded.cons rfl ?_
      (Guarded.cons rfl trivial (Guarded.cons rfl trivial (Guarded.cons rfl trivial trivial))))))))))))))
    · intro _ j now condemned
      have asleep : ∀ j, (Function.update (fun _ => Sweep.absent) 0 (.sleeping 4) j).condemned = none := by
        intro j
        rw [Function.update_apply]
        split <;> rfl
      exact absurd ((asleep j).symm.trans condemned) (Option.some_ne_none _).symm
    · intro now k todo scanning time heard recent
      cases scanning
      have times : time = 0 ∨ time = 4 := by
        rcases heard with accepted | handled
        · cases accepted with
          | head => exact Or.inl rfl
          | tail _ later => cases later with
            | tail _ later => cases later
        · cases handled with
          | tail _ later => cases later with
            | head => exact Or.inr rfl
            | tail _ later => cases later
      rcases times with rfl | rfl <;> exact absurd recent (by decide)
  exact spared_of_careful (.new 12) 0 sweptUp careful

/-- The sweep runs between the session's registration and its connect hook. -/
private def unstamped : List Label :=
  [.start 0, .tick 5, .accept, .wake 0, .list 0 [0], .examine 0, .close 0]

theorem unstamped_closed : ¬ ∀ labels, Always (step (.new 12)) (Spared 12) (.init 0) labels := by
  intro always
  have ran : (run (step (.new 12)) (.init 0) unstamped).map Server.log = some [.accepted 0 5, .closed 0 5] := rfl
  obtain ⟨last, ran, log⟩ := Option.map_eq_some_iff.1 ran
  have spared := (always unstamped).last ran
  rw [Spared, log] at spared
  have silent := spared [.accepted 0 5] (.closed 0 5) [] rfl
  exact absurd (silent 5 (Or.inl List.mem_cons_self)) (by decide)

end EchoStream.Plugins.Heartbeat
