import EchoStream.Transport.WsRouting

/-! Which frames a stream's handler is given, where no id is opened twice. -/

namespace EchoStream.Transport.WsStreams
open Foundation.Run
open Proto.Messages
open Core.Handler Core.Stream

variable {hasStream : String → Bool} {s t : Connection} {label : Label} {task : StreamTask}

/-- The streams whose open the loop read. -/
def opens (history : List Message) : List StreamOpenMsg :=
  history.filterMap fun msg =>
    match msg with
    | .streamOpen opened => some opened
    | _ => none

def sinceOpen (id : UInt64) : List Message → List Message
  | [] => []
  | .streamOpen opened :: rest => if opened.id = id then rest else sinceOpen id rest
  | _ :: rest => sinceOpen id rest

/-- The data frames that carry the id, from its open to its end. -/
def carried (id : UInt64) (history : List Message) : List StreamMsg :=
  framesOf ((sinceOpen id history).filter (belongs id))

theorem opens_append (history more : List Message) : opens (history ++ more) = opens history ++ opens more :=
  List.filterMap_append

theorem mem_opens {opened : StreamOpenMsg} {history : List Message} :
    opened ∈ opens history ↔ .streamOpen opened ∈ history := by
  rw [opens, List.mem_filterMap]
  constructor
  · rintro ⟨msg, member, same⟩
    split at same
    · cases same
      exact member
    · cases same
  · exact fun member => ⟨_, member, rfl⟩

theorem sinceOpen_of_distinct {opened : StreamOpenMsg} {before rest : List Message}
    (distinct : ((opens (before ++ .streamOpen opened :: rest)).map (·.id)).Nodup) :
    sinceOpen opened.id (before ++ .streamOpen opened :: rest) = rest := by
  induction before with
  | nil => exact if_pos rfl
  | cons msg before ih =>
    cases msg with
    | streamOpen other =>
      have apart : other.id ≠ opened.id := by
        intro same
        have fresh := (List.nodup_cons.1 distinct).1
        refine fresh (List.mem_map.2 ⟨opened, mem_opens.2 ?_, same.symm⟩)
        exact List.mem_append_right _ (List.mem_cons_self ..)
      exact (if_neg apart).trans (ih (List.nodup_cons.1 distinct).2)
    | _ => exact ih distinct

theorem Kept.carried_eq (kept : Kept s) (distinct : ((opens s.history).map (·.id)).Nodup) (member : task ∈ s.tasks) :
    carried task.opened.id s.history = framesOf (s.arrived task) := by
  obtain ⟨before, rest, read, since, -⟩ := kept task member
  rw [Connection.arrived, carried, since]
  rw [read] at distinct ⊢
  rw [sinceOpen_of_distinct distinct, List.append_cons, List.drop_left' (by simp)]

/-- With distinct ids, the streams that get a task are those whose name has a handler. -/
def Spawned (hasStream : String → Bool) (s : Connection) : Prop :=
  ((opens s.history).map (·.id)).Nodup →
    s.tasks.map (·.opened) = (opens s.history).filter (fun opened => hasStream opened.name)

theorem setTask_opened {i : Nat} (found : s.tasks[i]? = some task) {later : StreamTask} (same : later.opened = task.opened) :
    (s.setTask i later).tasks.map (·.opened) = s.tasks.map (·.opened) := by
  obtain ⟨within, here⟩ := List.getElem?_eq_some_iff.1 found
  have back := congrArg (List.map (·.opened)) (List.set_getElem_self within)
  rw [here, List.map_set] at back
  rw [Connection.setTask, List.map_set, same, back]

theorem route_opened (s : Connection) (id : UInt64) (msg : Message) :
    (s.route id msg).tasks.map (·.opened) = s.tasks.map (·.opened) := by
  unfold Connection.route
  split
  · split
    · rename_i task found
      exact setTask_opened found rfl
    · rfl
  · rfl

theorem openStream_opened (sound : Sound s) {opened : StreamOpenMsg}
    (fresh : ∀ task ∈ s.tasks, task.opened.id ≠ opened.id) :
    (s.openStream hasStream opened).tasks.map (·.opened) =
      s.tasks.map (·.opened) ++ [opened].filter (fun opened => hasStream opened.name) := by
  unfold Connection.openStream
  split
  · rename_i i entered
    obtain ⟨task, found, its, -⟩ := sound.entry opened.id i entered
    exact absurd its (fresh task (List.mem_of_getElem? found))
  · split
    · rename_i served
      rw [List.filter_cons, if_pos served]
      exact List.map_append
    · rename_i unserved
      rw [List.filter_cons, if_neg unserved]
      exact (List.append_nil _).symm

theorem Spawned.receive (spawned : Spawned hasStream s) (sound : Sound s) (msg : Message) :
    Spawned hasStream (s.receive hasStream msg) := by
  intro distinct
  rw [receive_history, opens_append] at distinct ⊢
  have earlier := spawned (distinct.sublist ((List.sublist_append_left _ _).map _))
  rw [List.filter_append, ← earlier]
  have others : opens [msg] = [] → (s.receive hasStream msg).tasks.map (·.opened) = s.tasks.map (·.opened) →
      (s.receive hasStream msg).tasks.map (·.opened) =
        s.tasks.map (·.opened) ++ (opens [msg]).filter (fun opened => hasStream opened.name) := by
    intro none same
    rw [none, same]
    exact (List.append_nil _).symm
  cases msg with
  | streamOpen opened =>
    refine openStream_opened (sound.history _) (fun task member same => ?_)
    have known : task.opened ∈ opens s.history := by
      have member : task.opened ∈ s.tasks.map (·.opened) := List.mem_map_of_mem member
      rw [earlier] at member
      exact List.mem_of_mem_filter member
    rw [List.map_append, List.nodup_append] at distinct
    exact distinct.2.2 _ (List.mem_map_of_mem known) opened.id (List.mem_singleton_self _) same
  | stream frame => exact others rfl (route_opened ..)
  | streamEnd e => exact others rfl (route_opened ..)
  | _ => exact others rfl rfl

theorem step_spawned (sound : Sound s) (spawned : Spawned hasStream s) (stepped : step hasStream s label = some t) :
    Spawned hasStream t := by
  cases step_effect stepped with
  | received reading => exact spawned.receive sound _
  | looped apart loop => exact spawned
  | moved found moves =>
    intro distinct
    rw [setTask_opened found moves.same.1.opened]
    exact spawned distinct
  | @removed i task found phase =>
    intro distinct
    have same : (s.setTask i { task with phase := .removed }).tasks.map (·.opened) = _ := setTask_opened found rfl
    exact same.trans (spawned distinct)

/-- If the task goes on with the act, it comes to a state with the property. -/
def Brings (hasStream : String → Bool) (s : Connection) (i : Nat) (what : Act) (holds : StreamTask → Prop) : Prop :=
  ∃ n t later, run (step hasStream) s (List.replicate n (.act i what)) = some t ∧ t.tasks[i]? = some later ∧ holds later

theorem Brings.now {i : Nat} {what : Act} {holds : StreamTask → Prop} (found : s.tasks[i]? = some task) (has : holds task) :
    Brings hasStream s i what holds :=
  ⟨0, s, task, rfl, found, has⟩

theorem Brings.after {i : Nat} {what : Act} {holds : StreamTask → Prop}
    (stepped : step hasStream s (.act i what) = some t) (brings : Brings hasStream t i what holds) :
    Brings hasStream s i what holds := by
  obtain ⟨n, last, later, ran, found, has⟩ := brings
  refine ⟨n + 1, last, later, ?_, found, has⟩
  rw [List.replicate_succ, run_cons, stepped]
  exact ran

theorem step_act {i : Nat} (found : s.tasks[i]? = some task) {what : Act} {later : StreamTask}
    (acted : task.act hasStream (s.orphaned i) what = some later) :
    step hasStream s (.act i what) = some (s.setTask i later) ∧ (s.setTask i later).tasks[i]? = some later := by
  constructor
  · simp only [step, found, acted, Option.map_some]
  · rw [getElem_setTask found, if_pos rfl]

/-- How many frames a handler has not been given of those that were handed to its task. -/
def StreamTask.left (task : StreamTask) (r : Receiver) : Nat := task.queue.length + r.pending.toList.length

theorem recv_more (hasStream : String → Bool) (orphaned : Bool) {r : Receiver} (phase : task.phase = .handling r)
    (live : r.ended = false) (more : r.pending ≠ none ∨ task.queue ≠ []) :
    ∃ later r', task.act hasStream orphaned .recv = some later ∧ later.phase = .handling r' ∧ later.left r' < task.left r := by
  cases pending : r.pending with
  | some first =>
    refine ⟨{ task with phase := .handling { r with pending := none }, received := task.received ++ [first] }, _, ?_, rfl, ?_⟩
    · simp only [StreamTask.act, phase, live, pending, Bool.false_eq_true, if_false]
    · simp only [StreamTask.left, pending]
      simp
  | none =>
    cases queue : task.queue with
    | nil =>
      rw [pending, queue] at more
      exact absurd (more.resolve_left (fun some => some rfl)) (fun some => some rfl)
    | cons msg rest =>
      obtain ⟨-, handling, left⟩ := recvPass_same { task with queue := rest } r (readQueue msg)
      refine ⟨_, _, ?_, handling, ?_⟩
      · simp only [StreamTask.act, phase, live, pending, StreamTask.readMessage, queue, Bool.false_eq_true, if_false,
          Option.map_some]
      · simp only [StreamTask.left, left, take_pending, queue, List.length_cons]
        omega

theorem recv_once (hasStream : String → Bool) (orphaned : Bool) (routed : Routed task) {r : Receiver}
    (phase : task.phase = .handling r) :
    task.received = framesOf task.routed ∨
      ∃ later r', task.act hasStream orphaned .recv = some later ∧ later.phase = .handling r' ∧
        later.left r' < task.left r := by
  obtain ⟨-, going, closed⟩ := routed.staged phase
  cases ended : r.ended with
  | true => exact .inl (closed ended).frames.symm
  | false =>
    by_cases more : r.pending ≠ none ∨ task.queue ≠ []
    · exact .inr (recv_more hasStream orphaned phase ended more)
    · rw [not_or, not_not, not_not] at more
      have frames := (going ended).2.frames
      rw [more.1, more.2, Option.toList_none, List.append_nil, framesOf, List.append_nil] at frames
      exact .inl frames.symm

theorem reads_all (tracked : Tracked s) {i : Nat} (found : s.tasks[i]? = some task) {r : Receiver}
    (phase : task.phase = .handling r) :
    Brings hasStream s i .recv (fun later => later.opened = task.opened ∧ later.received = framesOf (s.arrived task)) := by
  induction size : task.left r using Nat.strong_induction_on generalizing s task r with
  | _ n ih =>
    have member := List.mem_of_getElem? found
    have arrived := (tracked.kept.arrived member).2 (present_handling phase)
    rcases recv_once hasStream (s.orphaned i) (tracked.sound.routed task member) phase with
      all | ⟨later, r', acted, handling, less⟩
    · exact .now found ⟨rfl, by rw [all, arrived]⟩
    · obtain ⟨stepped, there⟩ := step_act found acted
      have same := (act_moves acted).same.1
      have brings := ih _ (size ▸ less) (step_tracked tracked stepped) there handling rfl
      have still : (s.setTask i later).arrived later = s.arrived task := by
        simp only [Connection.arrived, Connection.setTask, same.since, same.opened]
      rw [still, same.opened] at brings
      exact brings.after stepped

theorem Brings.mono {i : Nat} {what : Act} {holds weaker : StreamTask → Prop} (implies : ∀ task, holds task → weaker task)
    (brings : Brings hasStream s i what holds) : Brings hasStream s i what weaker := by
  obtain ⟨n, t, later, ran, found, has⟩ := brings
  exact ⟨n, t, later, ran, found, implies later has⟩

theorem reads_end (tracked : Tracked s) {i : Nat} (found : s.tasks[i]? = some task) {r : Receiver}
    (phase : task.phase = .handling r) (ends : firstEnd (s.arrived task) ≠ none) :
    Brings hasStream s i .recv (fun later =>
      later.received = framesOf (s.arrived task) ∧ ∃ r', later.phase = .handling r' ∧ r'.ended = true) := by
  induction size : task.left r using Nat.strong_induction_on generalizing s task r with
  | _ n ih =>
    have member := List.mem_of_getElem? found
    have arrived := (tracked.kept.arrived member).2 (present_handling phase)
    obtain ⟨-, going, closed⟩ := (tracked.sound.routed task member).staged phase
    cases ended : r.ended with
    | true => exact .now found ⟨by rw [← arrived, (closed ended).frames], r, phase, ended⟩
    | false =>
      have queued : task.queue ≠ [] := by
        intro nothing
        have same := (going ended).2.ends
        rw [arrived, nothing] at same
        exact ends same
      obtain ⟨later, r', acted, handling, less⟩ := recv_more hasStream (s.orphaned i) phase ended (.inr queued)
      obtain ⟨stepped, there⟩ := step_act found acted
      have same := (act_moves acted).same.1
      have still : (s.setTask i later).arrived later = s.arrived task := by
        simp only [Connection.arrived, Connection.setTask, same.since, same.opened]
      have brings := ih _ (size ▸ less) (step_tracked tracked stepped) there handling (still ▸ ends) rfl
      rw [still] at brings
      exact brings.after stepped

theorem look_once (hasStream : String → Bool) (orphaned : Bool) (routed : Routed task) (phase : task.phase = .awaiting)
    (frames : framesOf task.routed ≠ []) :
    ∃ later, task.act hasStream orphaned .look = some later ∧
      ((later.dispatched = true ∧ ∃ first, later.phase = .chain first) ∨
        later.phase = .awaiting ∧ later.dispatched = false ∧ later.queue.length < task.queue.length) := by
  obtain ⟨undispatched, -, taken⟩ := routed.staged phase
  rw [taken.frames, List.nil_append] at frames
  cases queue : task.queue with
  | nil =>
    rw [queue] at frames
    exact absurd rfl frames
  | cons msg rest =>
    have acted : task.act hasStream orphaned .look =
        some (StreamTask.firstFrame { task with queue := rest } (readQueue msg)) := by
      simp only [StreamTask.act, phase, StreamTask.readMessage, queue, Option.map_some]
    refine ⟨_, acted, ?_⟩
    have own := routed.own msg (by rw [queue]; exact List.mem_cons_self ..)
    cases msg with
    | stream frame =>
      have its : frame.id = task.opened.id := of_decide_eq_true own
      refine .inl ?_
      simp only [StreamTask.firstFrame, readQueue, if_pos its, true_and]
      exact ⟨frame, rfl⟩
    | streamEnd e =>
      rw [queue] at frames
      exact absurd rfl frames
    | streamOpen opened => exact .inr ⟨phase, undispatched, by simp [StreamTask.firstFrame, readQueue]⟩
    | _ => cases own

theorem Tracked.awaits (tracked : Tracked s) (member : task ∈ s.tasks) (undispatched : task.dispatched = false)
    (frames : framesOf (s.arrived task) ≠ []) : task.phase = .awaiting := by
  have routed := tracked.sound.routed task member
  obtain ⟨handed, -⟩ := tracked.kept.arrived member
  have more_to_come : ¬ Over task [] := by
    intro closed
    obtain ⟨more, same⟩ := handed
    rw [← same, framesOf_append, if_neg closed.ends, List.append_nil] at frames
    exact frames closed.frames
  cases phase : task.phase with
  | awaiting => rfl
  | chain first => exact Bool.noConfusion (undispatched.symm.trans (routed.staged phase).1)
  | handling r => exact Bool.noConfusion (undispatched.symm.trans (routed.staged phase).1)
  | leaving => exact absurd ((routed.staged phase).2 undispatched) more_to_come
  | removed => exact absurd ((routed.staged phase).2 undispatched) more_to_come

theorem looks_up (tracked : Tracked s) {i : Nat} (found : s.tasks[i]? = some task) (undispatched : task.dispatched = false)
    (frames : framesOf (s.arrived task) ≠ []) :
    Brings hasStream s i .look (fun later =>
      later.opened = task.opened ∧ later.dispatched = true ∧ ∃ first, later.phase = .chain first) := by
  induction size : task.queue.length using Nat.strong_induction_on generalizing s task with
  | _ n ih =>
    have member := List.mem_of_getElem? found
    have awaits := tracked.awaits member undispatched frames
    have whole := (tracked.kept.arrived member).2 (present_awaiting awaits)
    obtain ⟨later, acted, goes⟩ := look_once hasStream (s.orphaned i) (tracked.sound.routed task member) awaits
      (whole ▸ frames)
    obtain ⟨stepped, there⟩ := step_act found acted
    have same := (act_moves acted).same.1
    rcases goes with ⟨dispatched, chained⟩ | ⟨-, undispatched, less⟩
    · exact (Brings.now there ⟨same.opened, dispatched, chained⟩).after stepped
    · have still : (s.setTask i later).arrived later = s.arrived task := by
        simp only [Connection.arrived, Connection.setTask, same.since, same.opened]
      have brings := ih _ (size ▸ less) (step_tracked tracked stepped) there undispatched (still ▸ frames) rfl
      rw [same.opened] at brings
      exact brings.after stepped

/-- Each stream of a connection whose ids are distinct is apart from the others: its
handler is given its own frames in order, all that came if it goes on reading. -/
theorem streams_apart {hasStream : String → Bool} {s : Connection} (reached : Reachable (step hasStream) .init s)
    (distinct : ((opens s.history).map (·.id)).Nodup) :
    s.tasks.map (·.opened) = (opens s.history).filter (fun opened => hasStream opened.name) ∧
    ∀ i task, s.tasks[i]? = some task →
      task.received <+: carried task.opened.id s.history ∧
      (task.dispatched = true → carried task.opened.id s.history ≠ []) ∧
      (task.dispatched = false → carried task.opened.id s.history ≠ [] →
        Brings hasStream s i .look (fun later => later.opened = task.opened ∧ later.dispatched = true)) ∧
      ∀ r, task.phase = .handling r → Brings hasStream s i .recv (fun later =>
        later.opened = task.opened ∧ later.received = carried task.opened.id s.history) := by
  have keeps : ∀ s label t, Tracked s ∧ Spawned hasStream s → step hasStream s label = some t →
      Tracked t ∧ Spawned hasStream t := by
    rintro s label t ⟨tracked, spawned⟩ stepped
    exact ⟨step_tracked tracked stepped, step_spawned tracked.sound spawned stepped⟩
  obtain ⟨tracked, spawned⟩ := reached.invariant ⟨Tracked.init, fun _ => rfl⟩ keeps
  refine ⟨spawned distinct, fun i task found => ?_⟩
  have member := List.mem_of_getElem? found
  have routed := tracked.sound.routed task member
  have handed : framesOf task.routed <+: framesOf (s.arrived task) := by
    obtain ⟨more, same⟩ := (tracked.kept.arrived member).1
    rw [← same]
    exact framesOf_prefix _ _
  rw [tracked.kept.carried_eq distinct member]
  refine ⟨routed.received_prefix.trans handed, fun dispatched nothing => ?_,
    fun undispatched frames => (looks_up tracked found undispatched frames).mono (fun _ has => ⟨has.1, has.2.1⟩),
    fun r => reads_all tracked found⟩
  rw [nothing, List.prefix_nil] at handed
  exact routed.shown dispatched handed

def twoStreams : List Label :=
  [.receive (.streamOpen ⟨1, "file", []⟩), .receive (.streamOpen ⟨2, "log", []⟩), .receive (.stream ⟨1, 0, ⟨0⟩, [5]⟩),
    .receive (.stream ⟨2, 0, ⟨0⟩, [6]⟩), .act 1 .look, .act 1 (.enter ⟨2, "log", []⟩), .act 1 .recv]

theorem streams_apart_two :
    ∃ s task, run (step (fun _ => true)) .init twoStreams = some s ∧ s.tasks[1]? = some task ∧
      task.received = [⟨2, 0, ⟨0⟩, [6]⟩] ∧ task.received <+: carried 2 s.history := by
  have apart := fun s (ran : run (step (fun _ => true)) .init twoStreams = some s) => streams_apart ⟨twoStreams, ran⟩
  exact ⟨_, _, rfl, rfl, rfl, ((apart _ rfl (by decide)).2 1 _ rfl).1⟩

end EchoStream.Transport.WsStreams
