import EchoStream.Transport.WsStreamFrames

/-! One stream over a WebSocket, with whatever the tasks of the connection do between its
frames. Once the loop has read them all the task of the stream has its handler read them
and come to the end, if it does not give up. -/

namespace EchoStream.Transport.WsStreams
open Foundation.Run
open Proto.Messages
open Core.Handler Core.Stream

/-- What the loop gets in a step: a message, or that the connection is over. -/
def tells : Label → Option (Option Message)
  | .receive msg => some (some msg)
  | .lost => some none
  | _ => none

/-- Going on by itself, the task has its handler read these payloads and then the end. -/
def Finishes (hasStream : String → Bool) (s : Connection) (i : Nat) (payloads : List Bytes) : Prop :=
  ∃ labels t task r, (∀ label ∈ labels, ∃ what, label = .act i what) ∧ run (step hasStream) s labels = some t ∧
    t.tasks[i]? = some task ∧ task.phase = .handling r ∧ r.ended = true ∧ task.received.map (·.data) = payloads

/-- The loop reads on. The task is that of the stream, its handler has been given nothing
but the payloads in order, and it finishes unless it is left by the handler or a middleware. -/
structure Carried (hasStream : String → Bool) (i : Nat) (name : String) (payloads : List Bytes) (s : Connection) : Prop where
  serves : s.loop = .reading
  carries : ∃ task, s.tasks[i]? = some task ∧ task.opened.name = name ∧
    task.received.map (·.data) <+: payloads ∧
    match task.phase with
    | .leaving | .removed => task.dispatched = true
    | _ => Finishes hasStream s i payloads

/-- A frame of the stream after its open. -/
inductive Follows (id : UInt64) : Message → Prop
  | stream (frame) (own : frame.id = id) : Follows id (.stream frame)
  | streamEnd (e) (own : e.id = id) : Follows id (.streamEnd e)

/-- After the loop has heard these messages, of which the first opens the stream. -/
structure Hearing (c : Connection) (opened : StreamOpenMsg) (heard : List Message) (s : Connection) : Prop where
  tracked : Tracked s
  going : s.loop ≠ .ended
  history : s.history = c.history ++ heard
  before : heard = [] → s.streams.lookup opened.id = none ∧ s.tasks.length = c.tasks.length
  after : heard ≠ [] → s.loop = .reading ∧
    ∃ task, s.tasks[c.tasks.length]? = some task ∧ task.opened = opened ∧ task.since = c.history.length + 1

variable {hasStream : String → Bool} {s t c : Connection} {label : Label} {task : StreamTask} {opened : StreamOpenMsg}
  {heard rest : List Message} {payloads : List Bytes}

theorem Hearing.setTask (hearing : Hearing c opened heard s) {i : Nat} (found : s.tasks[i]? = some task) (later : StreamTask)
    (same : later.opened = task.opened ∧ later.since = task.since) (tracked : Tracked t) (loop : t.loop = s.loop)
    (history : t.history = s.history ++ rest) (tasks : t.tasks = s.tasks.set i later)
    (streams : s.streams.lookup opened.id = none → t.streams.lookup opened.id = none)
    (quiet : rest = [] ∨ heard ≠ []) : Hearing c opened (heard ++ rest) t where
  tracked := tracked
  going := by
    rw [loop]
    exact hearing.going
  history := by rw [history, hearing.history, List.append_assoc]
  before nothing := by
    rw [List.append_eq_nil_iff] at nothing
    obtain ⟨absent, count⟩ := hearing.before nothing.1
    exact ⟨streams absent, by rw [tasks, List.length_set, count]⟩
  after some := by
    have heard_some : heard ≠ [] := by
      intro nothing
      rw [nothing, List.nil_append] at some
      rcases quiet with none_more | earlier
      · exact some none_more
      · exact earlier nothing
    obtain ⟨reading, own, there, its, since⟩ := hearing.after heard_some
    refine ⟨loop.trans reading, ?_⟩
    by_cases here : i = c.tasks.length
    · rw [← here, found] at there
      cases there
      refine ⟨later, ?_, same.1.trans its, same.2.trans since⟩
      rw [tasks, ← here]
      exact List.getElem?_set_self (List.getElem?_eq_some_iff.1 found).1
    · refine ⟨own, ?_, its, since⟩
      rw [tasks, List.getElem?_set_ne here]
      exact there

theorem Hearing.start (tracked : Tracked c) (going : c.loop ≠ .ended) (fresh : c.streams.lookup opened.id = none) :
    Hearing c opened [] c :=
  ⟨tracked, going, (List.append_nil _).symm, fun _ => ⟨fresh, rfl⟩, fun some => absurd rfl some⟩

theorem Hearing.quiet (hearing : Hearing c opened heard s) (stepped : step hasStream s label = some t)
    (nothing : tells label = none) : Hearing c opened heard t := by
  have tracked := step_tracked hearing.tracked stepped
  cases label with
  | receive msg => cases nothing
  | lost => cases nothing
  | returned =>
    rw [step] at stepped
    split at stepped
    · rename_i handling
      cases stepped
      refine ⟨tracked, LoopPhase.noConfusion, hearing.history, hearing.before, fun some => ?_⟩
      have reading := (hearing.after some).1
      rw [handling] at reading
      cases reading
    · cases stepped
  | act i what =>
    rw [step] at stepped
    split at stepped
    · rename_i task found
      obtain ⟨later, acted, rfl⟩ := Option.map_eq_some_iff.1 stepped
      have same := (act_moves acted).same.1
      have set := hearing.setTask found later ⟨same.opened, same.since⟩ tracked rfl (List.append_nil _).symm rfl id (.inl rfl)
      rwa [List.append_nil] at set
    · cases stepped
  | remove i =>
    rw [step] at stepped
    split at stepped
    · rename_i task found
      split at stepped
      · cases stepped
        have erased : s.streams.lookup opened.id = none → (s.streams.erase task.opened.id).lookup opened.id = none := by
          intro absent
          by_cases own : opened.id = task.opened.id
          · rw [own, AList.lookup_erase]
          · rw [AList.lookup_erase_ne own, absent]
        have set := hearing.setTask found { task with phase := .removed } ⟨rfl, rfl⟩ tracked rfl (List.append_nil _).symm rfl
          erased (.inl rfl)
        rwa [List.append_nil] at set
      · cases stepped
    · cases stepped

theorem Hearing.opens (hearing : Hearing c opened [] s) (registered : hasStream opened.name = true)
    (stepped : step hasStream s (.receive (.streamOpen opened)) = some t) : Hearing c opened [.streamOpen opened] t := by
  have tracked := step_tracked hearing.tracked stepped
  obtain ⟨absent, count⟩ := hearing.before rfl
  rw [step] at stepped
  split at stepped
  · rename_i reading
    cases stepped
    have made : s.receive hasStream (.streamOpen opened) =
        { s with
          history := s.history ++ [.streamOpen opened]
          streams := s.streams.insert opened.id s.tasks.length
          tasks := s.tasks ++ [.new opened (s.history ++ [Message.streamOpen opened]).length] } := by
      simp only [Connection.receive, Connection.openStream, absent, registered, if_true]
    have history : (s.receive hasStream (.streamOpen opened)).history = c.history ++ [.streamOpen opened] := by
      rw [receive_history, hearing.history, List.append_nil]
    refine ⟨tracked, ?_, history, (fun nothing => absurd nothing (List.cons_ne_nil _ _)),
      fun _ => ⟨?_, .new opened (c.history.length + 1), ?_, rfl, rfl⟩⟩
    · rw [made]
      exact hearing.going
    · rw [made]
      exact reading
    · rw [made, hearing.history, List.append_nil, List.length_append, ← count]
      exact List.getElem?_concat_length
  · cases stepped

theorem Hearing.follows (hearing : Hearing c opened heard s) (opens : heard ≠ []) {msg : Message}
    (own : Follows opened.id msg) (stepped : step hasStream s (.receive msg) = some t) :
    Hearing c opened (heard ++ [msg]) t := by
  have tracked := step_tracked hearing.tracked stepped
  rw [step] at stepped
  split at stepped
  · cases stepped
    have routed : s.receive hasStream msg = Connection.route { s with history := s.history ++ [msg] } opened.id msg := by
      cases own with
      | stream frame own => rw [← own]; rfl
      | streamEnd e own => rw [← own]; rfl
    rw [routed] at tracked ⊢
    cases entered : s.streams.lookup opened.id with
    | none =>
      have same : Connection.route { s with history := s.history ++ [msg] } opened.id msg =
          { s with history := s.history ++ [msg] } := by
        simp only [Connection.route, entered]
      rw [same] at tracked ⊢
      refine ⟨tracked, hearing.going, ?_, fun nothing => ?_, fun _ => hearing.after opens⟩
      · rw [hearing.history, List.append_assoc]
      · exact absurd (List.append_eq_nil_iff.1 nothing).1 opens
    | some i =>
      obtain ⟨task, found, -⟩ := hearing.tracked.sound.entry opened.id i entered
      have handed : Connection.route { s with history := s.history ++ [msg] } opened.id msg =
          Connection.setTask { s with history := s.history ++ [msg] } i (task.hand msg) := by
        simp only [Connection.route, entered, found]
      rw [handed] at tracked ⊢
      exact hearing.setTask found (task.hand msg) ⟨rfl, rfl⟩ tracked rfl rfl rfl id (.inr opens)
  · cases stepped

/-- A run in which the loop hears an open and what follows it. -/
theorem Hearing.follow_all {body : List Message} (own : ∀ msg ∈ body, Follows opened.id msg)
    (registered : hasStream opened.name = true)
    {labels : List Label} (hearing : Hearing c opened heard s) (ran : run (step hasStream) s labels = some t)
    (told : labels.filterMap tells = rest.map some) (along : heard ++ rest <+: .streamOpen opened :: body) :
    Hearing c opened (heard ++ rest) t := by
  induction labels generalizing s heard rest with
  | nil =>
    cases ran
    have nothing : rest = [] := List.map_eq_nil_iff.1 told.symm
    rwa [nothing, List.append_nil]
  | cons label labels ih =>
    obtain ⟨next, stepped, after⟩ := run_cons_some ran
    cases hears : tells label with
    | none =>
      rw [List.filterMap_cons_none hears] at told
      exact ih (hearing.quiet stepped hears) after told along
    | some got =>
      rw [List.filterMap_cons_some hears] at told
      cases rest with
      | nil => cases told
      | cons msg rest =>
        rw [List.map_cons, List.cons.injEq] at told
        obtain ⟨rfl, told⟩ := told
        obtain rfl : label = .receive msg := by
          cases label <;> cases hears
          rfl
        have next_heard : Hearing c opened (heard ++ [msg]) next := by
          by_cases opens : heard = []
          · subst opens
            obtain rfl : msg = .streamOpen opened := by
              rw [List.nil_append, List.cons_prefix_cons] at along
              exact along.1
            exact hearing.opens registered stepped
          · refine hearing.follows opens (own msg ?_) stepped
            obtain ⟨first, earlier, rfl⟩ := List.exists_cons_of_ne_nil opens
            rw [List.cons_append, List.cons_prefix_cons] at along
            exact along.2.subset (List.mem_append_right _ (List.mem_cons_self ..))
        have later := ih next_heard after told (by rwa [List.append_assoc, List.singleton_append])
        rwa [List.append_assoc, List.singleton_append] at later

theorem route_rest (s : Connection) (id : UInt64) (msg : Message) :
    (s.route id msg).loop = s.loop ∧ (s.route id msg).streams = s.streams ∧ (s.route id msg).tasks.length = s.tasks.length := by
  unfold Connection.route
  split
  · split
    · exact ⟨rfl, rfl, List.length_set⟩
    · exact ⟨rfl, rfl, rfl⟩
  · exact ⟨rfl, rfl, rfl⟩

/-- Frames of streams do not keep the loop from reading. -/
theorem receive_loop (hasStream : String → Bool) (s : Connection) {msg : Message}
    (follows : msg = .streamOpen opened ∨ Follows opened.id msg) : (s.receive hasStream msg).loop = s.loop := by
  rcases follows with rfl | ⟨frame, -⟩ | ⟨e, -⟩
  · simp only [Connection.receive]
    unfold Connection.openStream
    split
    · exact (route_rest ..).1
    · split <;> rfl
  · exact (route_rest ..).1
  · exact (route_rest ..).1

/-- The tasks from the number on have not dispatched their streams. -/
def Untouched (n : Nat) (s : Connection) : Prop := ∀ i task, s.tasks[i]? = some task → n ≤ i → task.dispatched = false

theorem untouched_length (s : Connection) : Untouched s.tasks.length s := by
  intro i task there from_n
  have within := (List.getElem?_eq_some_iff.1 there).1
  omega

theorem Untouched.route {n : Nat} (untouched : Untouched n s) (id : UInt64) (msg : Message) : Untouched n (s.route id msg) := by
  unfold Connection.route
  split
  · rename_i i entered
    split
    · rename_i task found
      intro j later there from_n
      rw [getElem_setTask found] at there
      split at there
      · rename_i here
        cases there
        exact untouched i task found (by rw [here]; exact from_n)
      · exact untouched j later there from_n
    · exact untouched
  · exact untouched

theorem Untouched.receive {n : Nat} (untouched : Untouched n s) {msg : Message}
    (follows : msg = .streamOpen opened ∨ Follows opened.id msg) : Untouched n (s.receive hasStream msg) := by
  have noted : Untouched n { s with history := s.history ++ [msg] } := untouched
  rcases follows with rfl | ⟨frame, -⟩ | ⟨e, -⟩
  · simp only [Connection.receive]
    unfold Connection.openStream
    split
    · exact noted.route _ _
    · split
      · intro i task there from_n
        rw [List.getElem?_append] at there
        split at there
        · exact untouched i task there from_n
        · rw [List.getElem?_singleton] at there
          split at there
          · cases there
            rfl
          · cases there
      · exact noted
  · exact noted.route _ _
  · exact noted.route _ _

/-- There is a stream with the id, and this many tasks. -/
def Occupied (id : UInt64) (n : Nat) (s : Connection) : Prop := (∃ i, s.streams.lookup id = some i) ∧ s.tasks.length = n

theorem Occupied.route {id : UInt64} {n : Nat} (occupied : Occupied id n s) (own : UInt64) (msg : Message) :
    Occupied id n (s.route own msg) := by
  obtain ⟨-, streams, count⟩ := route_rest s own msg
  exact ⟨by rw [streams]; exact occupied.1, by rw [count]; exact occupied.2⟩

theorem Occupied.receive {n : Nat} (occupied : Occupied opened.id n s) {msg : Message}
    (follows : msg = .streamOpen opened ∨ Follows opened.id msg) : Occupied opened.id n (s.receive hasStream msg) := by
  have noted : Occupied opened.id n { s with history := s.history ++ [msg] } := occupied
  rcases follows with rfl | ⟨frame, -⟩ | ⟨e, -⟩
  · obtain ⟨i, entered⟩ := occupied.1
    simp only [Connection.receive, Connection.openStream, entered]
    exact noted.route _ _
  · exact noted.route _ _
  · exact noted.route _ _

/-- The loop can hear them, without a task doing anything. -/
theorem hears_all {holds : Connection → Prop} (returns : ∀ s, holds s → holds { s with loop := .reading })
    (keeps : ∀ s msg, (msg = .streamOpen opened ∨ Follows opened.id msg) → holds s → holds (s.receive hasStream msg))
    (msgs : List Message) (follow : ∀ msg ∈ msgs, msg = .streamOpen opened ∨ Follows opened.id msg)
    (going : s.loop ≠ .ended) (start : holds s) :
    ∃ labels t, run (step hasStream) s labels = some t ∧ labels.filterMap tells = msgs.map some ∧ t.loop = .reading ∧ holds t := by
  have reads : ∀ s : Connection, s.loop = .reading → holds s →
      ∃ labels t, run (step hasStream) s labels = some t ∧ labels.filterMap tells = msgs.map some ∧ t.loop = .reading ∧ holds t := by
    induction msgs with
    | nil => exact fun s reading held => ⟨[], s, rfl, rfl, reading, held⟩
    | cons msg rest ih =>
      intro s reading held
      have first := follow msg (List.mem_cons_self ..)
      obtain ⟨labels, t, ran, told, last⟩ := ih (fun msg member => follow msg (List.mem_cons_of_mem _ member)) _
        ((receive_loop hasStream s first).trans reading) (keeps s msg first held)
      refine ⟨.receive msg :: labels, t, ?_, congrArg _ told, last⟩
      rw [run_cons, step, if_pos reading]
      exact ran
  cases loop : s.loop with
  | reading => exact reads s loop start
  | ended => exact absurd loop going
  | handling =>
    obtain ⟨labels, t, ran, told, last⟩ := reads { s with loop := .reading } rfl (returns s start)
    refine ⟨.returned :: labels, t, ?_, told, last⟩
    rw [run_cons, step, if_pos loop]
    exact ran

/-- A stream that the connection can be without when these messages were heard is not
always carried, nor is it if the connection is over then. -/
theorem not_always_carried {holds : Connection → Prop} (returns : ∀ s, holds s → holds { s with loop := .reading })
    (keeps : ∀ s msg, (msg = .streamOpen opened ∨ Follows opened.id msg) → holds s → holds (s.receive hasStream msg))
    {msgs : List Message} (follow : ∀ msg ∈ msgs, msg = .streamOpen opened ∨ Follows opened.id msg)
    (going : s.loop ≠ .ended) (start : holds s) {i : Nat} {name : String}
    (without : ∀ labels t, run (step hasStream) s labels = some t → labels.filterMap tells = msgs.map some → holds t →
      ¬ Carried hasStream i name payloads t)
    {told : List (Option Message)} (all : told = msgs.map some ∨ told = msgs.map some ++ [none]) :
    ¬ ∀ labels t, run (step hasStream) s labels = some t → labels.filterMap tells = told → Carried hasStream i name payloads t := by
  intro carried
  obtain ⟨labels, t, ran, heard, reading, held⟩ := hears_all returns keeps msgs follow going start
  rcases all with rfl | rfl
  · exact without labels t ran heard held (carried labels t ran heard)
  · have lost : run (step hasStream) s (labels ++ [.lost]) = some { t with loop := .ended } := by
      rw [run_append, ran, Option.bind_some, run_cons, step, if_pos reading]
      rfl
    have ended := (carried _ _ lost (by rw [List.filterMap_append, heard]; rfl)).serves
    cases ended

theorem Hearing.acts (hearing : Hearing c opened heard s) {i : Nat} {labels : List Label}
    (acts : ∀ label ∈ labels, ∃ what, label = .act i what) (ran : run (step hasStream) s labels = some t) :
    Hearing c opened heard t := by
  induction labels generalizing s with
  | nil =>
    cases ran
    exact hearing
  | cons label labels ih =>
    obtain ⟨next, stepped, after⟩ := run_cons_some ran
    obtain ⟨⟨what, rfl⟩, others⟩ := List.forall_mem_cons.1 acts
    exact ih (hearing.quiet stepped rfl) others after

/-- All that followed the open has come for the task. -/
theorem Hearing.arrived {body : List Message} (own : ∀ msg ∈ body, Follows opened.id msg)
    (hearing : Hearing c opened (.streamOpen opened :: body) s) (found : s.tasks[c.tasks.length]? = some task) :
    task.opened = opened ∧ s.arrived task = body := by
  obtain ⟨-, other, there, its, since⟩ := hearing.after (List.cons_ne_nil _ _)
  rw [found] at there
  cases there
  refine ⟨its, ?_⟩
  rw [Connection.arrived, hearing.history, since, its, List.append_cons, List.drop_left' (by simp), List.filter_eq_self]
  intro msg member
  cases own msg member with
  | stream frame own => exact decide_eq_true own
  | streamEnd e own => exact decide_eq_true own

theorem Hearing.not_finishes {body : List Message} (own : ∀ msg ∈ body, Follows opened.id msg)
    (hearing : Hearing c opened (.streamOpen opened :: body) s) (endless : firstEnd body = none) :
    ¬ Finishes hasStream s c.tasks.length payloads := by
  rintro ⟨labels, t, task, r, acts, ran, found, phase, ended, -⟩
  have after := hearing.acts acts ran
  have member := List.mem_of_getElem? found
  have closed := ((after.tracked.sound.routed task member).staged phase).2.2 ended
  have all := (after.tracked.kept.arrived member).2 (present_handling phase)
  have ends := closed.ends
  rw [all, (after.arrived own found).2] at ends
  exact ends endless

theorem Hearing.not_carried {body : List Message} (own : ∀ msg ∈ body, Follows opened.id msg)
    (hearing : Hearing c opened (.streamOpen opened :: body) s) (endless : firstEnd body = none) {name : String}
    (untouched : Untouched c.tasks.length s) : ¬ Carried hasStream c.tasks.length name payloads s := by
  rintro ⟨-, task, found, -, -, goes⟩
  have undispatched := untouched _ task found (Nat.le_refl _)
  split at goes
  · rw [undispatched] at goes
    cases goes
  · rw [undispatched] at goes
    cases goes
  · exact hearing.not_finishes own endless goes

theorem Finishes.after {i : Nat} {labels : List Label} (acts : ∀ label ∈ labels, ∃ what, label = .act i what)
    (ran : run (step hasStream) s labels = some t) (finishes : Finishes hasStream t i payloads) :
    Finishes hasStream s i payloads := by
  obtain ⟨more, u, task, r, others, goes, rest⟩ := finishes
  refine ⟨labels ++ more, u, task, r, List.forall_mem_append.2 ⟨acts, others⟩, ?_, rest⟩
  rw [run_append, ran]
  exact goes

section Whole

variable {body : List Message} (own : ∀ msg ∈ body, Follows opened.id msg)
  (hearing : Hearing c opened (.streamOpen opened :: body) s) (ends : firstEnd body ≠ none)
include own hearing ends

theorem Hearing.reads (found : s.tasks[c.tasks.length]? = some task) {r : Receiver} (phase : task.phase = .handling r) :
    Finishes hasStream s c.tasks.length ((framesOf body).map (·.data)) := by
  have arrived := (hearing.arrived own found).2
  obtain ⟨n, t, later, ran, there, received, r', handling, ended⟩ : Brings hasStream s c.tasks.length .recv _ :=
    reads_end hearing.tracked found phase (by rwa [arrived])
  refine ⟨List.replicate n (.act c.tasks.length .recv), t, later, r', ?_, ran, there, handling, ended, ?_⟩
  · intro label member
    exact ⟨.recv, List.eq_of_mem_replicate member⟩
  · rw [received, arrived]

theorem Hearing.enters (registered : hasStream opened.name = true) (found : s.tasks[c.tasks.length]? = some task)
    {first : StreamMsg} (phase : task.phase = .chain first) :
    Finishes hasStream s c.tasks.length ((framesOf body).map (·.data)) := by
  have acted : task.act hasStream (s.orphaned c.tasks.length) (.enter opened) =
      some { task with phase := .handling (.new ⟨[], first, opened.metadata, opened.name⟩) } := by
    rw [StreamTask.act, phase]
    exact if_pos registered
  obtain ⟨stepped, there⟩ := step_act found acted
  have runs : ∀ {t}, step hasStream s (.act c.tasks.length (.enter opened)) = some t →
      run (step hasStream) s [.act c.tasks.length (.enter opened)] = some t := by
    intro t stepped
    rw [run_cons, stepped]
    rfl
  have acts : ∀ label ∈ [Label.act c.tasks.length (.enter opened)], ∃ what, label = .act c.tasks.length what :=
    fun label member => ⟨_, List.mem_singleton.1 member⟩
  exact ((hearing.acts acts (runs stepped)).reads own ends there rfl).after acts (runs stepped)

theorem Hearing.looks (registered : hasStream opened.name = true) (found : s.tasks[c.tasks.length]? = some task)
    (undispatched : task.dispatched = false) (frames : framesOf body ≠ []) :
    Finishes hasStream s c.tasks.length ((framesOf body).map (·.data)) := by
  have arrived := (hearing.arrived own found).2
  obtain ⟨n, t, later, ran, there, -, -, first, phase⟩ : Brings hasStream s c.tasks.length .look _ :=
    looks_up hearing.tracked found undispatched (by rwa [arrived])
  have acts : ∀ label ∈ List.replicate n (Label.act c.tasks.length .look), ∃ what, label = .act c.tasks.length what :=
    fun label member => ⟨.look, List.eq_of_mem_replicate member⟩
  exact ((hearing.acts acts ran).enters own ends registered there phase).after acts ran

theorem Hearing.carried (registered : hasStream opened.name = true) (frames : framesOf body ≠ []) :
    Carried hasStream c.tasks.length opened.name ((framesOf body).map (·.data)) s := by
  obtain ⟨reading, task, found, its, -⟩ := hearing.after (List.cons_ne_nil _ _)
  have member := List.mem_of_getElem? found
  have arrived := (hearing.arrived own found).2
  have routed := hearing.tracked.sound.routed task member
  have handed : framesOf task.routed <+: framesOf body := by
    obtain ⟨more, same⟩ := (hearing.tracked.kept.arrived member).1
    rw [← arrived, ← same]
    exact framesOf_prefix _ _
  have left : (task.phase = .leaving ∨ task.phase = .removed) → task.dispatched = true := by
    intro gone
    by_contra undispatched
    have awaits := hearing.tracked.awaits member (Bool.eq_false_iff.2 undispatched) (by rwa [arrived])
    rw [awaits] at gone
    rcases gone with leaving | removed
    · cases leaving
    · cases removed
  refine ⟨reading, task, found, by rw [its], (routed.received_prefix.trans handed).map _, ?_⟩
  split
  · rename_i leaving
    exact left (.inl leaving)
  · rename_i removed
    exact left (.inr removed)
  · rename_i other others
    cases phase : task.phase with
    | awaiting => exact hearing.looks own ends registered found (routed.staged phase).1 frames
    | chain first => exact hearing.enters own ends registered found phase
    | handling r => exact hearing.reads own ends found phase
    | leaving => exact absurd phase other
    | removed => exact absurd phase others

end Whole

end EchoStream.Transport.WsStreams
