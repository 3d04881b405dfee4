import EchoStream.Transport.WsStreams

/-! What the table, the queues and the tasks have to do with the frames that came in.
A task was handed the frames of its stream that were read since it was made, and
all it does follows from these, as its queue never loses its last sender. -/

namespace EchoStream.Transport.WsStreams
open Foundation.Run
open Proto.Messages
open Core.Handler Core.Stream

variable {hasStream : String → Bool} {s t : Connection} {label : Label}

def framesOf : List Message → List StreamMsg
  | [] => []
  | .stream frame :: rest => frame :: framesOf rest
  | .streamEnd _ :: _ => []
  | _ :: rest => framesOf rest

def firstEnd : List Message → Option StreamEndMsg
  | [] => none
  | .streamEnd e :: _ => some e
  | _ :: rest => firstEnd rest

/-- A frame of the stream, or another open of its id. -/
def belongs (id : UInt64) : Message → Bool
  | .streamOpen opened => opened.id = id
  | .stream frame => frame.id = id
  | .streamEnd e => e.id = id
  | _ => false

theorem framesOf_append (msgs more : List Message) :
    framesOf (msgs ++ more) = framesOf msgs ++ if firstEnd msgs = none then framesOf more else [] := by
  induction msgs with
  | nil => rfl
  | cons msg rest ih =>
    cases msg with
    | stream frame => exact congrArg (frame :: ·) ih
    | streamEnd e => rfl
    | _ => exact ih

theorem firstEnd_append (msgs more : List Message) : firstEnd (msgs ++ more) = (firstEnd msgs).or (firstEnd more) := by
  induction msgs with
  | nil => rfl
  | cons msg rest ih =>
    cases msg with
    | streamEnd e => rfl
    | _ => exact ih

theorem framesOf_prefix (msgs more : List Message) : framesOf msgs <+: framesOf (msgs ++ more) := by
  rw [framesOf_append]
  exact List.prefix_append _ _

/-- The frames `front` of what was handed to the task are taken, the others are in
its queue. -/
structure Taken (task : StreamTask) (front : List StreamMsg) : Prop where
  frames : framesOf task.routed = front ++ framesOf task.queue
  ends : firstEnd task.routed = firstEnd task.queue

/-- The frames are all there are, an end came after them. -/
structure Over (task : StreamTask) (frames : List StreamMsg) : Prop where
  frames : framesOf task.routed = frames
  ends : firstEnd task.routed ≠ none

variable {task : StreamTask} {front : List StreamMsg}

theorem Taken.hand (taken : Taken task front) (msg : Message) : Taken (task.hand msg) front where
  frames := by
    simp only [StreamTask.hand, framesOf_append, taken.frames, taken.ends, List.append_assoc]
  ends := by
    simp only [StreamTask.hand, firstEnd_append, taken.ends]

theorem Over.hand (closed : Over task front) (msg : Message) : Over (task.hand msg) front where
  frames := by
    rw [StreamTask.hand, framesOf_append, if_neg closed.ends, List.append_nil, closed.frames]
  ends := by
    rw [StreamTask.hand, firstEnd_append]
    cases first : firstEnd task.routed with
    | none => exact absurd first closed.ends
    | some e => exact Option.some_ne_none e

/-- How far a task has come with the frames that were handed to it. -/
def Stage (task : StreamTask) : Phase → Prop
  | .awaiting => task.dispatched = false ∧ task.received = [] ∧ Taken task []
  | .chain first => task.dispatched = true ∧ task.received = [] ∧ first.id = task.opened.id ∧ Taken task [first]
  | .handling r =>
      task.dispatched = true ∧
      (r.ended = false → r.id = task.opened.id ∧ Taken task (task.received ++ r.pending.toList)) ∧
      (r.ended = true → Over task task.received)
  | .leaving | .removed =>
      task.received <+: framesOf task.routed ∧ (task.dispatched = false → Over task [])

/-- A receiver over a queue has no end information: the queue reports no end frame. -/
def Uninformed (task : StreamTask) : Prop :=
  ∀ r, task.phase = .handling r → r.endCode = 0 ∧ r.endMessage = none ∧ r.endMetadata = []

structure Routed (task : StreamTask) : Prop where
  own : ∀ msg ∈ task.queue, belongs task.opened.id msg = true
  stage : Stage task task.phase
  shown : task.dispatched = true → framesOf task.routed ≠ []
  uninformed : Uninformed task

theorem Routed.staged (routed : Routed task) {phase : Phase} (here : task.phase = phase) : Stage task phase :=
  here ▸ routed.stage

theorem Routed.new (opened : StreamOpenMsg) (since : Nat) : Routed (.new opened since) where
  own _ member := by cases member
  stage := ⟨rfl, rfl, rfl, rfl⟩
  shown := Bool.noConfusion
  uninformed _ phase := by cases phase

theorem Stage.hand {phase : Phase} (stage : Stage task phase) (msg : Message) : Stage (task.hand msg) phase := by
  have front : framesOf task.routed <+: framesOf (task.hand msg).routed := framesOf_prefix _ _
  cases phase with
  | awaiting => exact ⟨stage.1, stage.2.1, stage.2.2.hand msg⟩
  | chain first => exact ⟨stage.1, stage.2.1, stage.2.2.1, stage.2.2.2.hand msg⟩
  | handling r =>
    exact ⟨stage.1, fun live => ⟨(stage.2.1 live).1, (stage.2.1 live).2.hand msg⟩, fun closed => (stage.2.2 closed).hand msg⟩
  | leaving => exact ⟨stage.1.trans front, fun undispatched => (stage.2 undispatched).hand msg⟩
  | removed => exact ⟨stage.1.trans front, fun undispatched => (stage.2 undispatched).hand msg⟩

theorem Routed.hand (routed : Routed task) {msg : Message} (own : belongs task.opened.id msg = true) :
    Routed (task.hand msg) where
  own other member := by
    rcases List.mem_append.1 member with old | new
    · exact routed.own other old
    · rw [List.mem_singleton] at new
      rw [new]
      exact own
  stage := routed.stage.hand msg
  shown dispatched nothing := by
    have front : framesOf task.routed <+: framesOf (task.hand msg).routed := framesOf_prefix _ _
    rw [nothing, List.prefix_nil] at front
    exact routed.shown dispatched front
  uninformed := routed.uninformed

theorem readMessage_held {result : Result (Option Message)} {rest : StreamTask}
    (read : task.readMessage false = some (result, rest)) :
    ∃ msg queue, task.queue = msg :: queue ∧ result = readQueue msg ∧ rest = { task with queue } := by
  unfold StreamTask.readMessage at read
  split at read
  · rename_i msg queue same
    cases read
    exact ⟨msg, queue, same, rfl, rfl⟩
  · cases read

/-- Taking a frame of the stream, its end, or another open of its id. -/
inductive Next (task : StreamTask) (front : List StreamMsg) (msg : Message) (queue : List Message) : Prop
  | stream (frame) (same : msg = .stream frame) (own : frame.id = task.opened.id)
      (taken : ∀ phase dispatched received,
        Taken { task with queue, phase, dispatched, received } (front ++ [frame]))
  | streamEnd (e) (same : msg = .streamEnd e) (closed : ∀ phase dispatched received,
      Over { task with queue, phase, dispatched, received } front)
  | streamOpen (opened) (same : msg = .streamOpen opened) (taken : ∀ phase dispatched received,
      Taken { task with queue, phase, dispatched, received } front)

theorem Taken.next (taken : Taken task front) {msg : Message} {queue : List Message} (next : task.queue = msg :: queue)
    (own : belongs task.opened.id msg = true) : Next task front msg queue := by
  obtain ⟨frames, ends⟩ := taken
  rw [next] at frames ends
  cases msg with
  | stream frame =>
    refine .stream frame rfl (by simpa [belongs] using own) (fun _ _ _ => ⟨?_, ends⟩)
    rw [List.append_assoc]
    exact frames
  | streamEnd e =>
    refine .streamEnd e rfl (fun _ _ _ => ⟨frames.trans (List.append_nil front), ?_⟩)
    rw [ends]
    exact Option.some_ne_none e
  | streamOpen opened => exact .streamOpen opened rfl (fun _ _ _ => ⟨frames, ends⟩)
  | _ => cases own

theorem Routed.look (routed : Routed task) (phase : task.phase = .awaiting) {result : Result (Option Message)}
    {rest : StreamTask} (read : task.readMessage false = some (result, rest)) : Routed (rest.firstFrame result) := by
  obtain ⟨msg, queue, next, rfl, rfl⟩ := readMessage_held read
  have own := routed.own
  rw [next] at own
  have later := fun other member => own other (List.mem_cons_of_mem _ member)
  obtain ⟨undispatched, untold, taken⟩ := routed.staged phase
  cases taken.next next (own msg (List.mem_cons_self ..)) with
  | stream frame same its taken =>
    subst same
    have found : StreamTask.firstFrame { task with queue } (readQueue (.stream frame)) =
        { task with queue, phase := .chain frame, dispatched := true } := by
      simp only [StreamTask.firstFrame, readQueue, if_pos its]
    rw [found]
    refine ⟨later, ⟨rfl, untold, its, taken ..⟩, fun _ nothing => ?_, fun _ same => by cases same⟩
    rw [(taken (.chain frame) true task.received).frames] at nothing
    cases nothing
  | streamEnd e same closed =>
    subst same
    have none_yet : task.received <+: framesOf task.routed := by
      rw [untold]
      exact List.nil_prefix
    exact ⟨later, ⟨none_yet, fun _ => closed ..⟩, routed.shown, fun _ same => by cases same⟩
  | streamOpen opened same taken =>
    subst same
    have still : Stage { task with queue } task.phase := by
      rw [phase]
      exact ⟨undispatched, untold, taken ..⟩
    exact ⟨later, still, routed.shown, routed.uninformed⟩

theorem Routed.recv (routed : Routed task) {r : Receiver} (phase : task.phase = .handling r) (live : r.ended = false)
    (pending : r.pending = none) {result : Result (Option Message)} {rest : StreamTask}
    (read : task.readMessage false = some (result, rest)) : Routed (rest.recvPass r result) := by
  obtain ⟨msg, queue, next, rfl, rfl⟩ := readMessage_held read
  have own := routed.own
  rw [next] at own
  have later := fun other member => own other (List.mem_cons_of_mem _ member)
  obtain ⟨dispatched, going, -⟩ := routed.staged phase
  obtain ⟨its, taken⟩ := going live
  have info := routed.uninformed r phase
  rw [pending, Option.toList_none, List.append_nil] at taken
  cases taken.next next (own msg (List.mem_cons_self ..)) with
  | stream frame same of_stream taken =>
    subst same
    have got : StreamTask.recvPass { task with queue } r (readQueue (.stream frame)) =
        { task with queue, phase := .handling r, received := task.received ++ [frame] } := by
      simp only [StreamTask.recvPass, readQueue, Receiver.take, if_pos (of_stream.trans its.symm)]
    rw [got]
    refine ⟨later, ⟨dispatched, fun _ => ⟨its, ?_⟩, fun closed => ?_⟩, routed.shown, fun _ same => by cases same; exact info⟩
    · rw [pending, Option.toList_none, List.append_nil]
      exact taken ..
    · rw [live] at closed
      cases closed
  | streamEnd e same closed =>
    subst same
    refine ⟨later, ⟨dispatched, fun going => ?_, fun _ => closed ..⟩, routed.shown, fun _ same => by cases same; exact info⟩
    exact Bool.noConfusion (going : true = false)
  | streamOpen opened same taken =>
    subst same
    refine ⟨later, ⟨dispatched, fun _ => ⟨its, ?_⟩, fun closed => ?_⟩, routed.shown, fun _ same => by cases same; exact info⟩
    · rw [pending, Option.toList_none, List.append_nil]
      exact taken ..
    · change r.ended = true at closed
      rw [live] at closed
      cases closed

theorem Routed.received_prefix (routed : Routed task) : task.received <+: framesOf task.routed := by
  cases phase : task.phase with
  | awaiting =>
    rw [(routed.staged phase).2.1]
    exact List.nil_prefix
  | chain first =>
    rw [(routed.staged phase).2.1]
    exact List.nil_prefix
  | handling r =>
    obtain ⟨-, going, closed⟩ := routed.staged phase
    cases ended : r.ended with
    | false =>
      rw [(going ended).2.frames, List.append_assoc]
      exact List.prefix_append _ _
    | true => exact (closed ended).frames ▸ List.prefix_rfl
  | leaving => exact (routed.staged phase).1
  | removed => exact (routed.staged phase).1

/-- A task does with the frames handed to it what it should, as long as its queue
has a sender. -/
theorem Routed.moves (routed : Routed task) {what : Act} {later : StreamTask} (moves : Moves false task what later) :
    Routed later := by
  cases moves with
  | looked phase read => exact routed.look phase read
  | told => exact routed
  | @entered first opened phase =>
    obtain ⟨dispatched, untold, its, taken⟩ := routed.staged phase
    refine ⟨routed.own, ⟨dispatched, fun _ => ⟨its, ?_⟩, fun closed => by cases closed⟩, routed.shown, ?_⟩
    · rw [untold]
      exact ⟨taken.frames, taken.ends⟩
    · intro r same
      cases same
      exact ⟨rfl, rfl, rfl⟩
  | @first r first phase live pending =>
    obtain ⟨dispatched, going, -⟩ := routed.staged phase
    obtain ⟨its, taken⟩ := going live
    rw [pending] at taken
    refine ⟨routed.own, ⟨dispatched, fun _ => ⟨its, ?_⟩, fun closed => ?_⟩, routed.shown, ?_⟩
    · refine ⟨taken.frames.trans ?_, taken.ends⟩
      simp
    · change r.ended = true at closed
      rw [live] at closed
      cases closed
    · intro other same
      cases same
      exact routed.uninformed r phase
  | received phase live taken read => exact routed.recv phase live taken read
  | left apart dispatched =>
    have was : task.dispatched = true := by
      rcases dispatched with ⟨first, phase⟩ | ⟨r, phase⟩
      · exact (routed.staged phase).1
      · exact (routed.staged phase).1
    refine ⟨routed.own, ⟨routed.received_prefix, fun undispatched => ?_⟩, routed.shown, fun _ same => by cases same⟩
    exact Bool.noConfusion (was.symm.trans undispatched)

/-- What the task does not touch of its own. -/
structure SameStream (task later : StreamTask) : Prop where
  opened : later.opened = task.opened
  since : later.since = task.since
  routed : later.routed = task.routed

theorem SameStream.refl (task : StreamTask) : SameStream task task := ⟨rfl, rfl, rfl⟩

theorem SameStream.trans {task later last : StreamTask} (first : SameStream task later) (second : SameStream later last) :
    SameStream task last :=
  ⟨second.opened.trans first.opened, second.since.trans first.since, second.routed.trans first.routed⟩

theorem readMessage_same {orphaned : Bool} {result : Result (Option Message)} {rest : StreamTask}
    (read : task.readMessage orphaned = some (result, rest)) : SameStream task rest ∧ rest.phase = task.phase := by
  unfold StreamTask.readMessage at read
  split at read
  · cases read
    exact ⟨⟨rfl, rfl, rfl⟩, rfl⟩
  · split at read
    · cases read
      exact ⟨.refl task, rfl⟩
    · cases read

theorem firstFrame_same (phase : task.phase = .awaiting) (result : Result (Option Message)) :
    SameStream task (task.firstFrame result) ∧ (task.firstFrame result).phase ≠ .removed ∧
      ∀ r, (task.firstFrame result).phase ≠ .handling r := by
  have still : task.phase ≠ .removed ∧ ∀ r, task.phase ≠ .handling r := by
    rw [phase]
    exact ⟨Phase.noConfusion, fun _ => Phase.noConfusion⟩
  unfold StreamTask.firstFrame
  split
  · split
    · exact ⟨⟨rfl, rfl, rfl⟩, Phase.noConfusion, fun _ => Phase.noConfusion⟩
    · exact ⟨.refl task, still⟩
  · split
    · exact ⟨⟨rfl, rfl, rfl⟩, Phase.noConfusion, fun _ => Phase.noConfusion⟩
    · exact ⟨.refl task, still⟩
  · exact ⟨.refl task, still⟩
  · exact ⟨⟨rfl, rfl, rfl⟩, Phase.noConfusion, fun _ => Phase.noConfusion⟩
  · exact ⟨⟨rfl, rfl, rfl⟩, Phase.noConfusion, fun _ => Phase.noConfusion⟩

theorem recvPass_same (task : StreamTask) (r : Receiver) (result : Result (Option Message)) :
    SameStream task (task.recvPass r result) ∧ (task.recvPass r result).phase = .handling (r.take result).2 ∧
      (task.recvPass r result).queue = task.queue := by
  unfold StreamTask.recvPass
  dsimp only
  split <;> exact ⟨⟨rfl, rfl, rfl⟩, rfl, rfl⟩

theorem take_pending (r : Receiver) (result : Result (Option Message)) : (r.take result).2.pending = r.pending := by
  unfold Receiver.take
  split
  · rfl
  · split <;> rfl
  · split <;> rfl
  · rfl
  · rfl

theorem present_awaiting (phase : task.phase = .awaiting) : task.phase ≠ .removed := by
  rw [phase]
  exact Phase.noConfusion

theorem present_chain {first : StreamMsg} (phase : task.phase = .chain first) : task.phase ≠ .removed := by
  rw [phase]
  exact Phase.noConfusion

theorem present_handling {r : Receiver} (phase : task.phase = .handling r) : task.phase ≠ .removed := by
  rw [phase]
  exact Phase.noConfusion

theorem Moves.same {orphaned : Bool} {what : Act} {later : StreamTask} (moves : Moves orphaned task what later) :
    SameStream task later ∧ task.phase ≠ .removed ∧ later.phase ≠ .removed := by
  cases moves with
  | @looked result rest phase read =>
    obtain ⟨same, awaits⟩ := readMessage_same read
    obtain ⟨then_same, stays, -⟩ := firstFrame_same (awaits.trans phase) result
    exact ⟨same.trans then_same, present_awaiting phase, stays⟩
  | @received r result rest phase live taken read =>
    obtain ⟨same, -⟩ := readMessage_same read
    obtain ⟨then_same, handling, -⟩ := recvPass_same rest r result
    exact ⟨same.trans then_same, present_handling phase, present_handling handling⟩
  | entered phase => exact ⟨⟨rfl, rfl, rfl⟩, present_chain phase, Phase.noConfusion⟩
  | told phase closed => exact ⟨.refl task, present_handling phase, present_handling phase⟩
  | first phase => exact ⟨⟨rfl, rfl, rfl⟩, present_handling phase, Phase.noConfusion⟩
  | left apart dispatched =>
    rcases dispatched with ⟨first, phase⟩ | ⟨r, phase⟩
    · exact ⟨⟨rfl, rfl, rfl⟩, present_chain phase, Phase.noConfusion⟩
    · exact ⟨⟨rfl, rfl, rfl⟩, present_handling phase, Phase.noConfusion⟩

/-- The table has exactly the tasks that are not removed. -/
structure Sound (s : Connection) : Prop where
  routed : ∀ task ∈ s.tasks, Routed task
  entry : ∀ id i, s.streams.lookup id = some i →
    ∃ task, s.tasks[i]? = some task ∧ task.opened.id = id ∧ task.phase ≠ .removed
  held : ∀ i task, s.tasks[i]? = some task → task.phase ≠ .removed → s.streams.lookup task.opened.id = some i

theorem getElem_setTask {i : Nat} {before : StreamTask} (found : s.tasks[i]? = some before) (task : StreamTask) (j : Nat) :
    (s.setTask i task).tasks[j]? = if i = j then some task else s.tasks[j]? := by
  have within := (List.getElem?_eq_some_iff.1 found).1
  rw [Connection.setTask, List.getElem?_set]
  simp only [within, if_true]

/-- The queue of a task that is not removed has a sender, whether the connection
is lost or not. -/
theorem Sound.not_orphaned (sound : Sound s) {i : Nat} (found : s.tasks[i]? = some task) (stays : task.phase ≠ .removed) :
    s.orphaned i = false := by
  have entry := AList.mem_lookup_iff.1 (sound.held i task found stays)
  rw [Connection.orphaned, List.all_eq_false]
  exact ⟨_, entry, by simp⟩

theorem Sound.setTask (sound : Sound s) {i : Nat} (found : s.tasks[i]? = some task) {later : StreamTask}
    (same : later.opened = task.opened) (routed : Routed later) (going : task.phase ≠ .removed)
    (stays : later.phase ≠ .removed) : Sound (s.setTask i later) where
  routed other member := by
    rcases List.mem_or_eq_of_mem_set member with old | rfl
    · exact sound.routed other old
    · exact routed
  entry id j entered := by
    obtain ⟨other, there, its, present⟩ := sound.entry id j entered
    rw [getElem_setTask found]
    by_cases here : i = j
    · subst here
      rw [found] at there
      cases there
      exact ⟨later, if_pos rfl, by rw [same, its], stays⟩
    · exact ⟨other, by rw [if_neg here, there], its, present⟩
  held j other there present := by
    rw [getElem_setTask found] at there
    by_cases here : i = j
    · subst here
      rw [if_pos rfl] at there
      cases there
      rw [same]
      exact sound.held i task found going
    · rw [if_neg here] at there
      exact sound.held j other there present

theorem Sound.route (sound : Sound s) (id : UInt64) {msg : Message} (own : belongs id msg = true) :
    Sound (s.route id msg) := by
  unfold Connection.route
  split
  · rename_i i entered
    split
    · rename_i task found
      obtain ⟨other, there, its, present⟩ := sound.entry id i entered
      rw [found] at there
      cases there
      have routed := sound.routed task (List.mem_of_getElem? found)
      exact sound.setTask found rfl (routed.hand (by rw [its, own])) present present
    · exact sound
  · exact sound

theorem Sound.spawn (sound : Sound s) (opened : StreamOpenMsg) (since : Nat) (absent : s.streams.lookup opened.id = none) :
    Sound { s with
      streams := s.streams.insert opened.id s.tasks.length
      tasks := s.tasks ++ [.new opened since] } where
  routed task member := by
    rcases List.mem_append.1 member with old | new
    · exact sound.routed task old
    · rw [List.mem_singleton] at new
      rw [new]
      exact Routed.new opened since
  entry id i entered := by
    by_cases same : id = opened.id
    · rw [same, AList.lookup_insert] at entered
      cases entered
      exact ⟨_, List.getElem?_concat_length, same.symm, Phase.noConfusion⟩
    · rw [AList.lookup_insert_ne same] at entered
      obtain ⟨task, there, its, present⟩ := sound.entry id i entered
      have within := (List.getElem?_eq_some_iff.1 there).1
      exact ⟨task, by rw [List.getElem?_append_left within, there], its, present⟩
  held i task there stays := by
    rcases Nat.lt_or_ge i s.tasks.length with old | beyond
    · rw [List.getElem?_append_left old] at there
      have entered := sound.held i task there stays
      have apart : task.opened.id ≠ opened.id := by
        intro same
        rw [same, absent] at entered
        cases entered
      rw [AList.lookup_insert_ne apart, entered]
    · rw [List.getElem?_append_right beyond, List.getElem?_singleton] at there
      split at there
      · rename_i last
        cases there
        rw [StreamTask.new, AList.lookup_insert, Nat.le_antisymm (Nat.le_of_sub_eq_zero last) beyond]
      · cases there

theorem Sound.openStream (sound : Sound s) (hasStream : String → Bool) (opened : StreamOpenMsg) :
    Sound (s.openStream hasStream opened) := by
  unfold Connection.openStream
  split
  · exact sound.route opened.id (by simp [belongs])
  · rename_i absent
    split
    · exact sound.spawn opened s.history.length absent
    · exact sound

theorem Sound.remove (sound : Sound s) {i : Nat} (found : s.tasks[i]? = some task) (phase : task.phase = .leaving) :
    Sound { s.setTask i { task with phase := .removed } with streams := s.streams.erase task.opened.id } := by
  have going : task.phase ≠ .removed := by
    rw [phase]
    exact Phase.noConfusion
  have entered := sound.held i task found going
  constructor
  · intro other member
    rcases List.mem_or_eq_of_mem_set member with old | rfl
    · exact sound.routed other old
    · have routed := sound.routed task (List.mem_of_getElem? found)
      obtain ⟨front, all⟩ := routed.staged phase
      exact ⟨routed.own, ⟨front, fun undispatched => ⟨(all undispatched).frames, (all undispatched).ends⟩⟩,
        routed.shown, fun _ same => by cases same⟩
  · intro id j there
    by_cases same : id = task.opened.id
    · rw [same, AList.lookup_erase] at there
      cases there
    · rw [AList.lookup_erase_ne same] at there
      obtain ⟨other, at_j, its, present⟩ := sound.entry id j there
      have apart : i ≠ j := by
        rintro rfl
        rw [found] at at_j
        cases at_j
        exact same its.symm
      refine ⟨other, ?_, its, present⟩
      have kept := getElem_setTask found { task with phase := .removed } j
      rw [if_neg apart] at kept
      exact kept.trans at_j
  · intro j other there stays
    have kept := getElem_setTask found { task with phase := .removed } j
    rw [there] at kept
    split at kept
    · cases kept
      exact absurd rfl stays
    · rename_i apart
      have there := sound.held j other kept.symm stays
      have differ : other.opened.id ≠ task.opened.id := by
        intro same
        rw [same, entered] at there
        cases there
        exact apart rfl
      rw [AList.lookup_erase_ne differ, there]

theorem Sound.history (sound : Sound s) (history : List Message) : Sound { s with history } :=
  ⟨sound.routed, sound.entry, sound.held⟩

theorem Sound.receive (sound : Sound s) (hasStream : String → Bool) (msg : Message) : Sound (s.receive hasStream msg) := by
  have noted := sound.history (s.history ++ [msg])
  cases msg with
  | request req => exact ⟨sound.routed, sound.entry, sound.held⟩
  | event event => exact ⟨sound.routed, sound.entry, sound.held⟩
  | streamOpen opened => exact noted.openStream hasStream opened
  | stream frame => exact noted.route frame.id (by simp [belongs])
  | streamEnd e => exact noted.route e.id (by simp [belongs])
  | response resp => exact noted

theorem step_sound (sound : Sound s) (stepped : step hasStream s label = some t) : Sound t := by
  cases step_effect stepped with
  | received reading => exact sound.receive hasStream _
  | looped apart loop => exact ⟨sound.routed, sound.entry, sound.held⟩
  | moved found moves =>
    obtain ⟨same, going, stays⟩ := moves.same
    rw [sound.not_orphaned found going] at moves
    have routed := sound.routed _ (List.mem_of_getElem? found)
    exact sound.setTask found same.opened (routed.moves moves) going stays
  | removed found phase => exact sound.remove found phase

/-- The frames for a task's stream, of those that the loop read since it was made. -/
def Connection.arrived (s : Connection) (task : StreamTask) : List Message :=
  (s.history.drop task.since).filter (belongs task.opened.id)

/-- Of the frames `rest` the task was handed its own, up to its removal. -/
structure Handed (rest : List Message) (task : StreamTask) : Prop where
  some : task.routed <+: rest.filter (belongs task.opened.id)
  all : task.phase ≠ .removed → task.routed = rest.filter (belongs task.opened.id)

variable {rest : List Message}

theorem Handed.new (opened : StreamOpenMsg) (since : Nat) : Handed [] (.new opened since) :=
  ⟨List.prefix_rfl, fun _ => rfl⟩

theorem Handed.hand (handed : Handed rest task) (present : task.phase ≠ .removed) {msg : Message}
    (own : belongs task.opened.id msg = true) : Handed (rest ++ [msg]) (task.hand msg) := by
  have all : (task.hand msg).routed = (rest ++ [msg]).filter (belongs task.opened.id) := by
    rw [List.filter_append, ← handed.all present, List.filter_cons_of_pos own]
    rfl
  exact ⟨all ▸ List.prefix_rfl, fun _ => all⟩

theorem Handed.pass (handed : Handed rest task) {msg : Message}
    (other : task.phase ≠ .removed → belongs task.opened.id msg = false) : Handed (rest ++ [msg]) task where
  some := by
    rw [List.filter_append]
    exact handed.some.trans (List.prefix_append _ _)
  all present := by
    rw [List.filter_append, ← handed.all present, List.filter_cons_of_neg (by rw [other present]; exact Bool.false_ne_true)]
    exact (List.append_nil _).symm

theorem Handed.same {later : StreamTask} (handed : Handed rest task) (same : SameStream task later)
    (stays : later.phase ≠ .removed → task.phase ≠ .removed) : Handed rest later where
  some := by
    rw [same.routed, same.opened]
    exact handed.some
  all present := by
    rw [same.routed, same.opened]
    exact handed.all (stays present)

/-- Each task was made for an open that the loop read, and was handed its frames of
those read since. -/
def Kept (s : Connection) : Prop :=
  ∀ task ∈ s.tasks, ∃ before rest, s.history = before ++ .streamOpen task.opened :: rest ∧
    task.since = before.length + 1 ∧ Handed rest task

theorem Kept.arrived (kept : Kept s) (member : task ∈ s.tasks) :
    task.routed <+: s.arrived task ∧ (task.phase ≠ .removed → task.routed = s.arrived task) := by
  obtain ⟨before, rest, read, since, handed⟩ := kept task member
  have same : s.arrived task = rest.filter (belongs task.opened.id) := by
    rw [Connection.arrived, read, since, List.append_cons, List.drop_left' (by simp)]
  rw [same]
  exact ⟨handed.some, handed.all⟩

theorem Sound.route_tasks (sound : Sound s) {id : UInt64} {msg : Message} (member : task ∈ (s.route id msg).tasks) :
    (∃ old ∈ s.tasks, old.opened.id = id ∧ old.phase ≠ .removed ∧ task = old.hand msg) ∨
      task ∈ s.tasks ∧ (task.phase ≠ .removed → task.opened.id ≠ id) := by
  unfold Connection.route at member
  split at member
  · rename_i i entered
    obtain ⟨old, found, its, present⟩ := sound.entry id i entered
    rw [found] at member
    obtain ⟨j, there⟩ := List.mem_iff_getElem?.1 member
    rw [getElem_setTask found] at there
    split at there
    · cases there
      exact .inl ⟨old, List.mem_of_getElem? found, its, present, rfl⟩
    · rename_i apart
      refine .inr ⟨List.mem_of_getElem? there, fun present same => ?_⟩
      have entry := sound.held j task there present
      rw [same, entered] at entry
      cases entry
      exact apart rfl
  · rename_i absent
    refine .inr ⟨member, fun present same => ?_⟩
    obtain ⟨i, there⟩ := List.mem_iff_getElem?.1 member
    have entry := sound.held i task there present
    rw [same, absent] at entry
    cases entry

/-- The tasks after the loop has read a frame: the stream's own was handed it, or it was made. -/
theorem Sound.receive_tasks (sound : Sound s) {msg : Message} (member : task ∈ (s.receive hasStream msg).tasks) :
    (∃ old ∈ s.tasks, belongs old.opened.id msg = true ∧ old.phase ≠ .removed ∧ task = old.hand msg) ∨
      (task ∈ s.tasks ∧ (task.phase ≠ .removed → belongs task.opened.id msg = false)) ∨
      ∃ opened, msg = .streamOpen opened ∧ task = .new opened (s.history.length + 1) := by
  have noted := sound.history (s.history ++ [msg])
  have routes : ∀ id, (∀ its, belongs its msg = decide (id = its)) →
      task ∈ (Connection.route { s with history := s.history ++ [msg] } id msg).tasks →
      (∃ old ∈ s.tasks, belongs old.opened.id msg = true ∧ old.phase ≠ .removed ∧ task = old.hand msg) ∨
        task ∈ s.tasks ∧ (task.phase ≠ .removed → belongs task.opened.id msg = false) := by
    intro id of member
    refine (noted.route_tasks member).imp ?_ ?_
    · rintro ⟨old, there, its, present, handed⟩
      exact ⟨old, there, by rw [of, its, decide_eq_true rfl], present, handed⟩
    · rintro ⟨there, other⟩
      exact ⟨there, fun present => by rw [of, decide_eq_false (other present).symm]⟩
  cases msg with
  | stream frame => exact (routes frame.id (fun _ => rfl) member).imp_right .inl
  | streamEnd e => exact (routes e.id (fun _ => rfl) member).imp_right .inl
  | streamOpen opened =>
    simp only [Connection.receive] at member
    unfold Connection.openStream at member
    split at member
    · exact (routes opened.id (fun _ => rfl) member).imp_right .inl
    · rename_i absent
      have others : ∀ other ∈ s.tasks, other.phase ≠ .removed → belongs other.opened.id (.streamOpen opened) = false := by
        intro other there present
        obtain ⟨i, found⟩ := List.mem_iff_getElem?.1 there
        have entered := sound.held i other found present
        refine decide_eq_false fun same => ?_
        rw [← same] at entered
        rw [entered] at absent
        cases absent
      split at member
      · rcases List.mem_append.1 member with old | new
        · exact .inr (.inl ⟨old, others task old⟩)
        · refine .inr (.inr ⟨opened, rfl, ?_⟩)
          rw [List.mem_singleton.1 new, List.length_append]
          rfl
      · exact .inr (.inl ⟨member, others task member⟩)
  | _ => exact .inr (.inl ⟨member, fun _ => rfl⟩)

theorem receive_history (hasStream : String → Bool) (s : Connection) (msg : Message) :
    (s.receive hasStream msg).history = s.history ++ [msg] := by
  have routes : ∀ (s : Connection) id msg, (s.route id msg).history = s.history := by
    intro s id msg
    unfold Connection.route
    split
    · split <;> rfl
    · rfl
  cases msg with
  | stream frame => exact routes ..
  | streamEnd e => exact routes ..
  | streamOpen opened =>
    simp only [Connection.receive]
    unfold Connection.openStream
    split
    · exact routes ..
    · split <;> rfl
  | _ => rfl

theorem Kept.receive (kept : Kept s) (sound : Sound s) (msg : Message) : Kept (s.receive hasStream msg) := by
  intro task member
  rw [receive_history]
  rcases sound.receive_tasks member with ⟨old, there, own, present, rfl⟩ | ⟨there, other⟩ | ⟨opened, rfl, rfl⟩
  · obtain ⟨before, rest, read, since, handed⟩ := kept old there
    exact ⟨before, rest ++ [msg], by simp [read, StreamTask.hand], since, handed.hand present own⟩
  · obtain ⟨before, rest, read, since, handed⟩ := kept task there
    exact ⟨before, rest ++ [msg], by simp [read], since, handed.pass other⟩
  · exact ⟨s.history, [], rfl, rfl, Handed.new opened _⟩

theorem Kept.setTask (kept : Kept s) {i : Nat} (found : s.tasks[i]? = some task) {later : StreamTask}
    (same : SameStream task later) (stays : later.phase ≠ .removed → task.phase ≠ .removed) : Kept (s.setTask i later) := by
  intro other member
  rcases List.mem_or_eq_of_mem_set member with old | rfl
  · exact kept other old
  · obtain ⟨before, rest, read, since, handed⟩ := kept task (List.mem_of_getElem? found)
    exact ⟨before, rest, by rw [same.opened]; exact read, same.since.trans since, handed.same same stays⟩

theorem step_kept (sound : Sound s) (kept : Kept s) (stepped : step hasStream s label = some t) : Kept t := by
  cases step_effect stepped with
  | received reading => exact kept.receive sound _
  | looped apart loop => exact kept
  | moved found moves =>
    obtain ⟨same, going, stays⟩ := moves.same
    exact kept.setTask found same (fun _ => going)
  | removed found phase => exact kept.setTask found ⟨rfl, rfl, rfl⟩ (fun stays => absurd rfl stays)

structure Tracked (s : Connection) : Prop where
  sound : Sound s
  kept : Kept s

theorem Tracked.init : Tracked .init :=
  ⟨⟨fun _ member => (by cases member), fun _ _ entered => (by cases entered), fun _ _ found => (by cases found)⟩,
    fun _ member => (by cases member)⟩

theorem step_tracked (tracked : Tracked s) (stepped : step hasStream s label = some t) : Tracked t :=
  ⟨step_sound tracked.sound stepped, step_kept tracked.sound tracked.kept stepped⟩

end EchoStream.Transport.WsStreams
