import EchoStream.Transport.WsRouting

/-! How a stream's end is reported to its handler. -/

namespace EchoStream.Transport.WsStreams
open Foundation.Run
open Proto.Messages
open Core.Handler Core.Stream

variable {hasStream : String → Bool} {s t : Connection} {label : Label} {task : StreamTask}

/-- A handler whose stream has ended is told what the first end frame for the stream
said, and none is told of an end before that frame has come or goes on reading after it. -/
def Reported (s : Connection) : Prop :=
  ∀ task ∈ s.tasks, ∀ r, task.phase = .handling r →
    (r.ended = true → ∃ e, firstEnd (s.arrived task) = some e ∧
      r.endCode = e.code ∧ r.endMessage = e.message ∧ r.endMetadata = e.metadata) ∧
    (firstEnd (s.arrived task) ≠ none → r.pending = none → task.queue = [] → r.ended = true)

/-- An end that says nothing. -/
def Plain (e : StreamEndMsg) : Prop := e.code = 0 ∧ e.message = none ∧ e.metadata = []

/-- An end frame that a receiver takes is plain. -/
def PlainTaken (s : Connection) : Label → Prop
  | .act i .recv => ∀ task r e rest, s.tasks[i]? = some task → task.phase = .handling r → r.ended = false →
      r.pending = none → task.queue = .streamEnd e :: rest → Plain e
  | _ => True

/-- The ends that receivers were told of were plain. -/
def PlainEnds (s : Connection) : Prop :=
  ∀ task ∈ s.tasks, ∀ r e, task.phase = .handling r → r.ended = true → firstEnd task.routed = some e → Plain e

theorem Tracked.reported_iff (tracked : Tracked s) : Reported s ↔ PlainEnds s := by
  have arrives : ∀ task ∈ s.tasks, ∀ r, task.phase = .handling r → task.routed = s.arrived task := by
    intro task member r phase
    exact (tracked.kept.arrived member).2 (present_handling phase)
  constructor
  · intro reported task member r e phase closed ends
    obtain ⟨other, same, code, message, metadata⟩ := (reported task member r phase).1 closed
    obtain ⟨noCode, noMessage, noMetadata⟩ := (tracked.sound.routed task member).uninformed r phase
    rw [arrives task member r phase, same] at ends
    cases ends
    exact ⟨code.symm.trans noCode, message.symm.trans noMessage, metadata.symm.trans noMetadata⟩
  · intro plain task member r phase
    rw [← arrives task member r phase]
    obtain ⟨-, going, closed⟩ := (tracked.sound.routed task member).staged phase
    obtain ⟨noCode, noMessage, noMetadata⟩ := (tracked.sound.routed task member).uninformed r phase
    constructor
    · intro ended
      obtain ⟨e, ends⟩ := Option.ne_none_iff_exists'.1 (closed ended).ends
      obtain ⟨code, message, metadata⟩ := plain task member r e phase ended ends
      exact ⟨e, ends, noCode.trans code.symm, noMessage.trans message.symm, noMetadata.trans metadata.symm⟩
    · intro ends pending empty
      by_contra live
      rw [Bool.not_eq_true] at live
      rw [(going live).2.ends, empty] at ends
      exact ends rfl

theorem PlainEnds.receive (plain : PlainEnds s) (sound : Sound s) (msg : Message) :
    PlainEnds (s.receive hasStream msg) := by
  intro task member r e phase closed ends
  rcases sound.receive_tasks member with ⟨old, there, -, -, rfl⟩ | ⟨there, -⟩ | ⟨opened, -, rfl⟩
  · change old.phase = .handling r at phase
    obtain ⟨-, -, was_over⟩ := (sound.routed old there).staged phase
    obtain ⟨earlier, came⟩ := Option.ne_none_iff_exists'.1 (was_over closed).ends
    rw [StreamTask.hand, firstEnd_append, came] at ends
    obtain rfl := Option.some.inj ends
    exact plain old there r earlier phase closed came
  · exact plain task there r e phase closed ends
  · cases phase

theorem PlainEnds.setTask_iff (plain : PlainEnds s) {i : Nat} (found : s.tasks[i]? = some task) (later : StreamTask) :
    PlainEnds (s.setTask i later) ↔
      ∀ r e, later.phase = .handling r → r.ended = true → firstEnd later.routed = some e → Plain e := by
  have within := (List.getElem?_eq_some_iff.1 found).1
  constructor
  · intro plain
    exact plain later (List.mem_set within later)
  · intro its other member
    rcases List.mem_or_eq_of_mem_set member with old | rfl
    · exact plain other old
    · exact its

/-- Only the taking of an end frame ends a receiver whose queue has a sender. -/
theorem recvPass_ended {r : Receiver} (live : r.ended = false) {msg : Message} {queue : List Message}
    (own : belongs task.opened.id msg = true) {later : Receiver}
    (phase : (StreamTask.recvPass { task with queue } r (readQueue msg)).phase = .handling later) :
    later.ended = true ↔ ∃ e, msg = .streamEnd e := by
  cases msg with
  | streamEnd e =>
    simp only [StreamTask.recvPass, readQueue, Receiver.take, Phase.handling.injEq] at phase
    rw [← phase]
    exact ⟨fun _ => ⟨e, rfl⟩, fun _ => rfl⟩
  | stream frame =>
    have still : later.ended = false := by
      simp only [StreamTask.recvPass, readQueue, Receiver.take] at phase
      by_cases its : frame.id = r.id
      · simp only [if_pos its, Phase.handling.injEq] at phase
        rw [← phase, live]
      · simp only [if_neg its, Phase.handling.injEq] at phase
        rw [← phase, live]
    simp [still]
  | streamOpen opened =>
    simp only [StreamTask.recvPass, readQueue, Receiver.take, Phase.handling.injEq] at phase
    simp [← phase, live]
  | _ => cases own

theorem PlainEnds.recv (routed : Routed task) {r : Receiver} (phase : task.phase = .handling r) (live : r.ended = false)
    (pending : r.pending = none) {result : Result (Option Message)} {rest : StreamTask}
    (read : task.readMessage false = some (result, rest)) :
    (∀ later e, (rest.recvPass r result).phase = .handling later → later.ended = true →
      firstEnd (rest.recvPass r result).routed = some e → Plain e) ↔
    ∀ e queue, task.queue = .streamEnd e :: queue → Plain e := by
  have kept := (Moves.received phase live pending read).same.1.routed
  obtain ⟨msg, queue, next, rfl, rfl⟩ := readMessage_held read
  have own := routed.own msg (by rw [next]; exact List.mem_cons_self ..)
  have ends := ((routed.staged phase).2.1 live).2.ends
  rw [kept, ends, next]
  constructor
  · intro plain e rest same
    cases same
    obtain ⟨-, after, -⟩ := recvPass_same { task with queue } r (readQueue (.streamEnd e))
    exact plain _ e after ((recvPass_ended live own after).2 ⟨e, rfl⟩) rfl
  · intro plain later e after closed first
    obtain ⟨taken, rfl⟩ := (recvPass_ended live own after).1 closed
    cases first
    exact plain e queue rfl

theorem plainEnds_step (sound : Sound s) (plain : PlainEnds s) (stepped : step hasStream s label = some t) :
    PlainEnds t ↔ PlainTaken s label := by
  have unguarded : (∀ i, label ≠ .act i .recv) → PlainTaken s label := by
    intro apart
    unfold PlainTaken
    split
    · rename_i i
      exact absurd rfl (apart i)
    · trivial
  cases step_effect stepped with
  | received reading => exact iff_of_true (plain.receive sound _) trivial
  | looped apart loop => exact iff_of_true plain (unguarded apart)
  | @removed i task found phase =>
    have leaves := (plain.setTask_iff found { task with phase := .removed }).2 (fun _ _ phase => by cases phase)
    exact iff_of_true leaves trivial
  | @moved i what task later found moves =>
    rw [plain.setTask_iff found]
    have member := List.mem_of_getElem? found
    cases moves with
    | @looked result rest phase read =>
      have awaits := (readMessage_same read).2.trans phase
      exact iff_of_true (fun r e handling => absurd handling ((firstFrame_same awaits result).2.2 r)) trivial
    | entered phase => exact iff_of_true (fun r e same closed => by cases same; cases closed) trivial
    | @told r phase closed =>
      refine iff_of_true (plain task member) ?_
      intro other _ e rest same handling live
      rw [found] at same
      cases same
      rw [phase] at handling
      cases handling
      rw [live] at closed
      cases closed
    | @first r first phase live pending =>
      refine iff_of_true (fun later e same closed => ?_) ?_
      · cases same
        change r.ended = true at closed
        rw [live] at closed
        cases closed
      · intro other _ e rest same handling _ taken
        rw [found] at same
        cases same
        rw [phase] at handling
        cases handling
        rw [pending] at taken
        cases taken
    | @received r result rest phase live taken read =>
      rw [sound.not_orphaned found (present_handling phase)] at read
      rw [PlainEnds.recv (sound.routed task member) phase live taken read]
      constructor
      · intro its other later e queue same _ _ _ next
        rw [found] at same
        cases same
        exact its e queue next
      · intro its e queue next
        exact its task r e queue found phase live taken next
    | left apart dispatched => exact iff_of_true (fun r e same => by cases same) (unguarded (fun j => by grind))

/-- In every state of a run the ends are reported as they came, exactly when each end
frame that a receiver takes is plain. -/
theorem reported_iff_plain (hasStream : String → Bool) (labels : List Label) :
    Always (step hasStream) Reported .init labels ↔ Guarded (step hasStream) PlainTaken .init labels := by
  refine always_iff_guarded (fun _ _ _ => step_tracked) ?_ ?_ labels Tracked.init (fun _ member => by cases member)
  · intro s label t tracked reported plain stepped
    rw [(step_tracked tracked stepped).reported_iff]
    exact (plainEnds_step tracked.sound (tracked.reported_iff.1 reported) stepped).2 plain
  · intro s label t tracked reported stepped next
    have plain := (step_tracked tracked stepped).reported_iff.1 next
    exact (plainEnds_step tracked.sound (tracked.reported_iff.1 reported) stepped).1 plain

/-- A stream that its sender fails ends for its handler as if all were well. -/
theorem failure_unreported :
    ¬ Always (step (fun name => name == "file")) Reported .init
        [.receive (.streamOpen ⟨1, "file", []⟩), .receive (.stream ⟨1, 0, ⟨0⟩, [5]⟩),
          .receive (.streamEnd ⟨1, 500, some "aborted", []⟩), .act 0 .look, .act 0 (.enter ⟨1, "file", []⟩),
          .act 0 .recv, .act 0 .recv] := by
  intro always
  have reported := always.last rfl
  obtain ⟨e, ends, code, -, -⟩ := (reported _ (List.mem_singleton.2 rfl) _ rfl).1 rfl
  cases ends
  cases code

end EchoStream.Transport.WsStreams
