import Mathlib.Data.List.Range
import EchoStream.Core.StateMachine

/-! Streams that the client state machine sends. The frames of a stream are numbered
by a counter under its id. The peer picks the ids of its own streams, and cleaning up
after one of those takes away the counter of whatever stream has the id. -/

namespace EchoStream.Core.OutboundStreams
open Foundation.Run
open Proto.Messages Proto.Postcard
open StateMachine

/-- The client with the ids its streams were opened under and the frames built for
streams. -/
structure Sender where
  client : Client
  opened : List UInt64
  sent : List Message

def Sender.init : Sender := ⟨.init, [], []⟩

/-- State is removed of inbound streams that have ended. -/
def step (codec : Codec Message) (s : Sender) (label : Label) : Option Sender :=
  match label with
  | .openStream =>
      (StateMachine.step codec s.client label).map
        (fun client => { s with client, opened := s.opened ++ [s.client.core.openStream.1] })
  | .streamFrame id data senderTs =>
      (StateMachine.step codec s.client label).map
        (fun client => { s with client, sent := s.sent ++ [(s.client.core.buildStreamFrame id data senderTs).1] })
  | .removeStreamState id =>
      if (s.client.core.streamEnd id).isSome then
        (StateMachine.step codec s.client label).map (fun client => { s with client })
      else none
  | _ => (StateMachine.step codec s.client label).map (fun client => { s with client })

def framesOf (id : UInt64) (msgs : List Message) : List StreamMsg :=
  msgs.filterMap (fun
    | .stream frame => if frame.id = id then some frame else none
    | _ => none)

def InSequence (frames : List StreamMsg) : Prop := frames.map (fun frame => frame.seq.toNat) = List.range frames.length

/-- The frames of each stream that was opened are in sequence, and with the next one
they still are. -/
def Numbered (s : Sender) : Prop :=
  ∀ id ∈ s.opened, ∀ data senderTs,
    InSequence (framesOf id (s.sent ++ [(s.client.core.buildStreamFrame id data senderTs).1]))

/-- No clean-up hits a stream that has sent, and neither counter runs full: an id is
not opened after frames were built for it, and a stream does not have 2^64 frames. -/
def Careful (s : Sender) : Label → Prop
  | .openStream => framesOf s.client.core.openStream.1 s.sent = []
  | .streamFrame id _ _ => id ∈ s.opened → (framesOf id s.sent).length + 1 < 2 ^ 64
  | .removeStreamState id => id ∈ s.opened → framesOf id s.sent = []
  | _ => True

variable {codec : Codec Message} {s t : Sender} {label : Label} {id : UInt64}

def nextSeq (s : Sender) (id : UInt64) : UInt64 := (s.client.core.streamSeq.lookup id).getD 0

theorem framesOf_own (s : Sender) (id : UInt64) (data : Bytes) (senderTs : UInt64) :
    framesOf id (s.sent ++ [(s.client.core.buildStreamFrame id data senderTs).1]) =
      framesOf id s.sent ++ [⟨id, nextSeq s id, ⟨senderTs⟩, data⟩] := by
  simp [framesOf, List.filterMap_append, ClientCore.buildStreamFrame, nextSeq]

theorem framesOf_other (s : Sender) {other : UInt64} (apart : other ≠ id) (data : Bytes) (senderTs : UInt64) :
    framesOf id (s.sent ++ [(s.client.core.buildStreamFrame other data senderTs).1]) = framesOf id s.sent := by
  simp [framesOf, List.filterMap_append, ClientCore.buildStreamFrame, apart]

theorem inSequence_append (frames : List StreamMsg) (frame : StreamMsg) :
    InSequence (frames ++ [frame]) ↔ InSequence frames ∧ frame.seq.toNat = frames.length := by
  unfold InSequence
  rw [List.map_append, List.length_append, List.length_singleton, List.range_succ, List.map_singleton]
  constructor
  · intro same
    obtain ⟨front, back⟩ := List.append_inj' same rfl
    exact ⟨front, List.singleton_inj.1 back⟩
  · rintro ⟨front, back⟩
    rw [front, back]

def InStep (s : Sender) (id : UInt64) : Prop :=
  InSequence (framesOf id s.sent) ∧ (nextSeq s id).toNat = (framesOf id s.sent).length

theorem numbered_iff : Numbered s ↔ ∀ id ∈ s.opened, InStep s id := by
  unfold Numbered InStep
  simp only [framesOf_own, inSequence_append]
  exact ⟨fun all id member => all id member [] 0, fun all id member _ _ => all id member⟩

inductive Effect (s : Sender) : Label → Sender → Prop
  | opens {t : Sender} (opened : t.opened = s.opened ++ [s.client.core.openStream.1]) (sent : t.sent = s.sent)
      (own : nextSeq t s.client.core.openStream.1 = 0)
      (others : ∀ id, id ≠ s.client.core.openStream.1 → nextSeq t id = nextSeq s id) : Effect s .openStream t
  | builds {t : Sender} {id : UInt64} {data : Bytes} {senderTs : UInt64} (opened : t.opened = s.opened)
      (sent : t.sent = s.sent ++ [(s.client.core.buildStreamFrame id data senderTs).1])
      (own : nextSeq t id = nextSeq s id + 1) (others : ∀ other, other ≠ id → nextSeq t other = nextSeq s other) :
      Effect s (.streamFrame id data senderTs) t
  | removes {t : Sender} {id : UInt64} (opened : t.opened = s.opened) (sent : t.sent = s.sent) (own : nextSeq t id = 0)
      (others : ∀ other, other ≠ id → nextSeq t other = nextSeq s other) : Effect s (.removeStreamState id) t
  | keeps {label : Label} {t : Sender} (careful : Careful s label) (opened : t.opened = s.opened) (sent : t.sent = s.sent)
      (counters : ∀ id, nextSeq t id = nextSeq s id) : Effect s label t

theorem handleInbound_streamSeq (msg : Message) (core : ClientCore) :
    (core.handleInbound msg).2.streamSeq = core.streamSeq := by
  unfold ClientCore.handleInbound
  cases msg with
  | event event => rfl
  | streamOpen opened => rfl
  | _ =>
    dsimp only
    split <;> rfl

theorem step_effect (stepped : step codec s label = some t) : Effect s label t := by
  cases label with
  | openStream =>
    cases stepped
    refine .opens rfl rfl ?_ (fun id apart => ?_)
    · simp [nextSeq, Client.allocating, ClientCore.openStream]
    · simp only [nextSeq, Client.allocating, ClientCore.openStream] at apart ⊢
      rw [AList.lookup_insert_ne apart]
      rfl
  | streamFrame id data senderTs =>
    cases stepped
    refine .builds rfl rfl ?_ (fun other apart => ?_)
    · simp [nextSeq, ClientCore.buildStreamFrame]
    · simp only [nextSeq, ClientCore.buildStreamFrame]
      rw [AList.lookup_insert_ne apart]
  | removeStreamState id =>
    rw [step] at stepped
    split at stepped
    · cases stepped
      refine .removes rfl rfl ?_ (fun other apart => ?_)
      · simp [nextSeq, ClientCore.removeStreamState]
      · simp only [nextSeq, ClientCore.removeStreamState]
        rw [AList.lookup_erase_ne apart]
    · cases stepped
  | inbound msg =>
    cases stepped
    refine .keeps trivial rfl rfl (fun id => ?_)
    simp only [nextSeq, Client.inbound, handleInbound_streamSeq]
  | _ =>
    cases stepped
    exact .keeps trivial rfl rfl (fun id => rfl)

theorem InStep.same (inStep : InStep s id) (frames : framesOf id t.sent = framesOf id s.sent)
    (counter : nextSeq t id = nextSeq s id) : InStep t id := by
  rw [InStep, frames, counter]
  exact inStep

/-- A counter that starts again needs a stream without frames, -/
theorem inStep_restarts (frames : framesOf id t.sent = framesOf id s.sent) (counter : nextSeq t id = 0) :
    InStep t id ↔ framesOf id s.sent = [] := by
  rw [InStep, frames, counter]
  constructor
  · exact fun both => List.length_eq_zero_iff.1 both.2.symm
  · intro none_sent
    rw [none_sent]
    exact ⟨rfl, rfl⟩

/-- and one that goes on must not run full. -/
theorem inStep_grows (inStep : InStep s id) {data : Bytes} {senderTs : UInt64}
    (sent : t.sent = s.sent ++ [(s.client.core.buildStreamFrame id data senderTs).1])
    (counter : nextSeq t id = nextSeq s id + 1) : InStep t id ↔ (framesOf id s.sent).length + 1 < 2 ^ 64 := by
  obtain ⟨sequence, stands⟩ := inStep
  have wraps : (nextSeq s id + 1).toNat = ((framesOf id s.sent).length + 1) % 2 ^ 64 := by
    rw [UInt64.toNat_add, stands]
    rfl
  rw [InStep, sent, counter, framesOf_own, inSequence_append, List.length_append, List.length_singleton, wraps]
  constructor
  · intro both
    have small := Nat.mod_lt ((framesOf id s.sent).length + 1) (Nat.two_pow_pos 64)
    omega
  · exact fun small => ⟨⟨sequence, stands⟩, Nat.mod_eq_of_lt small⟩

theorem numbered_step (numbered : Numbered s) (stepped : step codec s label = some t) : Numbered t ↔ Careful s label := by
  have before := numbered_iff.1 numbered
  rw [numbered_iff]
  cases step_effect stepped with
  | opens opened sent own elsewhere =>
    have restarts := inStep_restarts (congrArg (framesOf _) sent) own
    rw [opened, List.forall_mem_append, List.forall_mem_singleton, restarts]
    refine and_iff_right_of_imp (fun fresh id member => ?_)
    by_cases same : id = s.client.core.openStream.1
    · subst same
      exact restarts.2 fresh
    · exact (before id member).same (congrArg (framesOf id) sent) (elsewhere id same)
  | @builds _ id data senderTs opened sent own elsewhere =>
    rw [opened]
    constructor
    · exact fun all member => (inStep_grows (before id member) sent own).1 (all id member)
    · intro small other member
      by_cases same : other = id
      · subst same
        exact (inStep_grows (before other member) sent own).2 (small member)
      · have frames : framesOf other t.sent = framesOf other s.sent := by
          rw [sent, framesOf_other s (Ne.symm same)]
        exact (before other member).same frames (elsewhere other same)
  | @removes _ id opened sent own elsewhere =>
    have restarts := inStep_restarts (congrArg (framesOf id) sent) own
    rw [opened]
    constructor
    · exact fun all member => restarts.1 (all id member)
    · intro none_sent other member
      by_cases same : other = id
      · subst same
        exact restarts.2 (none_sent member)
      · exact (before other member).same (congrArg (framesOf other) sent) (elsewhere other same)
  | keeps careful opened sent counters =>
    rw [opened]
    exact iff_of_true (fun id member => (before id member).same (congrArg (framesOf id) sent) (counters id)) careful

/-- Along a run every stream is numbered by its frames exactly when every step is careful. -/
theorem numbered_iff_careful (codec : Codec Message) (labels : List Label) :
    Always (step codec) Numbered .init labels ↔ Guarded (step codec) Careful .init labels := by
  have any : ∀ s label t, True → step codec s label = some t → True := fun _ _ _ _ _ => trivial
  apply always_iff_guarded any _ _ labels trivial
  · exact fun id member => absurd member List.not_mem_nil
  · exact fun s label t _ numbered careful stepped => (numbered_step numbered stepped).2 careful
  · exact fun s label t _ numbered stepped later => (numbered_step numbered stepped).1 later

/-- The first stream of either side has the id 1. -/
private def cleanUp : List Label :=
  [.openStream, .streamFrame 1 [7] 0, .inbound (.streamOpen ⟨1, "a", []⟩), .inbound (.streamEnd ⟨1, 0, none, []⟩),
    .removeStreamState 1, .streamFrame 1 [8] 0]

/-- After the peer's stream is cleaned up a second frame has the number of the first. -/
theorem number_repeated :
    ¬ Always (step wire) Numbered .init cleanUp ∧
      ∃ s, run (step wire) .init cleanUp = some s ∧ s.opened = [1] ∧ (framesOf 1 s.sent).map (·.seq) = [0, 0] := by
  refine ⟨fun always => ?_, ⟨_, rfl, rfl, rfl⟩⟩
  have last := always.last rfl
  have sequence := (numbered_iff.1 last 1 (List.mem_singleton_self 1)).1
  cases sequence

end EchoStream.Core.OutboundStreams
