import Mathlib.Logic.Function.Basic
import EchoStream.Foundation.Run
import EchoStream.Proto.Messages

/-! Events on the reused stream. The sender keeps one unidirectional stream for
its events and opens another only when a write fails. The server hands a stream
whose first frame is an event to a task that reads it to its end; the client
dispatches the first event in its own loop and then drops the stream, with
whatever was written to it since. A write to a dropped stream may still succeed
and is lost; on any other stream a write succeeds. -/

namespace EchoStream.Core.EventChannel
open Foundation.Run
open Proto.Messages

/-- Which receive loop is at the other end. -/
inductive Peer where
  | server
  | client
deriving DecidableEq

/-- Where the receiver is with a stream: not accepted, accepted with its first
frame not read, an event read, an event dispatched, between events, dropped. -/
inductive Side where
  | unaccepted
  | accepted
  | held (event : EventMsg)
  | busy
  | reading
  | dropped
deriving DecidableEq

structure Stream where
  frames : List EventMsg
  carried : Nat
  side : Side

def Stream.fresh : Stream := ⟨[], 0, .unaccepted⟩

/-- Where the sender is with the event it emits; `again` after a failed write. -/
inductive Sender where
  | idle
  | opening (event : EventMsg) (again : Bool)
  | writing (event : EventMsg) (again : Bool)
deriving DecidableEq

/-- `main` is the stream the receive loop itself is at work on. -/
structure Channel where
  peer : Peer
  streams : Nat → Stream
  count : Nat
  chan : Option Nat
  sender : Sender
  main : Option Nat
  emitted : List EventMsg
  dispatched : List EventMsg

def Channel.init (peer : Peer) : Channel := ⟨peer, fun _ => .fresh, 0, none, .idle, none, [], []⟩

inductive Label where
  | emit (event : EventMsg)
  | opened (ok : Bool)
  | written (ok : Bool)
  | accept (k : Nat)
  | take (k : Nat)
  | dispatch (k : Nat)
  | settle (k : Nat)

def Channel.setStream (s : Channel) (k : Nat) (stream : Stream) : Channel :=
  { s with streams := Function.update s.streams k stream }

def emit (s : Channel) (event : EventMsg) : Option Channel :=
  match s.sender, s.chan with
  | .idle, none => some { s with sender := .opening event false }
  | .idle, some _ => some { s with sender := .writing event false }
  | _, _ => none

def opened (s : Channel) (ok : Bool) : Option Channel :=
  match s.sender, ok with
  | .opening event again, true =>
      some { s with count := s.count + 1, chan := some s.count, sender := .writing event again }
  | .opening _ _, false => some { s with sender := .idle }
  | _, _ => none

/-- A written event is on the stream, or lost with it. The first failure opens
another stream, the second is returned. -/
def written (s : Channel) (ok : Bool) : Option Channel :=
  match s.sender, s.chan with
  | .writing event again, some k =>
      let stream := s.streams k
      if ok then
        let frames := if stream.side = .dropped then stream.frames else stream.frames ++ [event]
        some { s.setStream k { stream with frames, carried := stream.carried + 1 } with
          sender := .idle, emitted := s.emitted ++ [event] }
      else if stream.side = .dropped then
        some { s with sender := if again then .idle else .opening event true }
      else none
  | _, _ => none

def accept (s : Channel) (k : Nat) : Option Channel :=
  if s.main = none ∧ k < s.count ∧ (s.streams k).side = .unaccepted then
    some { s.setStream k { s.streams k with side := .accepted } with main := some k }
  else none

/-- The next event is read off the stream. The server's loop is free again once
it has the first one. -/
def take (s : Channel) (k : Nat) : Option Channel :=
  match (s.streams k).side, (s.streams k).frames with
  | .accepted, event :: rest =>
      some { s.setStream k { s.streams k with frames := rest, side := .held event } with
        main := if s.peer = .server then none else s.main }
  | .reading, event :: rest => some (s.setStream k { s.streams k with frames := rest, side := .held event })
  | _, _ => none

def dispatch (s : Channel) (k : Nat) : Option Channel :=
  match (s.streams k).side with
  | .held event =>
      some { s.setStream k { s.streams k with side := .busy } with dispatched := s.dispatched ++ [event] }
  | _ => none

/-- The handlers are done: the server's task reads on, the client drops the stream. -/
def settle (s : Channel) (k : Nat) : Option Channel :=
  match (s.streams k).side, s.peer with
  | .busy, .server => some (s.setStream k { s.streams k with side := .reading })
  | .busy, .client =>
      some { s.setStream k { s.streams k with frames := [], side := .dropped } with main := none }
  | _, _ => none

def step : Step Channel Label
  | s, .emit event => emit s event
  | s, .opened ok => opened s ok
  | s, .written ok => written s ok
  | s, .accept k => accept s k
  | s, .take k => take s k
  | s, .dispatch k => dispatch s k
  | s, .settle k => settle s k

/-- Nothing that was written is left for the receiver to read or to dispatch. -/
def Quiet (s : Channel) : Prop :=
  ∀ k, (s.streams k).frames = [] ∧ ∀ event, (s.streams k).side ≠ .held event

/-- The events of calls that returned are dispatched once each, in their order,
and all of them once the receiver has nothing left to do. -/
def Faithful (s : Channel) : Prop :=
  s.dispatched <+: s.emitted ∧ (Quiet s → s.dispatched = s.emitted)

/-- A client is at the other end only of streams that carry one event each. -/
def SingleEvent (s : Channel) : Label → Prop
  | .written true => s.peer = .server ∨ ∀ k, s.chan = some k → (s.streams k).carried = 0
  | _ => True

/-- The events of a stream that are still to be dispatched. -/
def Stream.coming (stream : Stream) : List EventMsg :=
  match stream.side with
  | .held event => event :: stream.frames
  | _ => stream.frames

/-- The stream can lose no event: the client has at most its first one. -/
structure Stream.Tidy (peer : Peer) (stream : Stream) : Prop where
  dropped : stream.side = .dropped → peer = .client ∧ stream.frames = [] ∧ stream.carried ≠ 0
  single : peer = .client → stream.frames.length ≤ 1
  counted : stream.frames ≠ [] → stream.carried ≠ 0
  emptied : peer = .client → stream.side = .busy ∨ (∃ event, stream.side = .held event) →
    stream.frames = [] ∧ stream.carried ≠ 0
  tasks : peer = .client → stream.side ≠ .reading

/-- What every step keeps: all streams but the last are dropped, the sender
writes to the last one, and what is dispatched and what is coming on the last
stream are together what was emitted. -/
structure InOrder (s : Channel) : Prop where
  chan : s.chan = none ∧ s.count = 0 ∨ ∃ last, s.chan = some last ∧ s.count = last + 1
  unopened : ∀ k, s.count ≤ k → s.streams k = .fresh
  older : ∀ k, k + 1 < s.count → (s.streams k).side = .dropped
  tidy : ∀ k, (s.streams k).Tidy s.peer
  writing : ∀ event again, s.sender = .writing event again → s.chan ≠ none
  opening : ∀ event again, s.sender = .opening event again →
    s.count = 0 ∨ (s.streams (s.count - 1)).side = .dropped
  whole : s.dispatched ++ (s.streams (s.count - 1)).coming = s.emitted

variable {s t : Channel} {k : Nat}

theorem fresh_tidy (peer : Peer) : Stream.fresh.Tidy peer := by
  constructor <;> simp [Stream.fresh]

theorem init_inOrder (peer : Peer) : InOrder (Channel.init peer) := by
  constructor
  · exact Or.inl ⟨rfl, rfl⟩
  · exact fun _ _ => rfl
  · intro k below
    cases below
  · exact fun _ => fresh_tidy peer
  · intro event again same
    cases same
  · intro event again same
    cases same
  · rfl

/-- The receiver is at work on the stream. -/
def Side.Live : Side → Prop
  | .unaccepted => False
  | .dropped => False
  | _ => True

theorem InOrder.live (ordered : InOrder s) (live : (s.streams k).side.Live) :
    k < s.count ∧ (s.streams k).side ≠ .dropped := by
  constructor
  · by_contra beyond
    rw [ordered.unopened k (Nat.le_of_not_lt beyond)] at live
    exact live
  · intro gone
    rw [gone] at live
    exact live

theorem InOrder.current (ordered : InOrder s) (within : k < s.count) (kept : (s.streams k).side ≠ .dropped) :
    k + 1 = s.count := by
  by_contra differ
  exact kept (ordered.older k (by omega))

/-- A step on the last stream keeps the order if the stream stays tidy and what
is on its way still adds up. -/
theorem InOrder.update (ordered : InOrder s) (current : k + 1 = s.count) (stream : Stream)
    (tidy : stream.Tidy s.peer) (peer : t.peer = s.peer)
    (streams : t.streams = Function.update s.streams k stream) (count : t.count = s.count)
    (chan : t.chan = s.chan) (writing : ∀ event again, t.sender ≠ .writing event again ∨ s.chan ≠ none)
    (opening : ∀ event again, t.sender = .opening event again → stream.side = .dropped)
    (whole : t.dispatched ++ stream.coming = t.emitted) : InOrder t := by
  have last : t.count - 1 = k := by omega
  constructor
  · rw [chan, count]
    exact ordered.chan
  · intro j beyond
    rw [streams, Function.update_of_ne (by omega), ordered.unopened j (by omega)]
  · intro j below
    rw [streams, Function.update_of_ne (by omega), ordered.older j (by omega)]
  · intro j
    rw [streams, peer, Function.update_apply]
    split
    · exact tidy
    · exact ordered.tidy j
  · intro event again same
    rw [chan]
    exact (writing event again).resolve_left (fun other => other same)
  · intro event again same
    rw [last, streams, Function.update_self]
    exact Or.inr (opening event again same)
  · rw [last, streams, Function.update_self, whole]

theorem InOrder.receive (ordered : InOrder s) (within : k < s.count) (kept : (s.streams k).side ≠ .dropped)
    (stream : Stream)
    (tidy : stream.Tidy s.peer) (peer : t.peer = s.peer)
    (streams : t.streams = Function.update s.streams k stream) (count : t.count = s.count)
    (chan : t.chan = s.chan) (sender : t.sender = s.sender)
    (whole : t.dispatched ++ stream.coming = t.emitted) : InOrder t := by
  have current := ordered.current within kept
  apply ordered.update current stream tidy peer streams count chan _ _ whole
  · intro event again
    by_cases same : s.sender = .writing event again
    · exact Or.inr (ordered.writing event again same)
    · rw [sender]
      exact Or.inl same
  · intro event again same
    rw [sender] at same
    rcases ordered.opening event again same with none_yet | gone
    · omega
    · rw [← current, Nat.add_sub_cancel] at gone
      exact absurd gone kept

/-- What is coming on the last stream, given as what was there before. -/
theorem InOrder.whole_at (ordered : InOrder s) (current : k + 1 = s.count) :
    s.dispatched ++ (s.streams k).coming = s.emitted := by
  have whole := ordered.whole
  rw [← current, Nat.add_sub_cancel] at whole
  exact whole

theorem emit_inOrder {event : EventMsg} (ordered : InOrder s) (stepped : emit s event = some t) :
    InOrder t := by
  unfold emit at stepped
  split at stepped
  · rename_i unopened
    cases stepped
    refine ⟨ordered.chan, ordered.unopened, ordered.older, ordered.tidy, ?_, ?_, ordered.whole⟩
    · intro event again same
      cases same
    · intro event again same
      rcases ordered.chan with ⟨_, zero⟩ | ⟨last, opened, _⟩
      · exact Or.inl zero
      · rw [unopened] at opened
        cases opened
  · rename_i opened
    cases stepped
    refine ⟨ordered.chan, ordered.unopened, ordered.older, ordered.tidy, ?_, ?_, ordered.whole⟩
    · intro event again same
      rw [opened]
      exact Option.some_ne_none _
    · intro event again same
      cases same
  · cases stepped

theorem opened_inOrder {ok : Bool} (ordered : InOrder s) (stepped : opened s ok = some t) : InOrder t := by
  unfold opened at stepped
  split at stepped
  · rename_i event again opening
    cases stepped
    have gone := ordered.opening event again opening
    constructor
    · exact Or.inr ⟨s.count, rfl, rfl⟩
    · exact fun k beyond => ordered.unopened k (by simp only at beyond; omega)
    · intro k below
      simp only at below
      rcases gone with zero | gone
      · omega
      · by_cases older : k + 1 < s.count
        · exact ordered.older k older
        · rw [show k = s.count - 1 by omega]
          exact gone
    · exact ordered.tidy
    · intro _ _ _
      exact Option.some_ne_none _
    · intro event again same
      cases same
    · have nothing : (s.streams (s.count - 1)).coming = [] := by
        rcases gone with zero | gone
        · rw [ordered.unopened _ (by omega)]
          rfl
        · simp only [Stream.coming, gone, ((ordered.tidy _).dropped gone).2.1]
      have whole := ordered.whole
      rw [nothing] at whole
      change s.dispatched ++ (s.streams (s.count + 1 - 1)).coming = s.emitted
      rw [Nat.add_sub_cancel, ordered.unopened s.count (Nat.le_refl _)]
      exact whole
  · cases stepped
    refine ⟨ordered.chan, ordered.unopened, ordered.older, ordered.tidy, ?_, ?_, ordered.whole⟩
    · intro event again same
      cases same
    · intro event again same
      cases same
  · cases stepped

/-- One more event on a stream that is read, which to the client is the first. -/
theorem Stream.Tidy.written {peer : Peer} {stream : Stream} (tidy : stream.Tidy peer) (kept : stream.side ≠ .dropped)
    (single : peer = .client → stream.carried = 0) (event : EventMsg) :
    Stream.Tidy peer ⟨stream.frames ++ [event], stream.carried + 1, stream.side⟩ := by
  constructor
  · intro gone
    exact absurd gone kept
  · intro client
    have none_before : stream.frames = [] := by
      by_contra some_frames
      exact tidy.counted some_frames (single client)
    rw [none_before]
    exact Nat.le_refl 1
  · intro _
    exact Nat.succ_ne_zero _
  · intro client begun
    exact absurd (single client) (tidy.emptied client begun).2
  · exact tidy.tasks

theorem written_inOrder {ok : Bool} (ordered : InOrder s) (single : SingleEvent s (.written ok))
    (stepped : written s ok = some t) : InOrder t := by
  unfold written at stepped
  split at stepped
  · rename_i event again last sender chan
    have current : last + 1 = s.count := by
      rcases ordered.chan with ⟨none_yet, _⟩ | ⟨other, same, count⟩
      · rw [chan] at none_yet
        cases none_yet
      · rw [chan] at same
        cases same
        exact count.symm
    have tidy := ordered.tidy last
    have whole := ordered.whole_at current
    split at stepped
    · rename_i succeeded
      subst succeeded
      cases stepped
      have unused : s.peer = .client → (s.streams last).carried = 0 := by
        intro client
        rcases single with server | first
        · rw [client] at server
          cases server
        · exact first last chan
      have kept : (s.streams last).side ≠ .dropped := by
        intro gone
        obtain ⟨client, _, carried⟩ := tidy.dropped gone
        exact carried (unused client)
      rw [if_neg kept]
      refine ordered.update current
        ⟨(s.streams last).frames ++ [event], (s.streams last).carried + 1, (s.streams last).side⟩
        (tidy.written kept unused event) rfl rfl rfl rfl ?_ ?_ ?_
      · intro _ _
        exact Or.inl Sender.noConfusion
      · intro _ _ same
        cases same
      · change s.dispatched ++ Stream.coming ⟨_, _, _⟩ = s.emitted ++ [event]
        rw [← whole, List.append_assoc]
        congr 1
        unfold Stream.coming
        cases (s.streams last).side <;> rfl
    · by_cases gone : (s.streams last).side = .dropped
      · rw [if_pos gone] at stepped
        cases stepped
        refine ⟨ordered.chan, ordered.unopened, ordered.older, ordered.tidy, ?_, ?_, ordered.whole⟩
        · intro _ _ same
          simp only at same
          split at same <;> cases same
        · intro _ _ _
          rw [← current, Nat.add_sub_cancel]
          exact Or.inr gone
      · rw [if_neg gone] at stepped
        cases stepped
  · cases stepped

theorem accept_inOrder (ordered : InOrder s) (stepped : accept s k = some t) : InOrder t := by
  unfold accept at stepped
  split at stepped
  · rename_i free
    obtain ⟨_, within, unaccepted⟩ := free
    cases stepped
    have kept : (s.streams k).side ≠ .dropped := by
      rw [unaccepted]
      exact Side.noConfusion
    have current := ordered.current within kept
    have tidy := ordered.tidy k
    have whole := ordered.whole_at current
    rw [Stream.coming, unaccepted] at whole
    refine ordered.receive within kept { s.streams k with side := .accepted }
      ?_ rfl rfl rfl rfl rfl whole
    refine ⟨fun gone => ?_, tidy.single, tidy.counted, fun _ begun => ?_, fun _ => Side.noConfusion⟩
    · cases gone
    · rcases begun with busy | ⟨_, held⟩
      · cases busy
      · cases held
  · cases stepped

theorem InOrder.take (ordered : InOrder s) {event : EventMsg} {rest : List EventMsg}
    (frames : (s.streams k).frames = event :: rest)
    (side : (s.streams k).side = .accepted ∨ (s.streams k).side = .reading) {main : Option Nat} :
    InOrder { s.setStream k { s.streams k with frames := rest, side := .held event } with main } := by
  obtain ⟨within, kept⟩ : k < s.count ∧ (s.streams k).side ≠ .dropped := by
    rcases side with same | same <;> exact ordered.live (same ▸ trivial)
  have current := ordered.current within kept
  have tidy := ordered.tidy k
  have whole := ordered.whole_at current
  have coming : (s.streams k).coming = event :: rest := by
    unfold Stream.coming
    rcases side with same | same <;> rw [same] <;> exact frames
  rw [coming] at whole
  refine ordered.receive within kept { s.streams k with frames := rest, side := .held event }
      ?_ rfl rfl rfl rfl rfl whole
  constructor
  · intro gone
    cases gone
  · intro client
    have short := tidy.single client
    rw [frames, List.length_cons] at short
    exact Nat.le_of_succ_le short
  · intro _
    apply tidy.counted
    rw [frames]
    exact List.cons_ne_nil _ _
  · intro client _
    have short := tidy.single client
    rw [frames, List.length_cons] at short
    have empty : rest = [] := List.eq_nil_of_length_eq_zero (by omega)
    refine ⟨empty, tidy.counted ?_⟩
    rw [frames]
    exact List.cons_ne_nil _ _
  · intro _
    exact Side.noConfusion

theorem take_inOrder (ordered : InOrder s) (stepped : take s k = some t) : InOrder t := by
  unfold take at stepped
  split at stepped
  · rename_i accepted frames
    cases stepped
    exact ordered.take frames (Or.inl accepted)
  · rename_i reading frames
    cases stepped
    exact ordered.take frames (Or.inr reading)
  · cases stepped

theorem dispatch_inOrder (ordered : InOrder s) (stepped : dispatch s k = some t) : InOrder t := by
  unfold dispatch at stepped
  split at stepped
  · rename_i event held
    cases stepped
    obtain ⟨within, kept⟩ : k < s.count ∧ (s.streams k).side ≠ .dropped := ordered.live (held ▸ trivial)
    have tidy := ordered.tidy k
    have whole := ordered.whole_at (ordered.current within kept)
    rw [Stream.coming, held] at whole
    refine ordered.receive within kept { s.streams k with side := .busy }
      ?_ rfl rfl rfl rfl rfl ?_
    · refine ⟨fun gone => ?_, tidy.single, tidy.counted, fun client _ => ?_, fun _ => Side.noConfusion⟩
      · cases gone
      · exact tidy.emptied client (Or.inr ⟨event, held⟩)
    · change (s.dispatched ++ [event]) ++ (s.streams k).frames = s.emitted
      rw [List.append_assoc]
      exact whole
  · cases stepped

theorem settle_inOrder (ordered : InOrder s) (stepped : settle s k = some t) : InOrder t := by
  unfold settle at stepped
  split at stepped
  · rename_i busy server
    cases stepped
    obtain ⟨within, kept⟩ : k < s.count ∧ (s.streams k).side ≠ .dropped := ordered.live (busy ▸ trivial)
    have tidy := ordered.tidy k
    have whole := ordered.whole_at (ordered.current within kept)
    rw [Stream.coming, busy] at whole
    refine ordered.receive within kept { s.streams k with side := .reading }
      ?_ rfl rfl rfl rfl rfl whole
    refine ⟨fun gone => ?_, tidy.single, tidy.counted, fun client => ?_, fun client => ?_⟩
    · cases gone
    · rw [server] at client
      cases client
    · rw [server] at client
      cases client
  · rename_i busy client
    cases stepped
    obtain ⟨within, kept⟩ : k < s.count ∧ (s.streams k).side ≠ .dropped := ordered.live (busy ▸ trivial)
    obtain ⟨empty, carried⟩ := (ordered.tidy k).emptied client (Or.inl busy)
    have whole := ordered.whole_at (ordered.current within kept)
    rw [Stream.coming, busy] at whole
    simp only [empty] at whole
    refine ordered.receive within kept { s.streams k with frames := [], side := .dropped }
      ?_ rfl rfl rfl rfl rfl whole
    refine ⟨fun _ => ⟨client, rfl, carried⟩, fun _ => Nat.zero_le 1, fun some_frames => ?_, fun _ begun => ?_,
      fun _ => Side.noConfusion⟩
    · exact absurd rfl some_frames
    · rcases begun with again | ⟨_, held⟩
      · cases again
      · cases held
  · cases stepped

theorem step_inOrder (s : Channel) (label : Label) (t : Channel) (ordered : InOrder s)
    (single : SingleEvent s label) (stepped : step s label = some t) : InOrder t := by
  cases label with
  | emit event => exact emit_inOrder ordered stepped
  | opened ok => exact opened_inOrder ordered stepped
  | written ok => exact written_inOrder ordered single stepped
  | accept k => exact accept_inOrder ordered stepped
  | take k => exact take_inOrder ordered stepped
  | dispatch k => exact dispatch_inOrder ordered stepped
  | settle k => exact settle_inOrder ordered stepped

theorem peer_step {label : Label} (stepped : step s label = some t) : t.peer = s.peer := by
  cases label with
  | emit event =>
    simp only [step, emit] at stepped
    split at stepped <;> cases stepped <;> rfl
  | opened ok =>
    simp only [step, opened] at stepped
    split at stepped <;> cases stepped <;> rfl
  | written ok =>
    simp only [step, written] at stepped
    split at stepped
    · split at stepped
      · cases stepped
        rfl
      · split at stepped <;> cases stepped
        rfl
    · cases stepped
  | accept k =>
    simp only [step, accept] at stepped
    split at stepped <;> cases stepped
    rfl
  | take k =>
    simp only [step, take] at stepped
    split at stepped <;> cases stepped <;> rfl
  | dispatch k =>
    simp only [step, dispatch] at stepped
    split at stepped <;> cases stepped
    rfl
  | settle k =>
    simp only [step, settle] at stepped
    split at stepped <;> cases stepped <;> rfl

theorem InOrder.faithful (ordered : InOrder s) : Faithful s := by
  have whole := ordered.whole
  refine ⟨⟨_, whole⟩, fun quiet => ?_⟩
  obtain ⟨empty, notHeld⟩ := quiet (s.count - 1)
  have nothing : (s.streams (s.count - 1)).coming = [] := by
    unfold Stream.coming
    split
    · rename_i event held
      exact absurd held (notHeld event)
    · exact empty
  rw [nothing, List.append_nil] at whole
  exact whole

/-- Events arrive once each and in order in every state of a run in which the
client is only written streams of one event; towards the server, in every run. -/
theorem events_in_order (peer : Peer) {labels : List Label}
    (single : Guarded step SingleEvent (Channel.init peer) labels) :
    Always step Faithful (Channel.init peer) labels :=
  (guarded_always step_inOrder (init_inOrder peer) single).mono (fun _ ordered => ordered.faithful)

private def first : EventMsg := ⟨1, "tick", []⟩
private def second : EventMsg := ⟨2, "tick", []⟩

/-- The second event goes on a stream of its own once the first one's has been dropped. -/
theorem events_in_order_ticks :
    Always step Faithful (Channel.init .client)
      [.emit first, .opened true, .written true, .accept 0, .take 0, .dispatch 0, .settle 0,
        .emit second, .written false, .opened true, .written true, .accept 1, .take 1, .dispatch 1, .settle 1] := by
  apply events_in_order .client
  refine .cons rfl trivial (.cons rfl trivial (.cons rfl (Or.inr ?_) (.cons rfl trivial (.cons rfl trivial
    (.cons rfl trivial (.cons rfl trivial (.cons rfl trivial (.cons rfl trivial (.cons rfl trivial
      (.cons rfl (Or.inr ?_) (.cons rfl trivial (.cons rfl trivial (.cons rfl trivial (.cons rfl trivial trivial))))))))))))))
  · intro k same
    cases same
    rfl
  · intro k same
    cases same
    rfl

/-- Towards a server no event is lost or overtaken in any run. -/
theorem server_events_in_order (labels : List Label) :
    Always step Faithful (Channel.init .server) labels := by
  have keeps : ∀ (s : Channel) label t, (InOrder s ∧ s.peer = .server) → True → step s label = some t →
      InOrder t ∧ t.peer = .server := by
    intro s label t ⟨ordered, server⟩ _ stepped
    have single : SingleEvent s label := by
      cases label with
      | written ok => cases ok <;> first | trivial | exact Or.inl server
      | _ => trivial
    refine ⟨step_inOrder s label t ordered single stepped, ?_⟩
    rw [peer_step stepped, server]
  have everywhere := guarded_of_forall (fun (s : Channel) label t (_ : step s label = some t) => trivial)
    (Channel.init .server) labels
  have kept := guarded_always keeps ⟨init_inOrder .server, rfl⟩ everywhere
  exact kept.mono (fun _ both => both.1.faithful)

/-- The second event is written to a stream of which the client dispatches the
first one only. It is never dispatched. -/
private def overtaken : List Label :=
  [.emit first, .opened true, .written true, .emit second, .written true,
    .accept 0, .take 0, .dispatch 0, .settle 0]

private def afterLoss : Channel :=
  (run step (Channel.init .client) overtaken).getD (Channel.init .client)

theorem client_loses_event : ¬ Always step Faithful (Channel.init .client) overtaken := by
  intro always
  have ran : run step (Channel.init .client) overtaken = some afterLoss := rfl
  obtain ⟨_, delivered⟩ := always.last ran
  have quiet : Quiet afterLoss := by
    intro k
    cases k with
    | zero => exact ⟨rfl, fun _ => Side.noConfusion⟩
    | succ k => exact ⟨rfl, fun _ => Side.noConfusion⟩
  have lost := congrArg List.length (delivered quiet)
  cases lost

end EchoStream.Core.EventChannel
