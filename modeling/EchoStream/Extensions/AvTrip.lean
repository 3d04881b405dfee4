import EchoStream.Core.StreamTrip
import EchoStream.Extensions.Av

/-! Audio and video from the sender to the receiver. Both ends count the frames, the
receiver also the key frames among them, and the end of the stream tells what the sender
counted. -/

namespace EchoStream.Extensions.AvTrip
open Foundation Foundation.Tasks
open Proto.Messages Proto.Metadata
open Core.Handler Core.Chain Core.Dispatch Core.Connection Core.Stream Core.StreamTrip
open Av

def sendFrames : List (Timestamp × AvFrame) → AvSender → Result Unit × AvSender
  | [], sender => (.ok (), sender)
  | (now, frame) :: rest, sender =>
      match sender.sendFrame now frame with
      | (.error e, sender) => (.error e, sender)
      | (.ok _, sender) => sendFrames rest sender

def recvFrames : Nat → AvReceiver → List (Result (Option AvFrame)) × AvReceiver
  | 0, receiver => ([], receiver)
  | count + 1, receiver =>
      let (got, receiver) := receiver.recvFrame
      let (more, receiver) := recvFrames count receiver
      (got :: more, receiver)

def payload (sent : Timestamp × AvFrame) : Timestamp × Bytes := (sent.1, encodePayload sent.2)

def lastOf (frames : List (Timestamp × AvFrame)) (before : UInt64) : UInt64 :=
  (frames.getLast?.map (fun sent => sent.2.pts)).getD before

theorem lastOf_cons (now : Timestamp) (frame : AvFrame) (rest : List (Timestamp × AvFrame)) (before : UInt64) :
    lastOf ((now, frame) :: rest) before = lastOf rest frame.pts := by
  cases rest with
  | nil => rfl
  | cons next rest => rw [lastOf, lastOf, List.getLast?_cons_cons, List.getLast?_cons, Option.map_some, Option.getD_some, Option.getD_some]

theorem ofNat_succ (start : UInt64) (n : Nat) : start + UInt64.ofNat (n + 1) = start + 1 + UInt64.ofNat n := by
  rw [UInt64.ofNat_add, UInt64.add_comm (UInt64.ofNat n), ← UInt64.add_assoc]
  rfl

theorem sendFrames_ok {frames : List (Timestamp × AvFrame)} {sender : AvSender}
    (succeeds : (sendFrames frames sender).1 = .ok ()) :
    StreamSender.sendAll (frames.map payload) sender.stream = (.ok (), (sendFrames frames sender).2.stream) ∧
      (sendFrames frames sender).2.frames = sender.frames + UInt64.ofNat frames.length ∧
      (sendFrames frames sender).2.lastPts = lastOf frames sender.lastPts := by
  induction frames generalizing sender with
  | nil => exact ⟨rfl, (UInt64.add_zero _).symm, rfl⟩
  | cons sent rest ih =>
    obtain ⟨now, frame⟩ := sent
    rw [sendFrames, AvSender.sendFrame] at succeeds ⊢
    rw [List.map_cons, payload, StreamSender.sendAll]
    generalize sender.stream.sendRaw now (encodePayload frame) = out at succeeds ⊢
    obtain ⟨result, stream⟩ := out
    cases result with
    | error e => cases succeeds
    | ok value =>
      obtain ⟨all, count, last⟩ := ih succeeds
      refine ⟨all, ?_, ?_⟩
      · rw [List.length_cons, ofNat_succ]
        exact count
      · rw [lastOf_cons]
        exact last

/-- What the end of the stream tells of the frames. -/
def trailers (frames : List (Timestamp × AvFrame)) (nonempty : frames ≠ []) : List StreamMetaEntry :=
  [num "frames" (UInt64.ofNat frames.length), num "last-pts" (frames.getLast nonempty).2.pts]

theorem sendFrames_finished {frames : List (Timestamp × AvFrame)} {sender : AvSender} (nonempty : frames ≠ [])
    (fresh : sender.frames = 0) (succeeds : (sendFrames frames sender).1 = .ok ()) (code : UInt16) (message : Option String) :
    let sent := (StreamSender.sendAll (frames.map payload) sender.stream).2.finishWith code message (trailers frames nonempty)
    (StreamSender.sendAll (frames.map payload) sender.stream).1 = .ok () ∧
      ((sendFrames frames sender).2.finishWith code message).1 = sent.1 ∧
      ((sendFrames frames sender).2.finishWith code message).2.stream = sent.2 := by
  intro sent
  obtain ⟨all, count, last⟩ := sendFrames_ok succeeds
  have tells : [num "frames" (sendFrames frames sender).2.frames, num "last-pts" (sendFrames frames sender).2.lastPts] =
      trailers frames nonempty := by
    rw [count, last, lastOf, List.getLast?_eq_some_getLast nonempty, fresh, UInt64.zero_add]
    rfl
  have same : sent = (sendFrames frames sender).2.stream.finishWith code message (trailers frames nonempty) := by
    simp only [sent, all]
  rw [all, same, AvSender.finishWith, tells]
  exact ⟨rfl, rfl, rfl⟩

section Receiving

variable {receiver : AvReceiver} {next : Receiver}

theorem recvFrame_frame {frame : StreamMsg} {av : AvFrame} (read : receiver.stream.recvFrame = (.ok (some frame), next))
    (encoded : frame.data = encodePayload av) :
    receiver.recvFrame = (.ok (some av), { receiver with
      stream := next
      frames := receiver.frames + 1
      keyFrames := if av.keyFrame then receiver.keyFrames + 1 else receiver.keyFrames }) := by
  rw [AvReceiver.recvFrame, read]
  simp only [encoded, decodePayload_encodePayload]

theorem recvFrame_none (read : receiver.stream.recvFrame = (.ok none, next)) :
    receiver.recvFrame = (.ok none, { receiver with stream := next }) := by
  rw [AvReceiver.recvFrame, read]

theorem recvFrames_none {count : Nat} (told : (receiver.stream.recvFrames count).1 = List.replicate count (.ok none)) :
    recvFrames count receiver =
      (List.replicate count (.ok none), { receiver with stream := (receiver.stream.recvFrames count).2 }) := by
  induction count generalizing receiver with
  | zero => rfl
  | succ count ih =>
    rw [Receiver.recvFrames] at told ⊢
    rw [recvFrames]
    generalize read : receiver.stream.recvFrame = out at told ⊢
    obtain ⟨got, next⟩ := out
    obtain ⟨rfl, rest⟩ := List.cons.inj told
    rw [recvFrame_none read]
    have others : recvFrames count { receiver with stream := next } = _ := ih rest
    simp only [others]
    rfl

/-- What the stream gives back as payloads of frames is given back as these frames, and
each is counted. -/
theorem recvFrames_told {avs : List AvFrame} {msgs : List StreamMsg} (encoded : msgs.map (·.data) = avs.map encodePayload)
    {later : Nat} (told : (receiver.stream.recvFrames (avs.length + later)).1 =
      msgs.map (fun frame => .ok (some frame)) ++ List.replicate later (.ok none)) :
    recvFrames (avs.length + later) receiver =
      (avs.map (fun av => .ok (some av)) ++ List.replicate later (.ok none), { receiver with
        stream := (receiver.stream.recvFrames (avs.length + later)).2
        frames := receiver.frames + UInt64.ofNat avs.length
        keyFrames := receiver.keyFrames + UInt64.ofNat (avs.countP (·.keyFrame)) }) := by
  induction avs generalizing receiver msgs with
  | nil =>
    cases List.map_eq_nil_iff.1 encoded
    rw [List.length_nil, Nat.zero_add] at told ⊢
    have uncounted : ∀ start : UInt64, start + UInt64.ofNat 0 = start := UInt64.add_zero
    rw [recvFrames_none told, List.countP_nil, uncounted, uncounted]
    rfl
  | cons av rest ih =>
    cases msgs with
    | nil => cases encoded
    | cons frame msgs =>
      obtain ⟨data, others⟩ := List.cons.inj encoded
      rw [List.length_cons, Nat.add_right_comm, Receiver.recvFrames] at told ⊢
      rw [recvFrames]
      generalize read : receiver.stream.recvFrame = out at told ⊢
      obtain ⟨got, next⟩ := out
      obtain ⟨rfl, more⟩ := List.cons.inj told
      rw [recvFrame_frame read data]
      have keys : (if av.keyFrame then receiver.keyFrames + 1 else receiver.keyFrames) +
          UInt64.ofNat (rest.countP (·.keyFrame)) = receiver.keyFrames + UInt64.ofNat ((av :: rest).countP (·.keyFrame)) := by
        rw [List.countP_cons]
        cases av.keyFrame with
        | true => exact (ofNat_succ ..).symm
        | false => rfl
      let counted : AvReceiver :=
        ⟨next, receiver.params, receiver.frames + 1, if av.keyFrame then receiver.keyFrames + 1 else receiver.keyFrames⟩
      have tail : recvFrames (rest.length + later) counted = _ := ih others more
      simp only [counted, keys] at tail
      simp only [tail, ofNat_succ]
      rfl

end Receiving

variable {ω : Type}

/-- Frames that are sent and finished are what the receiver of the handler gives back, and
then the end, with what the sender said of it. -/
theorem av_arrives (front : Front) (dir : Direction) (clock : Clock ω) (router : Router ω) (session : SessionId)
    (stream : Nat) (world : World ω) (name : String) {entry : Token × StreamHandler ω} (plain : router.middlewares = [])
    (registered : router.stream.lookup name = some entry) (io : SendIo) (fresh : io.written = []) (id : UInt64)
    (metadata : List StreamMetaEntry) (params : AvParams) (frames : List (Timestamp × AvFrame)) (nonempty : frames ≠ [])
    (code : UInt16) (message : Option String) (sender : AvSender)
    (opened : AvSender.open (.new io id name metadata) params = .ok sender)
    (sent : (sendFrames frames sender).1 = .ok ())
    (finished : ((sendFrames frames sender).2.finishWith code message).1 = .ok ()) :
    let written := ((sendFrames frames sender).2.finishWith code message).2.stream.io.written
    let served := ((serve front dir clock router session stream (written.map (fun msg => .ok (some msg)))).eval world).2
    ∃ given : StreamReceiver, given.name = name ∧ given.metadata = metadata ∧
      served.app = ((entry.2.handle session given).eval world.app).2 ∧
      served.trace = world.trace ++ [.reached session (.streamOpen ⟨id, name, metadata⟩),
        .ran .stream session entry.1 name given.first.data] ∧
      (metadata = params.metadata → ∃ receiver, AvReceiver.open (.new given) = .ok receiver) ∧
      ∀ receiver, AvReceiver.open (.new given) = .ok receiver → ∀ later,
        let told := recvFrames (frames.length + (later + 1)) receiver
        told.1 = frames.map (fun sent => .ok (some sent.2)) ++ List.replicate (later + 1) (.ok none) ∧
          told.2.stream.endCode = code ∧ told.2.stream.endMessage = message ∧
          told.2.frames = UInt64.ofNat frames.length ∧
          told.2.keyFrames = UInt64.ofNat (frames.countP (·.2.keyFrame)) ∧
          told.2.stream.endMetadata =
            [num "frames" (UInt64.ofNat frames.length), num "last-pts" (frames.getLast nonempty).2.pts] := by
  intro written served
  cases opened
  obtain ⟨all, result, sentStream⟩ := sendFrames_finished nonempty rfl sent code message
  rw [result] at finished
  obtain ⟨first, msgs, parts, firstOwn, own, dispatched⟩ := serve_sent front dir clock session stream world plain registered
    io fresh id metadata (trailers frames nonempty) (frames.map payload) (fun empty => nonempty (List.map_eq_nil_iff.1 empty))
    code message all finished
  rw [← sentStream] at dispatched
  refine ⟨⟨msgs.map arrived ++ [.ok (some (.streamEnd ⟨id, code, message, trailers frames nonempty⟩))], first, metadata, name⟩,
    rfl, rfl, congrArg World.app dispatched, congrArg World.trace dispatched, ?_, ?_⟩
  · rintro rfl
    exact ⟨_, AvReceiver.open_eq (AvParams.fromMetadata_metadata params)⟩
  · intro receiver receives later told
    obtain ⟨source, none, noKeys⟩ := AvReceiver.open_fresh receives
    have size := numbered_length id (frames.map payload)
    have data := numbered_data id (frames.map payload)
    rw [parts] at size data
    rw [List.length_map] at size
    have gives := recvFrames_all first msgs own ⟨id, code, message, trailers frames nonempty⟩ firstOwn.symm metadata name later
    rw [← List.length_cons, size, ← source] at gives
    have encoded : (first :: msgs).map (·.data) = (frames.map Prod.snd).map encodePayload := by
      rw [data, List.map_map, List.map_map]
      rfl
    have received : recvFrames ((frames.map Prod.snd).length + (later + 1)) receiver = _ :=
      recvFrames_told encoded (by rw [List.length_map, gives])
    rw [List.length_map, gives, none, noKeys, UInt64.zero_add, UInt64.zero_add, List.map_map, List.countP_map] at received
    have whole : told = _ := received
    rw [whole]
    exact ⟨rfl, rfl, rfl, rfl, rfl, rfl⟩

private def watching : Router Unit := (Router.new.addStream ⟨"video", fun _ _ => pure (.ok ())⟩).1

private def wire : SendIo := { failure := fun _ => none, calls := 0, written := [], finished := false }

private def opening : AvSender := ⟨.new wire 7 "video" AvParams.default.metadata, 1, 0, 0⟩

private def clip : List (Timestamp × AvFrame) := [(⟨5⟩, ⟨90000, true, [1]⟩), (⟨6⟩, ⟨18446744073709551615, false, []⟩)]

theorem av_arrives_clip :
    ∃ given receiver, AvReceiver.open (.new given) = .ok receiver ∧
      (recvFrames 3 receiver).1 =
        [.ok (some ⟨90000, true, [1]⟩), .ok (some ⟨18446744073709551615, false, []⟩), .ok none] ∧
      (recvFrames 3 receiver).2.frames = 2 ∧ (recvFrames 3 receiver).2.keyFrames = 1 := by
  obtain ⟨given, -, -, -, -, opens, told⟩ :=
    av_arrives .client .uni (fun _ _ => false) watching 0 0 ⟨⟨fun _ _ => none, ()⟩, [], [], []⟩ "video" rfl rfl wire rfl 7
      AvParams.default.metadata .default clip (by decide) 3 (some "bye") opening rfl rfl rfl
  obtain ⟨receiver, opened⟩ := opens rfl
  obtain ⟨got, -, -, frames, keys, -⟩ := told receiver opened 0
  exact ⟨given, receiver, opened, got, frames, keys⟩

end EchoStream.Extensions.AvTrip
