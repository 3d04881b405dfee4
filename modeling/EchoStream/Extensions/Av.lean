import EchoStream.Proto.Metadata
import EchoStream.Foundation.Formats
import EchoStream.Core.Stream

/-! Audio and video over a stream. The parameters travel in the metadata of the stream,
each frame with its time and a mark for key frames in a payload. Both ends use the same
parameters, but for a clock rate of zero: the metadata says 90000 in its place, and the
sender takes it for one. -/

namespace EchoStream.Extensions.Av
open Foundation Foundation.Formats
open Proto.Messages Proto.Metadata
open Core.Handler Core.Stream

def frameFormat : String := "echostream-av/1"

namespace Key

def frameFormat : String := "frame-format"
def codec : String := "codec"
def samplerate : String := "samplerate"
def channels : String := "channels"
def bitrate : String := "bitrate"
def width : String := "width"
def height : String := "height"
def fps : String := "fps"
def clockRate : String := "clock-rate"

end Key

structure AvParams where
  codec : String
  samplerate : UInt64
  channels : UInt64
  bitrate : UInt64
  width : UInt64
  height : UInt64
  fps : UInt64
  clockRate : UInt64
deriving DecidableEq

namespace AvParams

def default : AvParams := ⟨"", 0, 0, 0, 0, 0, 0, 0⟩

def metadata (params : AvParams) : List StreamMetaEntry :=
  [str Key.frameFormat Av.frameFormat, str Key.codec params.codec,
    num Key.clockRate (if params.clockRate > 0 then params.clockRate else 90000)] ++
  (if params.samplerate > 0 then [num Key.samplerate params.samplerate, num Key.channels params.channels] else []) ++
  (if params.bitrate > 0 then [num Key.bitrate params.bitrate] else []) ++
  (if params.width > 0 then
    [num Key.width params.width, num Key.height params.height, num Key.fps params.fps]
  else [])

/-- A number that is missing or is none counts as zero. -/
def getNum (metadata : List StreamMetaEntry) (key : String) : UInt64 := ((get metadata key).bind parseU64).getD 0

def fromMetadata (metadata : List StreamMetaEntry) : Result AvParams :=
  let format := (get metadata Key.frameFormat).getD ""
  if format ≠ "" ∧ format ≠ Av.frameFormat then .error (.protocol ("不支持的帧格式: " ++ format))
  else
    .ok {
      codec := (get metadata Key.codec).getD ""
      samplerate := getNum metadata Key.samplerate
      channels := getNum metadata Key.channels
      bitrate := getNum metadata Key.bitrate
      width := getNum metadata Key.width
      height := getNum metadata Key.height
      fps := getNum metadata Key.fps
      clockRate :=
        let rate := getNum metadata Key.clockRate
        if rate > 0 then rate else 90000 }

/-- The parameters with what is left out where there is no audio or no video, and with
the clock rate there is by default. -/
def normal (params : AvParams) : AvParams :=
  { params with
    channels := if params.samplerate = 0 then 0 else params.channels
    height := if params.width = 0 then 0 else params.height
    fps := if params.width = 0 then 0 else params.fps
    clockRate := if params.clockRate = 0 then 90000 else params.clockRate }

theorem pos_iff (value : UInt64) : value > 0 ↔ ¬ value = 0 := by
  rw [gt_iff_lt, UInt64.lt_iff_toNat_lt, ← UInt64.toNat_inj]
  exact Nat.pos_iff_ne_zero

theorem getNum_some {metadata : List StreamMetaEntry} {key : String} {value : UInt64}
    (written : get metadata key = some (Decimal.write value.toNat)) : getNum metadata key = value := by
  rw [getNum, written, Option.bind_some, parseU64_write, Option.getD_some]

/-- What is written only where a number is above zero. -/
theorem getNum_if {metadata : List StreamMetaEntry} {key : String} {value guard : UInt64}
    (written : get metadata key = if guard > 0 then some (Decimal.write value.toNat) else none) :
    getNum metadata key = if guard = 0 then 0 else value := by
  by_cases zero : guard = 0
  · rw [if_pos zero]
    rw [if_neg (fun pos => (pos_iff guard).1 pos zero)] at written
    rw [getNum, written]
    rfl
  · rw [if_neg zero]
    rw [if_pos ((pos_iff guard).2 zero)] at written
    exact getNum_some written

theorem get_if (guard : Prop) [Decidable guard] (metadata : List StreamMetaEntry) (key : String) :
    get (if guard then metadata else []) key = if guard then get metadata key else none := by
  split <;> rfl

/-- Each key is found where it is written, and under it what was written. -/
theorem get_metadata (params : AvParams) :
    get params.metadata Key.frameFormat = some Av.frameFormat ∧ get params.metadata Key.codec = some params.codec ∧
      get params.metadata Key.clockRate = some (Decimal.write (if params.clockRate > 0 then params.clockRate else 90000).toNat) ∧
      get params.metadata Key.samplerate = (if params.samplerate > 0 then some (Decimal.write params.samplerate.toNat) else none) ∧
      get params.metadata Key.channels = (if params.samplerate > 0 then some (Decimal.write params.channels.toNat) else none) ∧
      get params.metadata Key.bitrate = (if params.bitrate > 0 then some (Decimal.write params.bitrate.toNat) else none) ∧
      get params.metadata Key.width = (if params.width > 0 then some (Decimal.write params.width.toNat) else none) ∧
      get params.metadata Key.height = (if params.width > 0 then some (Decimal.write params.height.toNat) else none) ∧
      get params.metadata Key.fps = if params.width > 0 then some (Decimal.write params.fps.toNat) else none := by
  simp only [metadata, get_append, get_if, List.cons_append, List.nil_append, get_str, get_num, get_nil]
  simp [Key.frameFormat, Key.codec, Key.clockRate, Key.samplerate, Key.channels, Key.bitrate, Key.width, Key.height, Key.fps]

theorem fromMetadata_metadata (params : AvParams) : fromMetadata params.metadata = .ok params.normal := by
  obtain ⟨format, codec, clockRate, samplerate, channels, bitrate, width, height, fps⟩ := get_metadata params
  have itself : ∀ value : UInt64, (if value = 0 then 0 else value) = value := by
    intro value
    split
    · exact Eq.symm ‹_›
    · rfl
  rw [fromMetadata, format, codec, getNum_some clockRate, getNum_if samplerate, getNum_if channels, getNum_if bitrate,
    getNum_if width, getNum_if height, getNum_if fps]
  have rate : (if (if params.clockRate > 0 then params.clockRate else 90000) > 0 then
      if params.clockRate > 0 then params.clockRate else 90000 else 90000) =
        if params.clockRate = 0 then 90000 else params.clockRate := by
    by_cases zero : params.clockRate = 0
    · rw [if_pos zero, if_neg (fun pos => (pos_iff _).1 pos zero)]
      rfl
    · have pos := (pos_iff _).2 zero
      rw [if_neg zero, if_pos pos, if_pos pos]
  simp only [Option.getD_some, ne_eq, not_true_eq_false, and_false, if_false, itself, rate]
  rfl

end AvParams

structure AvFrame where
  pts : UInt64
  keyFrame : Bool
  data : Bytes
deriving DecidableEq

def flagKeyFrame : UInt8 := 1

/-- A byte of flags, eight of the time, least significant first, and the data. -/
def encodePayload (frame : AvFrame) : Bytes :=
  (if frame.keyFrame then flagKeyFrame else 0) :: (toLittle 8 frame.pts.toNat ++ frame.data)

def decodePayload (data : Bytes) : Result AvFrame :=
  if data.length < 9 then .error (.protocol "AV 帧载荷过短")
  else
    .ok {
      pts := UInt64.ofNat (ofLittle ((data.drop 1).take 8))
      keyFrame := data.headD 0 &&& flagKeyFrame ≠ 0
      data := data.drop 9 }

theorem decodePayload_encodePayload (frame : AvFrame) : decodePayload (encodePayload frame) = .ok frame := by
  have width := toLittle_length 8 frame.pts.toNat
  have long : ¬ (encodePayload frame).length < 9 := by
    rw [encodePayload, List.length_cons, List.length_append]
    omega
  have pts : UInt64.ofNat (ofLittle (toLittle 8 frame.pts.toNat)) = frame.pts := by
    have small : frame.pts.toNat < 256 ^ 8 := frame.pts.toNat_lt
    rw [ofLittle_toLittle, Nat.mod_eq_of_lt small, UInt64.ofNat_toNat]
  have flag : decide ((if frame.keyFrame = true then flagKeyFrame else 0) &&& flagKeyFrame ≠ 0) = frame.keyFrame := by
    cases frame.keyFrame <;> decide
  rw [decodePayload, if_neg long, encodePayload, List.drop_one, List.tail_cons, List.take_left' width, pts,
    List.drop_succ_cons, List.drop_left' width, List.headD_cons, flag]

structure AvSender where
  stream : StreamSender
  clockRate : UInt64
  frames : UInt64
  lastPts : UInt64

def AvSender.open (stream : StreamSender) (params : AvParams) : Result AvSender :=
  .ok { stream, clockRate := max params.clockRate 1, frames := 0, lastPts := 0 }

namespace AvSender

def sendFrame (now : Timestamp) (frame : AvFrame) (sender : AvSender) : Result Unit × AvSender :=
  let (result, stream) := sender.stream.sendRaw now (encodePayload frame)
  (result, { sender with stream, frames := sender.frames + 1, lastPts := frame.pts })

def finishWith (code : UInt16) (message : Option String) (sender : AvSender) : Result Unit × AvSender :=
  let (result, stream) :=
    sender.stream.finishWith code message [num "frames" sender.frames, num "last-pts" sender.lastPts]
  (result, { sender with stream })

end AvSender

structure AvReceiver where
  stream : Receiver
  params : AvParams
  frames : UInt64
  keyFrames : UInt64

def AvReceiver.open (stream : Receiver) : Result AvReceiver :=
  match AvParams.fromMetadata stream.metadata with
  | .error e => .error e
  | .ok params => .ok { stream, params, frames := 0, keyFrames := 0 }

namespace AvReceiver

theorem open_eq {stream : Receiver} {params : AvParams} (reads : AvParams.fromMetadata stream.metadata = .ok params) :
    AvReceiver.open stream = .ok ⟨stream, params, 0, 0⟩ := by
  rw [AvReceiver.open, reads]

theorem open_fresh {stream : Receiver} {receiver : AvReceiver} (opens : AvReceiver.open stream = .ok receiver) :
    receiver.stream = stream ∧ receiver.frames = 0 ∧ receiver.keyFrames = 0 := by
  rw [AvReceiver.open] at opens
  split at opens
  · cases opens
  · cases opens
    exact ⟨rfl, rfl, rfl⟩

def recvFrame (receiver : AvReceiver) : Result (Option AvFrame) × AvReceiver :=
  match receiver.stream.recvFrame with
  | (.error e, stream) => (.error e, { receiver with stream })
  | (.ok none, stream) => (.ok none, { receiver with stream })
  | (.ok (some frame), stream) =>
      match decodePayload frame.data with
      | .error e => (.error e, { receiver with stream })
      | .ok av =>
          (.ok (some av), { receiver with
            stream
            frames := receiver.frames + 1
            keyFrames := if av.keyFrame then receiver.keyFrames + 1 else receiver.keyFrames })

end AvReceiver

/-- Both ends of a stream with the metadata of the parameters agree on the parameters,
and on the clock rate just when it is not zero. -/
theorem opened_alike_iff (params : AvParams) (io : SendIo) (id : UInt64) (name : String) (recv : FrameIo)
    (first : StreamMsg) :
    (∃ sender receiver, AvSender.open (.new io id name params.metadata) params = .ok sender ∧
      AvReceiver.open (.new ⟨recv, first, params.metadata, name⟩) = .ok receiver ∧
      receiver.params = params.normal ∧ receiver.params.clockRate = sender.clockRate) ↔ params.clockRate ≠ 0 := by
  have opened : AvReceiver.open (.new ⟨recv, first, params.metadata, name⟩) =
      .ok ⟨.new ⟨recv, first, params.metadata, name⟩, params.normal, 0, 0⟩ :=
    AvReceiver.open_eq (AvParams.fromMetadata_metadata params)
  constructor
  · rintro ⟨sender, receiver, sends, receives, -, same⟩ zero
    cases sends
    rw [opened] at receives
    cases receives
    rw [AvParams.normal, zero] at same
    have apart : (90000 : UInt64) ≠ max 0 1 := by decide
    exact apart same
  · intro some
    refine ⟨_, _, rfl, opened, rfl, ?_⟩
    rw [AvParams.normal, if_neg some]
    show params.clockRate = if params.clockRate ≤ 1 then 1 else params.clockRate
    split
    · rename_i small
      rw [UInt64.le_iff_toNat_le] at small
      have pos := Nat.pos_of_ne_zero (fun zero => some (UInt64.toNat_inj.1 zero))
      exact UInt64.toNat_inj.1 (Nat.le_antisymm small pos)
    · rfl

/-- With the parameters there are by default the sender counts in seconds. -/
theorem default_opened_apart :
    ∃ sender receiver, AvSender.open (.new ⟨fun _ => none, 0, [], false⟩ 1 "video" AvParams.default.metadata) .default = .ok sender ∧
      AvReceiver.open (.new ⟨[], ⟨1, 0, ⟨0⟩, []⟩, AvParams.default.metadata, "video"⟩) = .ok receiver ∧
      sender.clockRate = 1 ∧ receiver.params.clockRate = 90000 := by
  let recv : Receiver := .new ⟨[], ⟨1, 0, ⟨0⟩, []⟩, AvParams.default.metadata, "video"⟩
  have opened : AvReceiver.open recv = .ok ⟨recv, AvParams.default.normal, 0, 0⟩ :=
    AvReceiver.open_eq (AvParams.fromMetadata_metadata .default)
  exact ⟨_, _, rfl, opened, rfl, rfl⟩

end EchoStream.Extensions.Av
