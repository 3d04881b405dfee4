import EchoStream.Core.Request
import EchoStream.Core.StateMachine
import EchoStream.Transport.WsFrames

/-! The state machine as the browser has it, compiled to a module with 32-bit memory.
A call of it may throw, and a call that panics never gives back the state machine it
had borrowed. Frames go in and out as bytes. -/

namespace EchoStream.Web.Handle
open Foundation.Formats
open Proto.Messages Proto.Postcard Proto.Endpoint
open Core.StateMachine
open Transport.WsFrames

/-- What a call throws: an error that is returned, a trap where the module panics, the
refusal of a state machine that is in use. -/
inductive Thrown where
  | error (text : String)
  | trap
  | inUse
deriving DecidableEq

/-- Bytes that are in the module's memory. -/
structure Slice where
  bytes : Bytes
  fits : bytes.length < 2 ^ 31

/-- Addition of sizes, in a build with overflow checks or in one without. -/
def addUsize (checks : Bool) (a b : Nat) : Option Nat :=
  if a + b < 2 ^ 32 then some (a + b) else if checks then none else some (a + b - 2 ^ 32)

/-- The decoding half of `handleInbound`. -/
def decodeInbound (codec : Codec Message) (checks : Bool) (frame : Slice) : Decoded String :=
  if frame.bytes.length < 4 then .refused "帧长度不足"
  else
    match (addUsize checks 4 (declared frame.bytes)).bind (slice frame.bytes 4) with
    | none => .panicked
    | some payload =>
        match codec.fromBytes payload with
        | .error text => .refused ("帧解码失败: " ++ text)
        | .ok msg => .accepted msg

/-- No allocation takes half of the memory or more. -/
def encodeFrameBytes (codec : Codec Message) (msg : Message) : Except Thrown Bytes :=
  match codec.toAllocvec msg with
  | .error text => .error (.error ("编码失败: " ++ text))
  | .ok payload =>
      if 4 + payload.length < 2 ^ 31 then .ok (toLittle 4 (payload.length % 2 ^ 32) ++ payload) else .error .trap

def handleInbound (codec : Codec Message) (checks : Bool) (frame : Slice) (core : ClientCore) :
    Except Thrown (Option Bytes) × List Call × ClientCore :=
  match decodeInbound codec checks frame with
  | .panicked => (.error .trap, [], core)
  | .refused text => (.error (.error text), [], core)
  | .accepted msg =>
      let ((calls, resp), core) := core.handleInbound msg
      match resp with
      | some resp => ((encodeFrameBytes codec resp).map some, calls, core)
      | none => (.ok none, calls, core)

def build (codec : Codec Message) (builder : ClientCore → Message × ClientCore) (core : ClientCore) :
    Except Thrown Bytes × List Call × ClientCore :=
  let (msg, core) := builder core
  (encodeFrameBytes codec msg, [], core)

def trapped {α : Type} : Except Thrown α → Bool
  | .error .trap => true
  | _ => false

/-- The state machine, the calls of listeners so far, and whether it is in use. -/
structure ClientCoreHandle where
  core : ClientCore
  calls : List Call
  borrowed : Bool

def ClientCoreHandle.new : ClientCoreHandle := ⟨.new, [], false⟩

def ClientCoreHandle.use {α : Type} (method : ClientCore → Except Thrown α × List Call × ClientCore)
    (h : ClientCoreHandle) : Except Thrown α × ClientCoreHandle :=
  if h.borrowed then (.error .inUse, h)
  else
    let (result, calls, core) := method h.core
    (result, { core, calls := h.calls ++ calls, borrowed := trapped result })

section Decoding

variable {codec : Codec Message} {data : Bytes}

/-- A sum that wraps around is below what is added, so that the slice is outside. -/
theorem decodeInbound_missing (codec : Codec Message) (checks : Bool) (frame : Slice) (long : 4 ≤ frame.bytes.length)
    (more : frame.bytes.length < 4 + declared frame.bytes) : decodeInbound codec checks frame = .panicked := by
  have small := frame.fits
  have outside : (addUsize checks 4 (declared frame.bytes)).bind (slice frame.bytes 4) = none := by
    rw [Option.bind_eq_none_iff]
    intro stop sum
    refine if_neg (fun inside => ?_)
    have width := declared_lt frame.bytes
    unfold addUsize at sum
    split at sum
    · have whole := Option.some.inj sum
      omega
    · split at sum
      · cases sum
      · have wrapped := Option.some.inj sum
        omega
  rw [decodeInbound, if_neg (Nat.not_lt_of_le long), outside]

theorem decodeInbound_there (codec : Codec Message) (checks : Bool) (frame : Slice) (long : 4 ≤ frame.bytes.length)
    (fits : 4 + declared frame.bytes ≤ frame.bytes.length) :
    decodeInbound codec checks frame =
      match codec.fromBytes ((frame.bytes.take (4 + declared frame.bytes)).drop 4) with
      | .error text => .refused ("帧解码失败: " ++ text)
      | .ok msg => .accepted msg := by
  have small := frame.fits
  have sum : addUsize checks 4 (declared frame.bytes) = some (4 + declared frame.bytes) := if_pos (by omega)
  rw [decodeInbound, if_neg (Nat.not_lt_of_le long), sum, Option.bind_some, slice_fits fits (Nat.le_add_right 4 _)]

theorem decodeInbound_sound_iff (codec : Codec Message) (checks : Bool) (frame : Slice) :
    Sound codec frame.bytes (decodeInbound codec checks frame) ↔ Fitting frame.bytes := by
  apply sound_iff_fitting
  · intro short
    exact ⟨_, if_pos short⟩
  · exact decodeInbound_missing codec checks frame
  · intro long fits
    rw [decodeInbound_there codec checks frame long fits]
    cases codec.fromBytes ((frame.bytes.take (4 + declared frame.bytes)).drop 4) with
    | error text => exact .inl ⟨"帧解码失败: " ++ text, rfl⟩
    | ok msg => exact .inr ⟨msg, rfl, rfl⟩

/-- Both decoders are sound on a message exactly when the length that it declares is there. -/
theorem decoders_sound_iff (codec : Codec Message) (data : Bytes) :
    ((∀ rest, ∃ decoded, (recvFrame codec (.binary data :: rest)).1 = answerOf decoded ∧ Sound codec data decoded) ∧
      ∀ checks (frame : Slice), frame.bytes = data → Sound codec data (decodeInbound codec checks frame)) ↔
      Fitting data := by
  constructor
  · rintro ⟨server, -⟩
    obtain ⟨decoded, same, sound⟩ := server []
    rw [← answerOf_injective same] at sound
    exact (recvBinary_sound_iff codec data).1 sound
  · intro fitting
    refine ⟨fun rest => ⟨_, rfl, (recvBinary_sound_iff codec data).2 fitting⟩, ?_⟩
    rintro checks frame rfl
    exact (decodeInbound_sound_iff codec checks frame).2 fitting

/-- Five bytes are declared and none are there. -/
theorem decoders_panic :
    (recvFrame wire [.binary [5, 0, 0, 0]]).1 = none ∧
      ¬ Sound wire [5, 0, 0, 0] (decodeInbound wire false ⟨[5, 0, 0, 0], by decide⟩) := by
  refine ⟨rfl, fun sound => ?_⟩
  exact sound.returns rfl

end Decoding

section Responses

variable {core : ClientCore} {resp : ResponseMsg} {request : Nat}

theorem handleInbound_response (waits : core.pending.lookup resp.id = some request) :
    (core.handleInbound (.response resp)).1.1 =
      [.response request (ClientCore.contents resp).1 (ClientCore.contents resp).2] := by
  rw [ClientCore.handleInbound]
  simp only [waits]

theorem requestMuxed_response (resp : ResponseMsg) :
    Core.Request.requestMuxed resp.id [.ok (some (.response resp))] = some (Core.Request.settle resp) := by
  rw [Core.Request.requestMuxed, Core.Request.readerLoop, if_pos (List.mem_singleton_self _), List.lookup_cons_self]

theorem contents_error_iff (resp : ResponseMsg) :
    (ClientCore.contents resp).2.isSome = true ↔ resp.code.isSuccess = false ∧ resp.message.isSome = true := by
  unfold ClientCore.contents
  cases resp.code.isSuccess <;> simp

theorem settle_error_iff (resp : ResponseMsg) :
    (∃ e, Core.Request.settle resp = .error e) ↔ resp.code.isSuccess = false := by
  unfold Core.Request.settle
  cases resp.code.isSuccess <;> simp

/-- The listener is given an error exactly for the responses that the session turns
into one, which are those without success. -/
def ClassifiedAlike (core : ClientCore) (request : Nat) (resp : ResponseMsg) : Prop :=
  ((∃ data text, (core.handleInbound (.response resp)).1.1 = [.response request data (some text)]) ↔
      ∃ e, Core.Request.requestMuxed resp.id [.ok (some (.response resp))] = some (.error e)) ∧
    ((∃ e, Core.Request.requestMuxed resp.id [.ok (some (.response resp))] = some (.error e)) ↔
      resp.code.isSuccess = false)

theorem classified_alike_iff (waits : core.pending.lookup resp.id = some request) :
    ClassifiedAlike core request resp ↔ resp.code.isSuccess = true ∨ resp.message.isSome = true := by
  have listener : (∃ data text, (core.handleInbound (.response resp)).1.1 = [.response request data (some text)]) ↔
      (ClientCore.contents resp).2.isSome = true := by
    rw [handleInbound_response waits, Option.isSome_iff_exists]
    simp
  have session : (∃ e, Core.Request.requestMuxed resp.id [.ok (some (.response resp))] = some (.error e)) ↔
      resp.code.isSuccess = false := by
    rw [requestMuxed_response, ← settle_error_iff]
    simp only [Option.some.injEq]
  rw [ClassifiedAlike, listener, session, contents_error_iff]
  cases resp.code.isSuccess <;> simp

private def asking : ClientCore := (ClientCore.new.buildRequest 0 "add" []).2

theorem classified_alike_timeout :
    ClassifiedAlike asking 0 ⟨1, .timeout, some "late", []⟩ ↔
      StatusCode.timeout.isSuccess = true ∨ (some "late").isSome = true :=
  classified_alike_iff rfl

/-- An error without a message is no error to the listener. -/
theorem error_without_message :
    asking.pending.lookup 1 = some 0 ∧ ¬ ClassifiedAlike asking 0 ⟨1, .error, none, [9]⟩ ∧
      (asking.handleInbound (.response ⟨1, .error, none, [9]⟩)).1.1 = [.response 0 [] none] := by
  refine ⟨rfl, fun alike => ?_, rfl⟩
  obtain ⟨data, text, called⟩ := alike.1.2 ⟨_, rfl⟩
  cases called

end Responses

end EchoStream.Web.Handle
