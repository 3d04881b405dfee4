import EchoStream.Foundation.Run
import EchoStream.Web.Receive

/-! The client in the browser, connected over WebSocket. Every operation has the state
machine build a message and sends the bytes that it returns. What is sent is recorded
with the message that it was built from. The server has to decode each of them. -/

namespace EchoStream.Web.Operations
open Foundation.Formats Foundation.Run
open Proto.Messages Proto.Postcard
open Core.StateMachine
open Transport.WsFrames
open FrameReader Handle Receive

inductive MetaValue where
  | text (value : String)
  | number (value : Float)
  | boolean (value : Bool)
  | bytes (value : Bytes)

abbrev StreamMetadata := List (String × MetaValue)

/-- The entries are looked for in a field of the record that is itself called "metadata".
The fields of a byte array are numbered, and its values are numbers. -/
def getMetadata (obj : StreamMetadata) : Except String (List StreamMetaEntry) :=
  match obj.lookup "metadata" with
  | none => .ok []
  | some (.bytes value) =>
      .ok (value.mapIdx (fun i byte => ⟨toString i, (toString byte.toNat).toUTF8.data.toList⟩))
  | some _ => .error "metadata 必须是对象"

/-- An id as a value of JavaScript. -/
inductive JsId where
  | number (value : Float)
  | bigint (value : UInt64)

/-- What a method with a 64-bit parameter makes of it. A number is a type error. -/
def JsId.toU64 : JsId → Except Thrown UInt64
  | .number _ => .error (.error "TypeError")
  | .bigint value => .ok value

structure Sent where
  built : Option Message
  data : Bytes

structure Sdk where
  handle : ClientCoreHandle
  requests : Nat
  pendingFrame : Option Bytes
  sent : List Sent

inductive Operation where
  | request (name : String) (payload : Bytes)
  | emit (name : String) (payload : Bytes)
  | emitUnreliable (name : String) (payload : Bytes)
  | createStream (name : String) (metadata : StreamMetadata)
  | send (id : UInt64) (payload : Bytes) (now : UInt64)
  | finish (id : UInt64)
  | finishWith (id : UInt64) (code : UInt32) (message : Option String)
  | sendResponse (id : JsId) (value : Bytes)
  | sendError (id : JsId) (text : String)
  | onEvent (name : String)
  | offEvent (id : ListenerId)
  | onRpc (name : String) (handler : RpcListener)
  | offRpc (id : ListenerId)
  | onStream (name : String)
  | offStream (id : ListenerId)

namespace Sdk

def init : Sdk := ⟨.new, 0, none, []⟩

/-- A call of a method with bytes, which are copied to the module's memory first. A
string is always short enough for that. -/
def calling {α : Type} (s : Sdk) (argument : Bytes) (method : ClientCore → Except Thrown α × List Call × ClientCore) :
    Except Thrown α × ClientCoreHandle :=
  if argument.length < 2 ^ 31 then s.handle.use method else (.error .trap, s.handle)

def wsSend (s : Sdk) (built : Option Message) (data : Bytes) : Sdk := { s with sent := s.sent ++ [⟨built, data⟩] }

/-- A message is built and sent. Where the call throws nothing is. -/
def sending (codec : Codec Message) (s : Sdk) (argument : Bytes) (builder : ClientCore → Message × ClientCore) : Sdk :=
  match s.calling argument (build codec builder) with
  | (.ok frame, handle) => { s with handle }.wsSend (some (builder s.handle.core).1) frame
  | (.error _, handle) => { s with handle }

def requestBuilder (s : Sdk) (name : String) (payload : Bytes) (core : ClientCore) : Message × ClientCore :=
  let ((_, msg), core) := core.buildRequest s.requests name payload
  (msg, core)

/-- The frame is kept in `pendingFrame` and sent from there. The exception of a call that
throws is for the promise to report, and then what is still kept there is sent again. -/
def request (codec : Codec Message) (s : Sdk) (name : String) (payload : Bytes) : Sdk :=
  let t := { s with requests := s.requests + 1 }
  match s.calling payload (build codec (s.requestBuilder name payload)) with
  | (.ok frame, handle) =>
      { t with handle, pendingFrame := some frame }.wsSend (some (s.requestBuilder name payload s.handle.core).1) frame
  | (.error _, handle) =>
      match s.pendingFrame with
      | some frame => { t with handle }.wsSend none frame
      | none => { t with handle }

/-- A failure to encode is a panic here. -/
def datagramEvent (codec : Codec Message) (name : String) (payload : Bytes) (core : ClientCore) :
    Except Thrown Bytes × List Call × ClientCore :=
  match core.buildDatagramEvent codec name payload with
  | (.ok data, core) => (if data.length < 2 ^ 31 then .ok data else .error .trap, [], core)
  | (.error _, core) => (.error .trap, [], core)

/-- The bytes that are made for a datagram, as a message of the WebSocket. -/
def emitUnreliable (codec : Codec Message) (s : Sdk) (name : String) (payload : Bytes) : Sdk :=
  match s.calling payload (datagramEvent codec name payload) with
  | (.ok data, handle) => { s with handle }.wsSend (some (s.handle.core.buildEvent name payload).1) data
  | (.error _, handle) => { s with handle }

def openStream (core : ClientCore) : Except Thrown UInt64 × List Call × ClientCore :=
  let (id, core) := core.openStream
  (.ok id, [], core)

def createStream (codec : Codec Message) (s : Sdk) (name : String) (metadata : StreamMetadata) : Sdk :=
  match s.calling [] openStream with
  | (.ok id, handle) =>
      match getMetadata metadata with
      | .ok entries => { s with handle }.sending codec [] (fun core => (ClientCore.buildStreamOpen id name entries, core))
      | .error _ => { s with handle }
  | (.error _, handle) => { s with handle }

/-- A reply that is not sent by the state machine itself. -/
def replying (codec : Codec Message) (s : Sdk) (id : JsId) (argument : Bytes) (reply : UInt64 → Message) : Sdk :=
  match id.toU64 with
  | .ok id => s.sending codec argument (fun core => (reply id, core))
  | .error _ => s

def registering (s : Sdk) (change : ClientCore → ClientCore) : Sdk :=
  { s with handle := (s.calling [] (fun core => (.ok (), [], change core))).2 }

def perform (codec : Codec Message) (s : Sdk) : Operation → Sdk
  | .request name payload => s.request codec name payload
  | .emit name payload => s.sending codec payload (ClientCore.buildEvent name payload)
  | .emitUnreliable name payload => s.emitUnreliable codec name payload
  | .createStream name metadata => s.createStream codec name metadata
  | .send id payload now => s.sending codec payload (ClientCore.buildStreamFrame id payload now)
  | .finish id => s.sending codec [] (fun core => (ClientCore.buildStreamEnd id 0 none, core))
  | .finishWith id code message => s.sending codec [] (fun core => (ClientCore.buildStreamEnd id code.toUInt16 message, core))
  | .sendResponse id value => s.replying codec id value (ClientCore.buildResponse · value)
  | .sendError id text => s.replying codec id [] (ClientCore.buildErrorResponse · text)
  | .onEvent name => s.registering (fun core => (core.onEvent name).2)
  | .offEvent id => s.registering (fun core => (core.offEvent id).2)
  | .onRpc name handler => s.registering (fun core => (core.onRpc name handler).2)
  | .offRpc id => s.registering (fun core => (core.offRpc id).2)
  | .onStream name => s.registering (fun core => (core.onStream name).2)
  | .offStream id => s.registering (fun core => (core.offStream id).2)

def replyTo (codec : Codec Message) (checks : Bool) (frame : Slice) (core : ClientCore) : Option Message :=
  match decodeInbound codec checks frame with
  | .accepted msg => (core.handleInbound msg).1.2
  | _ => none

/-- A message that arrives. What its listeners do meanwhile is done while the state
machine is in use. -/
def onMessage (codec : Codec Message) (checks : Bool) (data : Bytes) (meanwhile : List Operation) (s : Sdk) : Sdk :=
  if fits : data.length < 2 ^ 31 then
    let (result, handle) := s.handle.use (handleInbound codec checks ⟨data, fits⟩)
    let t := meanwhile.foldl (perform codec) { s with handle := { s.handle with borrowed := true } }
    match result with
    | .ok (some frame) => { t with handle }.wsSend (replyTo codec checks ⟨data, fits⟩ s.handle.core) frame
    | _ => { t with handle }
  else s

def heard (codec : Codec Message) (checks : Bool) (data : Bytes) (s : Sdk) : Bool :=
  if fits : data.length < 2 ^ 31 then
    !s.handle.borrowed && !(handleInbound codec checks ⟨data, fits⟩ s.handle.core).2.1.isEmpty
  else false

end Sdk

inductive Label where
  | perform (op : Operation)
  | message (data : Bytes) (meanwhile : List Operation)

def step (codec : Codec Message) (checks : Bool) : Step Sdk Label
  | s, .perform op => some (s.perform codec op)
  | s, .message data meanwhile =>
      if meanwhile = [] ∨ s.heard codec checks data then some (s.onMessage codec checks data meanwhile) else none

def arrival (limit : Nat) (data : Bytes) : Item :=
  if data.length ≤ limit then .binary data else .failed "Space limit exceeded"

def Decodes (codec : Codec Message) (limit : Nat) (sent : Sent) : Prop :=
  ∃ msg, sent.built = some msg ∧ ∀ rest, recvFrame codec (arrival limit sent.data :: rest) = (some (.ok (some msg)), rest)

def AllDecode (codec : Codec Message) (limit : Nat) (s : Sdk) : Prop := ∀ sent ∈ s.sent, Decodes codec limit sent

/-- The operation has its message built and framed. -/
def Sends (codec : Codec Message) (s : Sdk) (argument : Bytes) (msg : Message) (payload : Bytes) : Prop :=
  s.handle.borrowed = false ∧ argument.length < 2 ^ 31 ∧ codec.toAllocvec msg = .ok payload ∧ (frame payload).length < 2 ^ 31

def WithinLimit (codec : Codec Message) (limit : Nat) (s : Sdk) (argument : Bytes) (msg : Message) : Prop :=
  ∀ payload, Sends codec s argument msg payload → (frame payload).length ≤ limit

/-- An operation that sends nothing but its message, which is not above the limit: a
request that throws has no frame of another to send again, and an unreliable event is
one that throws. -/
def FineOperation (codec : Codec Message) (limit : Nat) (s : Sdk) : Operation → Prop
  | .request name payload =>
      WithinLimit codec limit s payload (s.requestBuilder name payload s.handle.core).1 ∧
        (s.pendingFrame ≠ none → ∃ sent, Sends codec s payload (s.requestBuilder name payload s.handle.core).1 sent)
  | .emit name payload => WithinLimit codec limit s payload (s.handle.core.buildEvent name payload).1
  | .emitUnreliable name payload =>
      ¬ ∃ sent, s.handle.borrowed = false ∧ payload.length < 2 ^ 31 ∧
        codec.toAllocvec (s.handle.core.buildEvent name payload).1 = .ok sent ∧ sent.length < 2 ^ 31
  | .createStream name metadata =>
      ∀ entries, getMetadata metadata = .ok entries →
        WithinLimit codec limit s [] (ClientCore.buildStreamOpen s.handle.core.openStream.1 name entries)
  | .send id payload now => WithinLimit codec limit s payload (s.handle.core.buildStreamFrame id payload now).1
  | .finish id => WithinLimit codec limit s [] (ClientCore.buildStreamEnd id 0 none)
  | .finishWith id code message => WithinLimit codec limit s [] (ClientCore.buildStreamEnd id code.toUInt16 message)
  | .sendResponse id value => ∀ own, id.toU64 = .ok own → WithinLimit codec limit s value (ClientCore.buildResponse own value)
  | .sendError id text => ∀ own, id.toU64 = .ok own → WithinLimit codec limit s [] (ClientCore.buildErrorResponse own text)
  | _ => True

def Operation.isRequest : Operation → Bool
  | .request _ _ => true
  | _ => false

/-- A message whose listeners make no request that sends another's frame again, and whose
reply is not above the limit. -/
def Fine (codec : Codec Message) (limit : Nat) (checks : Bool) (s : Sdk) : Label → Prop
  | .perform op => FineOperation codec limit s op
  | .message data meanwhile =>
      (s.pendingFrame ≠ none → ∀ op ∈ meanwhile, op.isRequest = false) ∧
        ∀ (fits : data.length < 2 ^ 31) resp, Sdk.replyTo codec checks ⟨data, fits⟩ s.handle.core = some resp →
          WithinLimit codec limit s data resp

variable {codec : Codec Message} {limit : Nat} {s t : Sdk} {argument payload : Bytes} {msg : Message}
  {builder : ClientCore → Message × ClientCore}

/-- A frame is decoded to its message if it is not above the limit, -/
theorem decodes_frame (inverse : codec.Inverse) (encoded : codec.toAllocvec msg = .ok payload)
    (fits : (frame payload).length < 2 ^ 31) :
    Decodes codec limit ⟨some msg, frame payload⟩ ↔ (frame payload).length ≤ limit := by
  have length := frame_length payload
  have whole : (frame payload).take (4 + payload.length) = frame payload := List.take_of_length_le (by omega)
  have small : payload.length < 2 ^ 32 := by omega
  have declares := declared_frame small
  have decoded : recvBinary codec (frame payload) = .accepted msg := by
    rw [recvBinary, if_neg (by omega), declares, slice_fits (by omega) (by omega), whole, frame,
      List.drop_left' (toLittle_length ..)]
    simp only [inverse _ _ encoded]
  constructor
  · rintro ⟨own, -, received⟩
    by_contra above
    have failed := received []
    rw [arrival, if_neg above, recvFrame] at failed
    cases failed
  · intro within
    refine ⟨msg, rfl, fun rest => ?_⟩
    rw [arrival, if_pos within, recvFrame, decoded]
    rfl

/-- what is sent without a length is not decoded to its message, because what is decoded
leaves out four of the bytes, -/
theorem not_decodes_bare (shortest : codec.Shortest) (encoded : codec.toAllocvec msg = .ok payload) :
    ¬ Decodes codec limit ⟨some msg, payload⟩ := by
  rintro ⟨own, same, received⟩
  cases same
  have answered := received []
  rw [arrival] at answered
  split at answered
  · rw [recvFrame, recvBinary] at answered
    split at answered
    · cases answered
    · rename_i long
      cases cut : slice payload 4 (4 + declared payload) with
      | none =>
        rw [cut] at answered
        cases answered
      | some part =>
        rw [cut] at answered
        cases decoded : codec.fromBytes part with
        | error text =>
          simp only [decoded] at answered
          cases answered
        | ok other =>
          simp only [decoded] at answered
          cases answered
          have least := shortest _ _ _ decoded encoded
          rw [slice] at cut
          split at cut
          · cases cut
            rw [List.length_drop, List.length_take] at least
            omega
          · cases cut
  · cases answered

/-- and there is no message for what is sent again. -/
theorem not_decodes_again (data : Bytes) : ¬ Decodes codec limit ⟨none, data⟩ := by
  rintro ⟨own, same, -⟩
  cases same

/-- The step sends more, and it is decoded if and only if the condition holds. -/
def Adds (codec : Codec Message) (limit : Nat) (s t : Sdk) (condition : Prop) : Prop :=
  ∃ added, t.sent = s.sent ++ added ∧ ((∀ sent ∈ added, Decodes codec limit sent) ↔ condition)

variable {condition : Prop}

theorem Adds.nothing (same : t.sent = s.sent) (holds : condition) : Adds codec limit s t condition :=
  ⟨[], by rw [same, List.append_nil], iff_of_true (fun _ member => absurd member List.not_mem_nil) holds⟩

theorem Adds.message {built : Option Message} {data : Bytes} (more : t.sent = s.sent ++ [⟨built, data⟩])
    (decodes : Decodes codec limit ⟨built, data⟩ ↔ condition) : Adds codec limit s t condition :=
  ⟨_, more, by rw [List.forall_mem_singleton, decodes]⟩

theorem encodeFrameBytes_ok_iff {bytes : Bytes} :
    encodeFrameBytes codec msg = .ok bytes ↔
      ∃ payload, codec.toAllocvec msg = .ok payload ∧ (frame payload).length < 2 ^ 31 ∧ bytes = frame payload := by
  rw [encodeFrameBytes]
  cases encoded : codec.toAllocvec msg with
  | error text => simp
  | ok payload =>
    simp only [Except.ok.injEq, exists_eq_left', frame_length]
    by_cases fits : 4 + payload.length < 2 ^ 31
    · have whole : payload.length % 2 ^ 32 = payload.length := Nat.mod_eq_of_lt (by omega)
      rw [if_pos fits, whole, and_iff_right fits, Except.ok.injEq]
      exact eq_comm
    · rw [if_neg fits]
      simp only [fits, false_and, reduceCtorEq]

theorem use_ok_iff {α : Type} {h : ClientCoreHandle} {method : ClientCore → Except Thrown α × List Call × ClientCore}
    {value : α} : (h.use method).1 = .ok value ↔ h.borrowed = false ∧ (method h.core).1 = .ok value := by
  rw [ClientCoreHandle.use]
  cases h.borrowed <;> simp

theorem calling_ok_iff {α : Type} {method : ClientCore → Except Thrown α × List Call × ClientCore} {value : α} :
    (s.calling argument method).1 = .ok value ↔
      s.handle.borrowed = false ∧ argument.length < 2 ^ 31 ∧ (method s.handle.core).1 = .ok value := by
  rw [Sdk.calling]
  by_cases fits : argument.length < 2 ^ 31
  · rw [if_pos fits, use_ok_iff, and_iff_right fits]
  · rw [if_neg fits]
    simp only [fits, false_and, and_false, reduceCtorEq]

theorem building_ok_iff {bytes : Bytes} :
    (s.calling argument (build codec builder)).1 = .ok bytes ↔
      ∃ payload, Sends codec s argument (builder s.handle.core).1 payload ∧ bytes = frame payload := by
  have built : (build codec builder s.handle.core).1 = encodeFrameBytes codec (builder s.handle.core).1 := rfl
  rw [calling_ok_iff, built, encodeFrameBytes_ok_iff]
  constructor
  · rintro ⟨free, fits, payload, encoded, short, same⟩
    exact ⟨payload, ⟨free, fits, encoded, short⟩, same⟩
  · rintro ⟨payload, ⟨free, fits, encoded, short⟩, same⟩
    exact ⟨free, fits, payload, encoded, short, same⟩

theorem Sends.within_iff (sends : Sends codec s argument msg payload) :
    WithinLimit codec limit s argument msg ↔ (frame payload).length ≤ limit := by
  refine ⟨fun within => within payload sends, fun short other again => ?_⟩
  have same := sends.2.2.1.symm.trans again.2.2.1
  cases same
  exact short

theorem Sends.decodes (inverse : codec.Inverse) (sends : Sends codec s argument msg payload) :
    Decodes codec limit ⟨some msg, frame payload⟩ ↔ WithinLimit codec limit s argument msg := by
  rw [decodes_frame inverse sends.2.2.1 sends.2.2.2, sends.within_iff]

theorem not_sends {thrown : Thrown} {handle : ClientCoreHandle}
    (called : s.calling argument (build codec builder) = (.error thrown, handle)) (payload : Bytes) :
    ¬ Sends codec s argument (builder s.handle.core).1 payload := by
  intro sends
  have ok := building_ok_iff.2 ⟨payload, sends, rfl⟩
  rw [called] at ok
  cases ok

theorem within_inUse (inUse : s.handle.borrowed = true) : WithinLimit codec limit s argument msg := by
  intro payload sends
  rw [sends.1] at inUse
  cases inUse

theorem within_unframed {thrown : Thrown} (unframed : encodeFrameBytes codec msg = .error thrown) :
    WithinLimit codec limit s argument msg := by
  intro payload sends
  have ok := encodeFrameBytes_ok_iff.2 ⟨payload, sends.2.2.1, sends.2.2.2, rfl⟩
  rw [unframed] at ok
  cases ok

theorem sending_adds (inverse : codec.Inverse) (limit : Nat) (s : Sdk) (argument : Bytes)
    (builder : ClientCore → Message × ClientCore) :
    Adds codec limit s (s.sending codec argument builder)
      (WithinLimit codec limit s argument (builder s.handle.core).1) := by
  rw [Sdk.sending]
  cases called : s.calling argument (build codec builder) with
  | mk result handle =>
    cases result with
    | error thrown => exact .nothing rfl (fun payload sends => absurd sends (not_sends called payload))
    | ok bytes =>
      obtain ⟨payload, sends, rfl⟩ := building_ok_iff.1 (congrArg Prod.fst called)
      exact .message rfl (sends.decodes inverse)

theorem request_adds (inverse : codec.Inverse) (limit : Nat) (s : Sdk) (name : String) (payload : Bytes) :
    Adds codec limit s (s.request codec name payload) (FineOperation codec limit s (.request name payload)) := by
  rw [Sdk.request, FineOperation]
  cases called : s.calling payload (build codec (s.requestBuilder name payload)) with
  | mk result handle =>
    cases result with
    | ok bytes =>
      obtain ⟨own, sends, rfl⟩ := building_ok_iff.1 (congrArg Prod.fst called)
      refine .message rfl ?_
      rw [sends.decodes inverse]
      exact (and_iff_left (fun _ => ⟨own, sends⟩)).symm
    | error thrown =>
      have never := not_sends called
      cases kept : s.pendingFrame with
      | none => exact .nothing rfl ⟨fun own sends => absurd sends (never own), fun some => absurd rfl some⟩
      | some frame =>
        refine .message rfl ?_
        refine iff_of_false (not_decodes_again frame) (fun fine => ?_)
        obtain ⟨own, sends⟩ := fine.2 (Option.some_ne_none frame)
        exact never own sends

theorem emitUnreliable_adds (shortest : codec.Shortest) (limit : Nat) (s : Sdk) (name : String) (payload : Bytes) :
    Adds codec limit s (s.emitUnreliable codec name payload)
      (FineOperation codec limit s (.emitUnreliable name payload)) := by
  have made : ∀ data, (s.calling payload (Sdk.datagramEvent codec name payload)).1 = .ok data ↔
      s.handle.borrowed = false ∧ payload.length < 2 ^ 31 ∧
        codec.toAllocvec (s.handle.core.buildEvent name payload).1 = .ok data ∧ data.length < 2 ^ 31 := by
    intro data
    rw [calling_ok_iff, Sdk.datagramEvent, ClientCore.buildDatagramEvent]
    cases encoded : codec.toAllocvec (s.handle.core.buildEvent name payload).1 with
    | error text => simp [encoded]
    | ok bytes =>
      simp only [encoded]
      by_cases fits : bytes.length < 2 ^ 31
      · rw [if_pos fits]
        simp only [Except.ok.injEq]
        constructor
        · rintro ⟨free, short, rfl⟩
          exact ⟨free, short, rfl, fits⟩
        · rintro ⟨free, short, rfl, -⟩
          exact ⟨free, short, rfl⟩
      · rw [if_neg fits]
        simp only [reduceCtorEq, and_false, false_iff]
        rintro ⟨-, -, same, short⟩
        cases same
        exact fits short
  rw [Sdk.emitUnreliable, FineOperation]
  cases called : s.calling payload (Sdk.datagramEvent codec name payload) with
  | mk result handle =>
    cases result with
    | ok data =>
      have sends := (made data).1 (congrArg Prod.fst called)
      refine .message rfl ?_
      exact iff_of_false (not_decodes_bare shortest sends.2.2.1) (fun fine => fine ⟨data, sends⟩)
    | error thrown =>
      refine .nothing rfl ?_
      rintro ⟨data, sends⟩
      have ok := (made data).2 sends
      rw [called] at ok
      cases ok

theorem calling_open (free : s.handle.borrowed = false) :
    s.calling [] Sdk.openStream =
      (.ok s.handle.core.openStream.1, ⟨s.handle.core.openStream.2, s.handle.calls ++ [], false⟩) := by
  rw [Sdk.calling, if_pos (by decide), ClientCoreHandle.use, if_neg (by rw [free]; exact Bool.false_ne_true)]
  rfl

theorem calling_inUse {α : Type} (inUse : s.handle.borrowed = true) (argument : Bytes)
    (method : ClientCore → Except Thrown α × List Call × ClientCore) :
    ∃ thrown, s.calling argument method = (.error thrown, s.handle) := by
  rw [Sdk.calling, ClientCoreHandle.use, if_pos inUse]
  split <;> exact ⟨_, rfl⟩

theorem createStream_adds (inverse : codec.Inverse) (limit : Nat) (s : Sdk) (name : String) (metadata : StreamMetadata) :
    Adds codec limit s (s.createStream codec name metadata)
      (FineOperation codec limit s (.createStream name metadata)) := by
  rw [Sdk.createStream, FineOperation]
  cases free : s.handle.borrowed with
  | true =>
    obtain ⟨thrown, called⟩ := calling_inUse free [] Sdk.openStream
    rw [called]
    exact .nothing rfl (fun entries _ => within_inUse free)
  | false =>
    rw [calling_open free]
    cases got : getMetadata metadata with
    | error text => exact .nothing rfl (fun entries other => nomatch other)
    | ok entries =>
      obtain ⟨added, more, decodes⟩ := sending_adds inverse limit
        { s with handle := ⟨s.handle.core.openStream.2, s.handle.calls ++ [], false⟩ } []
        (fun core => (ClientCore.buildStreamOpen s.handle.core.openStream.1 name entries, core))
      refine ⟨added, more, decodes.trans ⟨fun within => ?_, fun all => ?_⟩⟩
      · intro other same payload sends
        cases same
        exact within payload ⟨rfl, sends.2⟩
      · exact fun payload sends => all entries rfl payload ⟨free, sends.2⟩

theorem replying_adds (inverse : codec.Inverse) (limit : Nat) (s : Sdk) (id : JsId) (argument : Bytes)
    (reply : UInt64 → Message) :
    Adds codec limit s (s.replying codec id argument reply)
      (∀ own, id.toU64 = .ok own → WithinLimit codec limit s argument (reply own)) := by
  rw [Sdk.replying]
  cases got : id.toU64 with
  | error thrown => exact .nothing rfl (fun own other => nomatch other)
  | ok own =>
    obtain ⟨added, more, decodes⟩ := sending_adds inverse limit s argument (fun core => (reply own, core))
    refine ⟨added, more, decodes.trans ⟨fun within => ?_, fun all => all own rfl⟩⟩
    intro other same
    cases same
    exact within

theorem perform_adds (inverse : codec.Inverse) (shortest : codec.Shortest) (limit : Nat) (s : Sdk) (op : Operation) :
    Adds codec limit s (s.perform codec op) (FineOperation codec limit s op) := by
  cases op with
  | request name payload => exact request_adds inverse limit s name payload
  | emit name payload => exact sending_adds inverse limit s payload _
  | emitUnreliable name payload => exact emitUnreliable_adds shortest limit s name payload
  | createStream name metadata => exact createStream_adds inverse limit s name metadata
  | send id payload now => exact sending_adds inverse limit s payload _
  | finish id => exact sending_adds inverse limit s [] _
  | finishWith id code message => exact sending_adds inverse limit s [] _
  | sendResponse id value => exact replying_adds inverse limit s id value _
  | sendError id text => exact replying_adds inverse limit s id [] _
  | _ => exact .nothing rfl trivial

section Meanwhile

/-- While the state machine is in use every call throws, -/
theorem perform_inUse (inUse : s.handle.borrowed = true) (op : Operation) :
    (s.perform codec op).handle = s.handle ∧ (s.perform codec op).pendingFrame = s.pendingFrame := by
  have sends : ∀ argument builder, s.sending codec argument builder = s := by
    intro argument builder
    obtain ⟨thrown, called⟩ := calling_inUse inUse argument (build codec builder)
    rw [Sdk.sending, called]
  have replies : ∀ id argument reply, s.replying codec id argument reply = s := by
    intro id argument reply
    rw [Sdk.replying]
    split
    · exact sends _ _
    · rfl
  have registers : ∀ change, s.registering change = s := by
    intro change
    obtain ⟨thrown, called⟩ := calling_inUse inUse []
      (fun core => ((.ok () : Except Thrown Unit), ([] : List Call), change core))
    rw [Sdk.registering, called]
  cases op with
  | request name payload =>
    obtain ⟨thrown, called⟩ := calling_inUse inUse payload (build codec (s.requestBuilder name payload))
    rw [Sdk.perform, Sdk.request, called]
    cases kept : s.pendingFrame with
    | none => exact ⟨rfl, rfl⟩
    | some frame => exact ⟨rfl, rfl⟩
  | emitUnreliable name payload =>
    obtain ⟨thrown, called⟩ := calling_inUse inUse payload (Sdk.datagramEvent codec name payload)
    rw [Sdk.perform, Sdk.emitUnreliable, called]
    exact ⟨rfl, rfl⟩
  | createStream name metadata =>
    obtain ⟨thrown, called⟩ := calling_inUse inUse [] Sdk.openStream
    rw [Sdk.perform, Sdk.createStream, called]
    exact ⟨rfl, rfl⟩
  | emit name payload => simp only [Sdk.perform, sends, and_self]
  | send id payload now => simp only [Sdk.perform, sends, and_self]
  | finish id => simp only [Sdk.perform, sends, and_self]
  | finishWith id code message => simp only [Sdk.perform, sends, and_self]
  | sendResponse id value => simp only [Sdk.perform, replies, and_self]
  | sendError id text => simp only [Sdk.perform, replies, and_self]
  | _ => simp only [Sdk.perform, registers, and_self]

/-- and only a request sends anything, which is another's frame. -/
theorem fine_inUse (inUse : s.handle.borrowed = true) (op : Operation) :
    FineOperation codec limit s op ↔ (s.pendingFrame ≠ none → op.isRequest = false) := by
  have within : ∀ {argument msg}, WithinLimit codec limit s argument msg := within_inUse inUse
  cases op with
  | request name payload =>
    rw [FineOperation, and_iff_right within]
    constructor
    · intro again some
      obtain ⟨own, sends⟩ := again some
      rw [sends.1] at inUse
      cases inUse
    · intro none some
      cases none some
  | emitUnreliable name payload =>
    refine iff_of_true ?_ (fun _ => rfl)
    rintro ⟨sent, free, -⟩
    rw [free] at inUse
    cases inUse
  | createStream name metadata => exact iff_of_true (fun entries got => within) (fun _ => rfl)
  | sendResponse id value => exact iff_of_true (fun own got => within) (fun _ => rfl)
  | sendError id text => exact iff_of_true (fun own got => within) (fun _ => rfl)
  | emit name payload => exact iff_of_true within (fun _ => rfl)
  | send id payload now => exact iff_of_true within (fun _ => rfl)
  | finish id => exact iff_of_true within (fun _ => rfl)
  | finishWith id code message => exact iff_of_true within (fun _ => rfl)
  | _ => exact iff_of_true trivial (fun _ => rfl)

theorem meanwhile_adds (inverse : codec.Inverse) (shortest : codec.Shortest) (limit : Nat) (s : Sdk)
    (inUse : s.handle.borrowed = true) (meanwhile : List Operation) :
    Adds codec limit s (meanwhile.foldl (Sdk.perform codec) s)
      (s.pendingFrame ≠ none → ∀ op ∈ meanwhile, op.isRequest = false) := by
  induction meanwhile generalizing s with
  | nil => exact .nothing rfl (fun _ op member => absurd member List.not_mem_nil)
  | cons op rest ih =>
    obtain ⟨handle, kept⟩ := perform_inUse inUse op
    obtain ⟨first, grown, decodes⟩ := perform_adds inverse shortest limit s op
    obtain ⟨later, more, others⟩ := ih (s.perform codec op) (by rw [handle, inUse])
    rw [kept] at others
    rw [fine_inUse inUse] at decodes
    refine ⟨first ++ later, ?_, ?_⟩
    · rw [List.foldl_cons, more, grown, List.append_assoc]
    · rw [List.forall_mem_append, decodes, others, List.forall_mem_cons]
      exact ⟨fun both some => ⟨both.1 some, both.2 some⟩, fun all => ⟨fun some => (all some).1, fun some => (all some).2⟩⟩

end Meanwhile

section Replies

variable {checks : Bool} {received : Slice} {core : ClientCore}

theorem handleInbound_reply {resp : Message} (reply : Sdk.replyTo codec checks received core = some resp) :
    (handleInbound codec checks received core).1 = (encodeFrameBytes codec resp).map some := by
  rw [Sdk.replyTo] at reply
  rw [handleInbound]
  split at reply
  · rename_i msg decoded
    simp only [decoded, reply]
  · cases reply

theorem handleInbound_silent (silent : Sdk.replyTo codec checks received core = none) (bytes : Bytes) :
    (handleInbound codec checks received core).1 ≠ .ok (some bytes) := by
  rw [Sdk.replyTo] at silent
  rw [handleInbound]
  split at silent
  · rename_i msg decoded
    simp only [decoded, silent]
    intro sent
    cases sent
  · rename_i other
    cases decoded : decodeInbound codec checks received with
    | panicked | refused =>
      intro sent
      cases sent
    | accepted msg => exact absurd decoded (other msg)

theorem answered_adds (inverse : codec.Inverse) (shortest : codec.Shortest) (limit : Nat) (checks : Bool) (s : Sdk)
    (data : Bytes) (meanwhile : List Operation) (fits : data.length < 2 ^ 31) (free : s.handle.borrowed = false) :
    Adds codec limit s (s.onMessage codec checks data meanwhile) (Fine codec limit checks s (.message data meanwhile)) := by
  obtain ⟨added, more, decodes⟩ :=
    meanwhile_adds inverse shortest limit { s with handle := { s.handle with borrowed := true } } rfl meanwhile
  have grown : ∀ handle, ({ meanwhile.foldl (Sdk.perform codec) { s with handle := { s.handle with borrowed := true } } with
      handle } : Sdk).sent = s.sent ++ added := fun handle => more
  rw [Sdk.onMessage, dif_pos fits, ClientCoreHandle.use, if_neg (Bool.eq_false_iff.1 free)]
  cases reply : Sdk.replyTo codec checks ⟨data, fits⟩ s.handle.core with
  | none =>
    have silent := handleInbound_silent reply
    refine ⟨added, ?_, decodes.trans ⟨fun calm => ⟨calm, fun _ resp got => ?_⟩, fun both => both.1⟩⟩
    · dsimp only
      split
      · rename_i bytes sent
        exact absurd sent (silent bytes)
      · exact grown _
    · rw [reply] at got
      cases got
  | some resp =>
    have result := handleInbound_reply reply
    have within : (∀ (fits : data.length < 2 ^ 31) other, Sdk.replyTo codec checks ⟨data, fits⟩ s.handle.core = some other →
        WithinLimit codec limit s data other) ↔ WithinLimit codec limit s data resp := by
      constructor
      · exact fun all => all fits resp reply
      · intro one _ other got
        rw [reply] at got
        cases got
        exact one
    rw [Fine, within]
    cases framed : encodeFrameBytes codec resp with
    | error thrown =>
      rw [framed] at result
      refine ⟨added, ?_, decodes.trans (and_iff_left (within_unframed framed)).symm⟩
      simp only [result]
      exact grown _
    | ok bytes =>
      rw [framed] at result
      obtain ⟨payload, encoded, short, rfl⟩ := encodeFrameBytes_ok_iff.1 framed
      have sends : Sends codec s data resp payload := ⟨free, fits, encoded, short⟩
      refine ⟨added ++ [⟨some resp, frame payload⟩], ?_, ?_⟩
      · simp only [result, Except.map, Sdk.wsSend, more, List.append_assoc]
      · rw [List.forall_mem_append, List.forall_mem_singleton, sends.decodes inverse, decodes]

theorem onMessage_adds (inverse : codec.Inverse) (shortest : codec.Shortest) (limit : Nat) (checks : Bool) (s : Sdk)
    (data : Bytes) (meanwhile : List Operation) (possible : meanwhile = [] ∨ s.heard codec checks data) :
    Adds codec limit s (s.onMessage codec checks data meanwhile) (Fine codec limit checks s (.message data meanwhile)) := by
  -- where no listener is called none of them calls anything
  have alone : s.heard codec checks data = false → meanwhile = [] := by
    intro unheard
    rwa [unheard, or_iff_left Bool.false_ne_true] at possible
  have calm : meanwhile = [] → s.pendingFrame ≠ none → ∀ op ∈ meanwhile, op.isRequest = false := by
    rintro rfl _ op member
    exact absurd member List.not_mem_nil
  by_cases fits : data.length < 2 ^ 31
  · cases free : s.handle.borrowed with
    | true =>
      have nobody : meanwhile = [] := alone (by rw [Sdk.heard, dif_pos fits, free]; rfl)
      refine .nothing ?_ ⟨calm nobody, fun _ resp _ => within_inUse free⟩
      rw [Sdk.onMessage, dif_pos fits, ClientCoreHandle.use, if_pos free, nobody]
      rfl
    | false => exact answered_adds inverse shortest limit checks s data meanwhile fits free
  · refine .nothing ?_ ⟨calm (alone (dif_neg fits)), fun within => absurd within fits⟩
    rw [Sdk.onMessage, dif_neg fits]

end Replies

/-- Along a run the server decodes all that is sent exactly when every step is fine. -/
theorem all_decode_iff_fine (inverse : codec.Inverse) (shortest : codec.Shortest) (limit : Nat) (checks : Bool)
    (labels : List Label) :
    Always (step codec checks) (AllDecode codec limit) .init labels ↔
      Guarded (step codec checks) (Fine codec limit checks) .init labels := by
  have adds : ∀ {s label t}, step codec checks s label = some t → Adds codec limit s t (Fine codec limit checks s label) := by
    intro s label t stepped
    cases label with
    | perform op =>
      cases stepped
      exact perform_adds inverse shortest limit s op
    | message data meanwhile =>
      rw [step] at stepped
      split at stepped
      · rename_i possible
        cases stepped
        exact onMessage_adds inverse shortest limit checks s data meanwhile possible
      · cases stepped
  have any : ∀ s label t, True → step codec checks s label = some t → True := fun _ _ _ _ _ => trivial
  apply always_iff_guarded any _ _ labels trivial
  · exact fun sent member => absurd member List.not_mem_nil
  · intro s label t _ before fine stepped
    obtain ⟨added, grown, decodes⟩ := adds stepped
    rw [AllDecode, grown, List.forall_mem_append]
    exact ⟨before, decodes.2 fine⟩
  · intro s label t _ _ stepped after
    obtain ⟨added, grown, decodes⟩ := adds stepped
    rw [AllDecode, grown, List.forall_mem_append] at after
    exact decodes.1 after.2

private theorem small_within (encoded : codec.toAllocvec msg = .ok payload) (short : (frame payload).length ≤ limit) :
    WithinLimit codec limit s argument msg := by
  intro other sends
  have same := encoded.symm.trans sends.2.2.1
  cases same
  exact short

/-- A stream with one frame, and an event of the server in between. -/
theorem all_decode_stream :
    Always (step wire false) (AllDecode wire 64) .init
      [.perform (.createStream "a" []), .message [5, 0, 0, 0, 2, 1, 1, 97, 0] [], .perform (.send 1 [7] 0)] := by
  refine (all_decode_iff_fine wire_inverse wire_shortest 64 false _).2 ?_
  have opened : Fine wire 64 false .init (.perform (.createStream "a" [])) := by
    intro entries got
    cases got
    have encoded : wire.toAllocvec (ClientCore.buildStreamOpen 1 "a" []) = .ok [3, 1, 1, 97, 0] := by decide
    exact small_within encoded (by decide)
  refine .cons rfl opened (.cons rfl ⟨?_, ?_⟩ (.cons rfl ?_ trivial))
  · exact fun _ op member => absurd member List.not_mem_nil
  · intro _ resp reply
    cases reply
  · have encoded : wire.toAllocvec (.stream ⟨1, 0, ⟨0⟩, [7]⟩) = .ok [4, 1, 0, 0, 1, 7] := by decide
    exact small_within encoded (by decide)

/-- An unreliable event is an error that ends the connection. -/
theorem unreliable_undecoded :
    ¬ Always (step wire false) (AllDecode wire (64 * 1024 * 1024)) .init [.perform (.emitUnreliable "pos" [1])] ∧
      (recvFrame wire [.binary [2, 1, 3, 112, 111, 115, 1, 1]]).1 = none := by
  refine ⟨fun always => ?_, rfl⟩
  have last := always.last rfl
  exact not_decodes_bare wire_shortest rfl (last _ (List.mem_singleton_self _))

end EchoStream.Web.Operations
