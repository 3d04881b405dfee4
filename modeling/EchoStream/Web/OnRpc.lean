import EchoStream.Web.Operations

/-! RPC handlers in the browser. The state machine calls them with the id as a number, and
the replies that are built later need it as a 64-bit integer, which a number is not. So
nothing that a handler does is ever answered. -/

namespace EchoStream.Web.OnRpc
open Proto.Messages Proto.Postcard
open Core.StateMachine
open Transport.WsFrames
open Handle Receive Operations

structure Platform (V E : Type) where
  encodePayload : Option V → Except E Bytes
  spreadArgs : Bytes → Except E (List V)
  text : E → String
  exception : Thrown → E

/-- What becomes of a promise. It may be resolved with `undefined`. -/
inductive Settles (V E : Type) where
  | resolved (value : Option V)
  | rejected (e : E)
  | pending

inductive Returned (V E : Type) where
  | undefined
  | value (v : V)
  | promise (p : Settles V E)

abbrev RpcHandler (V E : Type) := List V → Except E (Returned V E)

variable {V E : Type}

def buildReply (codec : Codec Message) (h : ClientCoreHandle) (id : JsId) (argument : Bytes) (reply : UInt64 → Message) :
    Except Thrown Bytes × ClientCoreHandle :=
  match id.toU64 with
  | .ok id =>
      if argument.length < 2 ^ 31 then h.use (build codec (fun core => (reply id, core))) else (.error .trap, h)
  | .error thrown => (.error thrown, h)

def errorFrame (codec : Codec Message) (platform : Platform V E) (h : ClientCoreHandle) (id : JsId) (e : E) :
    Except Thrown Bytes × ClientCoreHandle :=
  buildReply codec h id [] (ClientCore.buildErrorResponse · (platform.text e))

def sendResponse (codec : Codec Message) (platform : Platform V E) (h : ClientCoreHandle) (id : JsId) (value : Option V) :
    Except E Bytes × ClientCoreHandle :=
  match platform.encodePayload value with
  | .ok bytes =>
      let (result, h) := buildReply codec h id bytes (ClientCore.buildResponse · bytes)
      (result.mapError platform.exception, h)
  | .error e => (.error e, h)

/-- What is sent. An exception here is reported nowhere. -/
def sendError (codec : Codec Message) (platform : Platform V E) (h : ClientCoreHandle) (id : JsId) (e : E) :
    List Bytes × ClientCoreHandle :=
  match errorFrame codec platform h id e with
  | (.ok frame, h) => ([frame], h)
  | (.error _, h) => ([], h)

/-- The continuations of the promise, which run when the state machine is not in use any more. -/
def later (codec : Codec Message) (platform : Platform V E) (h : ClientCoreHandle) (id : JsId) :
    Settles V E → List Bytes × ClientCoreHandle
  | .resolved value =>
      match sendResponse codec platform h id value with
      | (.ok frame, h) => ([frame], h)
      | (.error e, h) => sendError codec platform h id e
  | .rejected e => sendError codec platform h id e
  | .pending => ([], h)

/-- A state machine that is in use. Nothing else about it matters to a call. -/
def busy : ClientCoreHandle := ⟨.new, [], true⟩

/-- The closure of `onRpc`: what it returns or throws, and the promise that it leaves. -/
def callback (codec : Codec Message) (platform : Platform V E) (handlers : AList (fun _ : String => RpcHandler V E))
    (name : String) (data : Bytes) (id : JsId) : Except E (Option Bytes) × Option (Settles V E) :=
  match handlers.lookup name with
  | none => (.ok none, none)
  | some handler =>
      match (platform.spreadArgs data).bind handler with
      | .ok .undefined => (.ok none, none)
      | .ok (.value v) => (.ok none, some (.resolved (some v)))
      | .ok (.promise p) => (.ok none, some p)
      | .error e => (((errorFrame codec platform busy id e).1.map some).mapError platform.exception, none)

/-- The closure as it is registered. It is given the id as a number, and what it throws
counts as no answer. -/
def listener (codec : Codec Message) (platform : Platform V E) (handlers : AList (fun _ : String => RpcHandler V E))
    (name : String) : RpcListener :=
  fun id data =>
    match (callback codec platform handlers name data (.number id.toFloat)).1 with
    | .ok returned => returned
    | .error _ => none

structure Rpcs (V E : Type) where
  handle : ClientCoreHandle
  handlers : AList (fun _ : String => RpcHandler V E)

def Rpcs.onRpc (codec : Codec Message) (platform : Platform V E) (name : String) (handler : RpcHandler V E)
    (s : Rpcs V E) : Rpcs V E :=
  let handlers := s.handlers.insert name handler
  let register := fun core : ClientCore =>
    ((.ok () : Except Thrown Unit), ([] : List Call), (core.onRpc name (listener codec platform handlers name)).2)
  ⟨(s.handle.use register).2, handlers⟩

/-- The state machine calls the closure for the name. -/
def Rpcs.Registered (codec : Codec Message) (platform : Platform V E) (s : Rpcs V E) (name : String) : Prop :=
  ∃ id, s.handle.core.rpcs.lookup name = some (id, listener codec platform s.handlers name)

/-- What is sent for a request: the frame that the call gives back, and what the promise's
continuations send. -/
def Rpcs.receive (codec : Codec Message) (platform : Platform V E) (checks : Bool) (frame : Slice) (req : RequestMsg)
    (s : Rpcs V E) : List Bytes :=
  let (result, handle) := s.handle.use (handleInbound codec checks frame)
  let promise :=
    if s.handle.borrowed then none
    else (callback codec platform s.handlers req.name req.data (.number req.id.toFloat)).2
  (outbound result).toList ++
    match promise with
    | some p => (later codec platform handle (.number req.id.toFloat) p).1
    | none => []

def produced : Except E (Returned V E) → Option V
  | .ok (.value v) => some v
  | .ok (.promise (.resolved value)) => value
  | _ => none

/-- One response with the request's id, which is a success with the value's encoding if
there is a value, and otherwise has an error message. -/
def Answered (codec : Codec Message) (platform : Platform V E) (req : RequestMsg) (outcome : Except E (Returned V E))
    (sent : List Bytes) : Prop :=
  ∃ resp frame, sent = [frame] ∧ encodeFrameBytes codec (.response resp) = .ok frame ∧ resp.id = req.id ∧
    match produced outcome with
    | some v => resp.code.isSuccess = true ∧ platform.encodePayload (some v) = .ok resp.data
    | none => resp.code.isSuccess = false ∧ resp.message.isSome = true

variable {codec : Codec Message} {platform : Platform V E} {s : Rpcs V E} {req : RequestMsg} {checks : Bool} {frame : Slice}

theorem onRpc_registered (free : s.handle.borrowed = false) (name : String) (handler : RpcHandler V E) :
    (s.onRpc codec platform name handler).Registered codec platform name := by
  refine ⟨s.handle.core.nextListenerId + 1, ?_⟩
  simp only [Rpcs.onRpc, ClientCoreHandle.use, free, Bool.false_eq_true, if_false, ClientCore.onRpc, ClientCore.takeNextListener,
    AList.lookup_insert]

/-- No reply can be built with a number for an id, -/
theorem later_number (platform : Platform V E) (h : ClientCoreHandle) (id : Float) (p : Settles V E) :
    (later codec platform h (.number id) p).1 = [] := by
  have refused : ∀ e, (sendError codec platform h (.number id) e).1 = [] := fun e => rfl
  cases p with
  | pending => rfl
  | rejected e => exact refused e
  | resolved value =>
    rw [later, sendResponse]
    cases platform.encodePayload value with
    | error e => exact refused e
    | ok bytes => exact refused _

/-- and none is returned. -/
theorem listener_none (platform : Platform V E) (handlers : AList (fun _ : String => RpcHandler V E)) (name : String)
    (id : UInt64) (data : Bytes) : listener codec platform handlers name id data = none := by
  rw [listener, callback]
  cases handlers.lookup name with
  | none => rfl
  | some handler =>
    cases outcome : (platform.spreadArgs data).bind handler with
    | error e => simp only [outcome]; rfl
    | ok returned => cases returned <;> simp only [outcome]

theorem receive_nothing (decodes : decodeInbound codec checks frame = .accepted (.request req))
    (registered : s.Registered codec platform req.name) : s.receive codec platform checks frame req = [] := by
  obtain ⟨id, registered⟩ := registered
  have silent : outbound (s.handle.use (handleInbound codec checks frame)).1 = none := by
    rw [ClientCoreHandle.use]
    split
    · rfl
    · simp only [handleInbound, decodes, ClientCore.handleInbound, registered, listener_none, Option.map_none]
      rfl
  unfold Rpcs.receive
  simp only [silent, Option.toList_none, List.nil_append]
  split
  · exact later_number ..
  · rfl

/-- Whatever a handler does with the request, it is not answered. -/
theorem never_answered (handler : RpcHandler V E) (decodes : decodeInbound codec checks frame = .accepted (.request req))
    (registered : s.Registered codec platform req.name) :
    ¬ Answered codec platform req ((platform.spreadArgs req.data).bind handler)
      (s.receive codec platform checks frame req) := by
  rintro ⟨resp, sent, one, -⟩
  rw [receive_nothing decodes registered] at one
  cases one

/-- Values that are bytes themselves. -/
private def plain : Platform Bytes String := ⟨fun value => .ok (value.getD [0]), fun data => .ok [data], id, fun _ => "TypeError"⟩

private def pong : RpcHandler Bytes String := fun _ => .ok (.value [4, 112, 111, 110, 103])

private def playing : Rpcs Bytes String := Rpcs.onRpc wire plain "ping" pong ⟨.new, ∅⟩

private def ping : Slice := ⟨[8, 0, 0, 0, 0, 7, 4, 112, 105, 110, 103, 0], by decide⟩

theorem never_answered_pong :
    ¬ Answered wire plain ⟨7, "ping", []⟩ ((plain.spreadArgs []).bind pong)
      (playing.receive wire plain false ping ⟨7, "ping", []⟩) :=
  never_answered pong rfl (onRpc_registered rfl "ping" pong)

/-- A handler that returns a value at once. -/
theorem pong_unanswered :
    produced ((plain.spreadArgs []).bind pong) = some [4, 112, 111, 110, 103] ∧
      playing.receive wire plain false ping ⟨7, "ping", []⟩ = [] ∧
      ¬ Answered wire plain ⟨7, "ping", []⟩ ((plain.spreadArgs []).bind pong)
      (playing.receive wire plain false ping ⟨7, "ping", []⟩) := by
  have nothing : playing.receive wire plain false ping ⟨7, "ping", []⟩ = [] :=
    receive_nothing rfl (onRpc_registered rfl "ping" pong)
  refine ⟨rfl, nothing, ?_⟩
  rintro ⟨resp, sent, one, -⟩
  rw [nothing] at one
  cases one

end EchoStream.Web.OnRpc
