import EchoStream.Foundation.Tasks
import EchoStream.Proto.Postcard

/-! What handlers and middlewares share: the state of the application, in which
every session has a map of typed values, and the handlers of requests, events
and streams as tasks over that state. Handlers of decoded data are made into
handlers of payloads by decoding first and, for requests, encoding the answer. -/

namespace EchoStream.Core.Handler
open Foundation.Tasks
open Proto.Messages Proto.Postcard

abbrev SessionId := UInt64

/-- A value stored with its type. Only the type `bool` is told apart here. -/
inductive AnyValue where
  | bool (value : Bool)
  | other (typeId : Nat) (content : Bytes)
deriving DecidableEq, Repr

structure App (ω : Type) where
  states : SessionId → String → Option AnyValue
  rest : ω

variable {ω α β : Type}

namespace App

def set (app : App ω) (session : SessionId) (key : String) (value : AnyValue) : App ω :=
  { app with states := fun other name =>
      if other = session ∧ name = key then some value else app.states other name }

def getBool (app : App ω) (session : SessionId) (key : String) : Option Bool :=
  match app.states session key with
  | some (.bool value) => some value
  | _ => none

theorem set_states_other (app : App ω) {session other : SessionId} (differ : other ≠ session)
    (key name : String) (value : AnyValue) :
    (app.set session key value).states other name = app.states other name := by
  simp [set, differ]

theorem getBool_congr {app later : App ω} {session : SessionId} {key : String}
    (same : later.states session key = app.states session key) :
    later.getBool session key = app.getBool session key := by
  rw [getBool, getBool, same]

end App

/-- What the successive reads of a stream return. Past the last one the stream
has ended. -/
abbrev FrameIo := List (Result (Option Message))

def encode (codec : Codec α) (value : α) : Result Bytes :=
  match codec.toAllocvec value with
  | .ok payload => .ok payload
  | .error text => .error (.serialization text)

def decode (codec : Codec α) (payload : Bytes) : Result α :=
  match codec.fromBytes payload with
  | .ok value => .ok value
  | .error text => .error (.serialization text)

structure RpcHandler (ω : Type) where
  name : String
  handleEncoded : SessionId → Bytes → Task (App ω) (Result Bytes)

structure EventHandler (ω : Type) where
  name : String
  handleEncoded : SessionId → Bytes → Task (App ω) (Result Unit)

structure StreamReceiver where
  recv : FrameIo
  first : StreamMsg
  metadata : List StreamMetaEntry
  name : String

structure StreamHandler (ω : Type) where
  name : String
  handle : SessionId → StreamReceiver → Task (App ω) (Result Unit)

def RpcHandler.typed (name : String) (request : Codec α) (response : Codec β)
    (handle : SessionId → α → Task (App ω) (Result β)) : RpcHandler ω where
  name
  handleEncoded session payload :=
    match decode request payload with
    | .error e => pure (.error e)
    | .ok req => do
        match ← handle session req with
        | .error e => pure (.error e)
        | .ok resp => pure (encode response resp)

def EventHandler.typed (name : String) (codec : Codec α)
    (handle : SessionId → α → Task (App ω) (Result Unit)) : EventHandler ω where
  name
  handleEncoded session payload :=
    match decode codec payload with
    | .error e => pure (.error e)
    | .ok data => handle session data

end EchoStream.Core.Handler
