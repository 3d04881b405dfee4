import Mathlib.Tactic.Common

/-! The messages of the protocol, its status codes, and the errors with the
texts they are shown with. Identifiers and codes have the machine widths of the
source, payloads are byte lists. -/

namespace EchoStream.Proto.Messages

abbrev Bytes := List UInt8

def rpcChannelName : String := "$channel"

structure Timestamp where
  millis : UInt64
deriving DecidableEq, Repr

structure StatusCode where
  code : UInt16
deriving DecidableEq, Repr

namespace StatusCode

def success : StatusCode := ⟨0⟩
def error : StatusCode := ⟨1⟩
def timeout : StatusCode := ⟨2⟩
def notFound : StatusCode := ⟨3⟩
def forbidden : StatusCode := ⟨4⟩
def invalidParam : StatusCode := ⟨5⟩

def isSuccess (status : StatusCode) : Bool := status.code == 0

theorem isSuccess_iff (status : StatusCode) : status.isSuccess = true ↔ status = success := by
  rcases status with ⟨code⟩
  simp [isSuccess, success]

end StatusCode

structure StreamMetaEntry where
  key : String
  value : Bytes
deriving DecidableEq, Repr

structure RequestMsg where
  id : UInt64
  name : String
  data : Bytes
deriving DecidableEq, Repr

structure ResponseMsg where
  id : UInt64
  code : StatusCode
  message : Option String
  data : Bytes
deriving DecidableEq, Repr

structure EventMsg where
  id : UInt64
  name : String
  data : Bytes
deriving DecidableEq, Repr

structure StreamOpenMsg where
  id : UInt64
  name : String
  metadata : List StreamMetaEntry
deriving DecidableEq, Repr

structure StreamMsg where
  id : UInt64
  seq : UInt64
  senderTs : Timestamp
  data : Bytes
deriving DecidableEq, Repr

structure StreamEndMsg where
  id : UInt64
  code : UInt16
  message : Option String
  metadata : List StreamMetaEntry
deriving DecidableEq, Repr

inductive Message where
  | request (msg : RequestMsg)
  | response (msg : ResponseMsg)
  | event (msg : EventMsg)
  | streamOpen (msg : StreamOpenMsg)
  | stream (msg : StreamMsg)
  | streamEnd (msg : StreamEndMsg)
deriving DecidableEq, Repr

inductive Error where
  | io (text : String)
  | serialization (text : String)
  | protocol (text : String)
  | timeout (id : UInt64)
  | rpc (code : UInt16) (text : String)
  | handlerNotFound (name : String)
  | sessionClosed
  | invalidParameter (text : String)
deriving DecidableEq, Repr

namespace Error

/-- How the error is shown, which is what a response says about it. -/
def text : Error → String
  | io text => "IO error: " ++ text
  | serialization text => "serialization error: " ++ text
  | protocol text => "protocol error: " ++ text
  | timeout id => "request " ++ toString id ++ " timed out"
  | rpc code text => "rpc error (code " ++ toString code ++ "): " ++ text
  | handlerNotFound name => "handler not found: " ++ name
  | sessionClosed => "session closed"
  | invalidParameter text => "invalid parameter: " ++ text

private theorem append_ne {front : String} (some_front : 0 < front.length) (back : String) :
    front ++ back ≠ back := by
  intro same
  have lengths := congrArg String.length same
  rw [String.length_append] at lengths
  omega

/-- An RPC error is shown with its code in front, so it never shows as its own
message alone. -/
theorem text_rpc_ne (code : UInt16) (message : String) : (rpc code message).text ≠ message := by
  apply append_ne
  rw [String.length_append, String.length_append]
  exact Nat.add_pos_left (Nat.add_pos_left (by decide) _) _

end Error

abbrev Result (α : Type) := Except Error α

end EchoStream.Proto.Messages
