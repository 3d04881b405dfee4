import EchoStream.Core.Dispatch

/-! What a connection does with the streams its peer opens. The server, the
WebTransport server and the client have each their own copy of it. The copies
differ in whether the tail of an event stream is read, and in who does the work,
the accept loop or a task of its own. Served alone, a stream is what it has the
router dispatch. -/

namespace EchoStream.Core.Connection
open Foundation.Tasks
open Proto.Messages
open Handler Chain Dispatch

inductive Front where
  | server
  | web
  | client
deriving DecidableEq

inductive Direction where
  | bi
  | uni
deriving DecidableEq

variable {ω : Type}

/-- The requests of the RPC channel, each answered before the next is read. -/
def serveChannel (clock : Clock ω) (router : Router ω) (session : SessionId) (stream : Nat) :
    FrameIo → Task (World ω) Unit
  | .ok (some (.request req)) :: rest => do
      dispatchRpc clock router session stream req
      serveChannel clock router session stream rest
  | .ok (some _) :: rest => serveChannel clock router session stream rest
  | _ => pure ()

def serveEvents (clock : Clock ω) (router : Router ω) (session : SessionId) : FrameIo → Task (World ω) Unit
  | .ok (some (.event event)) :: rest => do
      dispatchEvent clock router session event
      serveEvents clock router session rest
  | .ok (some _) :: rest => serveEvents clock router session rest
  | _ => pure ()

/-- The servers read out what is left after a request, the client does not. Neither
dispatches any of it. -/
def serveBi (clock : Clock ω) (router : Router ω) (session : SessionId) (stream : Nat) :
    FrameIo → Task (World ω) Unit
  | .ok (some (.request req)) :: rest =>
      if req.name = rpcChannelName then serveChannel clock router session stream rest
      else dispatchRpc clock router session stream req
  | .ok (some (.streamOpen opened)) :: rest => dispatchStream clock router session rest opened
  | _ => pure ()

/-- The client takes only the first event of an event stream. -/
def serveUni (front : Front) (clock : Clock ω) (router : Router ω) (session : SessionId) :
    FrameIo → Task (World ω) Unit
  | .ok (some (.event event)) :: rest => do
      dispatchEvent clock router session event
      match front with
      | .client => pure ()
      | .server | .web => serveEvents clock router session rest
  | .ok (some (.streamOpen opened)) :: rest => dispatchStream clock router session rest opened
  | _ => pure ()

def serve (front : Front) (dir : Direction) (clock : Clock ω) (router : Router ω) (session : SessionId)
    (stream : Nat) (contents : FrameIo) : Task (World ω) Unit :=
  match dir with
  | .bi => serveBi clock router session stream contents
  | .uni => serveUni front clock router session contents

def requests : FrameIo → List RequestMsg
  | .ok (some (.request req)) :: rest => req :: requests rest
  | .ok (some _) :: rest => requests rest
  | _ => []

def events : FrameIo → List EventMsg
  | .ok (some (.event event)) :: rest => event :: events rest
  | .ok (some _) :: rest => events rest
  | _ => []

/-- What reaches the router from a stream with these contents. -/
def arrivals (front : Front) (dir : Direction) (session : SessionId) (stream : Nat) : FrameIo → List Arrival
  | .ok (some (.request req)) :: rest =>
      match dir with
      | .bi =>
          if req.name = rpcChannelName then (requests rest).map (.rpc session stream)
          else [.rpc session stream req]
      | .uni => []
  | .ok (some (.event event)) :: rest =>
      match dir, front with
      | .bi, _ => []
      | .uni, .client => [.event session event]
      | .uni, .server | .uni, .web => .event session event :: (events rest).map (.event session)
  | .ok (some (.streamOpen opened)) :: rest => [.stream session rest opened]
  | _ => []

def messageOf : Arrival → Message
  | .rpc _ _ req => .request req
  | .event _ event => .event event
  | .stream _ _ opened => .streamOpen opened
  | .datagram _ msg => msg

def served (front : Front) (dir : Direction) (contents : FrameIo) : List Message :=
  (arrivals front dir 0 0 contents).map messageOf

def dispatchAll (clock : Clock ω) (router : Router ω) : List Arrival → Task (World ω) Unit
  | [] => pure ()
  | arrival :: rest => do
      dispatch clock router arrival
      dispatchAll clock router rest

variable {clock : Clock ω} {router : Router ω} {session : SessionId} {stream : Nat}

theorem serveChannel_eq (contents : FrameIo) :
    serveChannel clock router session stream contents =
      dispatchAll clock router ((requests contents).map (.rpc session stream)) := by
  induction contents with
  | nil => rfl
  | cons result rest ih =>
    rcases result with e | msg
    · rfl
    · cases msg with
      | none => rfl
      | some msg =>
        cases msg with
        | request req => rw [serveChannel, ih]; rfl
        | _ => exact ih

theorem serveEvents_eq (contents : FrameIo) :
    serveEvents clock router session contents = dispatchAll clock router ((events contents).map (.event session)) := by
  induction contents with
  | nil => rfl
  | cons result rest ih =>
    rcases result with e | msg
    · rfl
    · cases msg with
      | none => rfl
      | some msg =>
        cases msg with
        | event event => rw [serveEvents, ih]; rfl
        | _ => exact ih

theorem bind_unit (task : Task (World ω) Unit) : (task >>= fun _ => pure ()) = task := by
  induction task with
  | done value => rfl
  | step update next ih =>
    rw [Task.step_bind]
    congr
    funext world
    exact ih world

/-- Serving a stream is dispatching what arrives on it. -/
theorem serve_eq (front : Front) (dir : Direction) (contents : FrameIo) :
    serve front dir clock router session stream contents =
      dispatchAll clock router (arrivals front dir session stream contents) := by
  cases contents with
  | nil => cases dir <;> rfl
  | cons result rest =>
    rcases result with e | msg
    · cases dir <;> rfl
    · cases msg with
      | none => cases dir <;> rfl
      | some msg =>
        cases msg with
        | request req =>
          cases dir with
          | bi =>
            rw [serve, serveBi, arrivals]
            by_cases reserved : req.name = rpcChannelName
            · rw [if_pos reserved, if_pos reserved, serveChannel_eq]
            · rw [if_neg reserved, if_neg reserved]
              exact (bind_unit _).symm
          | uni => rfl
        | event event =>
          cases dir with
          | bi => rfl
          | uni => cases front <;> simp only [serve, serveUni, arrivals, serveEvents_eq] <;> rfl
        | streamOpen opened => cases dir <;> exact (bind_unit _).symm
        | _ => cases dir <;> rfl

end EchoStream.Core.Connection
