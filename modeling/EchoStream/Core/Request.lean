import EchoStream.Core.Dispatch

/-! The caller's side of a request. On a stream of its own the caller reads up to
the response with its id; on the channel the reader loop hands each response to
the request waiting under its id. Both turn the response into a result the same
way, so what a handler's outcome becomes at the caller is one function, and it
is faithful exactly on the outcomes that are not RPC errors: the server puts the
error as it is shown, code included, where the caller takes the message from. -/

namespace EchoStream.Core.Request
open Foundation.Tasks
open Proto.Messages
open Handler Chain Dispatch

def settle (resp : ResponseMsg) : Result Bytes :=
  if resp.code.isSuccess then .ok resp.data else .error (.rpc resp.code.code (resp.message.getD ""))

def awaitResponse (id : UInt64) : FrameIo → Result ResponseMsg
  | [] => .error .sessionClosed
  | .ok (some (.response r)) :: rest => if r.id = id then .ok r else awaitResponse id rest
  | .ok (some _) :: rest => awaitResponse id rest
  | .ok none :: _ => .error .sessionClosed
  | .error e :: _ => .error e

def requestRawStream (id : UInt64) (recv : FrameIo) : Result Bytes :=
  match awaitResponse id recv with
  | .ok resp => settle resp
  | .error e => .error e

/-- The completions the reader loop makes when the requests `pending` wait and no
other is added: a response completes the request under its id, and whoever
still waits when the channel ends is told so. -/
def readerLoop (pending : List UInt64) : FrameIo → List (UInt64 × Result Bytes)
  | .ok (some (.response resp)) :: rest =>
      if resp.id ∈ pending then (resp.id, settle resp) :: readerLoop (pending.erase resp.id) rest
      else readerLoop pending rest
  | .ok (some _) :: rest => readerLoop pending rest
  | _ => pending.map (fun id => (id, .error .sessionClosed))

def requestMuxed (id : UInt64) (recv : FrameIo) : Option (Result Bytes) := (readerLoop [id] recv).lookup id

/-- What a handler's outcome is at the caller. -/
def hop (id : UInt64) (outcome : Result Bytes) : Result Bytes :=
  match outcome with
  | .ok data => settle (successOf id data)
  | .error e => settle (responseOf id (.error e))

variable {ω : Type}

def answers (clock : Clock ω) (router : Router ω) (session : SessionId) (req : RequestMsg) (app : App ω) :
    FrameIo :=
  (((dispatchRpc clock router session 0 req).eval ⟨app, [], [], []⟩).2.written).map
    (fun entry => .ok (some entry.2))

theorem hop_ok (id : UInt64) (data : Bytes) : hop id (.ok data) = .ok data := rfl

theorem hop_error (id : UInt64) (e : Error) :
    hop id (.error e) = if statusOf e = .success then .ok [] else .error (.rpc (statusOf e).code e.text) := by
  simp only [hop, settle, responseOf, StatusCode.isSuccess_iff]
  rfl

/-- An RPC error is shown with its code before it becomes the message. -/
theorem hop_rpc (id : UInt64) (code : UInt16) (message : String) :
    hop id (.error (.rpc code message)) =
      if code = 0 then .ok [] else .error (.rpc code (Error.rpc code message).text) := by
  rw [hop_error]
  simp only [statusOf, StatusCode.success, StatusCode.mk.injEq]

theorem hop_ne_rpc (id : UInt64) (code : UInt16) (message : String) :
    hop id (.error (.rpc code message)) ≠ .error (.rpc code message) := by
  rw [hop_rpc]
  split
  · simp
  · intro same
    simp only [Except.error.injEq, Error.rpc.injEq, true_and] at same
    exact Error.text_rpc_ne code message same

theorem answers_plain (clock : Clock ω) (router : Router ω) (session : SessionId) (req : RequestMsg)
    (app : App ω) (plain : router.middlewares = []) :
    answers clock router session req app =
      [.ok (some (.response (match direct router session req app with
        | .ok data => successOf req.id data
        | .error e => responseOf req.id (.error e))))] := by
  have terminal := rpcTerminal_eval router session req (⟨app, [], [], []⟩ : World ω)
  rw [answers, dispatchRpc_written, runChain_eq_onion, plain, List.map_nil, onion_nil, terminal]
  cases direct router session req app <;> rfl

theorem requestRawStream_plain (clock : Clock ω) (router : Router ω) (session : SessionId)
    (req : RequestMsg) (app : App ω) (plain : router.middlewares = []) :
    requestRawStream req.id (answers clock router session req app) =
      hop req.id (direct router session req app) := by
  rw [answers_plain clock router session req app plain]
  cases direct router session req app <;> simp [requestRawStream, awaitResponse, hop, responseOf, successOf]

theorem requestMuxed_plain (clock : Clock ω) (router : Router ω) (session : SessionId)
    (req : RequestMsg) (app : App ω) (plain : router.middlewares = []) :
    requestMuxed req.id (answers clock router session req app) =
      some (hop req.id (direct router session req app)) := by
  rw [answers_plain clock router session req app plain]
  cases direct router session req app <;> simp [requestMuxed, readerLoop, hop, responseOf, successOf]

/-- The caller's result is faithful to the handler's outcome. An RPC error is the
same at the caller, also when a handler forwards what it got over further hops. -/
def Faithful (id : UInt64) (result : Result Bytes) : Result Bytes → Prop
  | .ok data => result = .ok data
  | .error (.rpc code message) =>
      result = .error (.rpc code message) ∧
        ∀ hops, (hop id)^[hops] result = .error (.rpc code message)
  | .error _ => ∃ code message, result = .error (.rpc code message) ∧ code ≠ 0

theorem faithful_hop_iff (id : UInt64) (outcome : Result Bytes) :
    Faithful id (hop id outcome) outcome ↔ ∀ code message, outcome ≠ .error (.rpc code message) := by
  cases outcome with
  | ok data => simp [Faithful, hop_ok]
  | error e =>
    cases e with
    | rpc code message =>
      constructor
      · intro faithful
        exact absurd faithful.1 (hop_ne_rpc id code message)
      · intro other
        exact absurd rfl (other code message)
    | _ => simp [Faithful, hop_error, statusOf, StatusCode.success, StatusCode.error, StatusCode.timeout, StatusCode.notFound]

theorem hop_failure_ok_iff (id : UInt64) (outcome : Result Bytes) :
    (∃ e data, outcome = .error e ∧ hop id outcome = .ok data) ↔
      ∃ message, outcome = .error (.rpc 0 message) := by
  constructor
  · rintro ⟨e, data, rfl, succeeded⟩
    rw [hop_error] at succeeded
    cases e with
    | rpc code message =>
      by_cases zero : code = 0
      · exact ⟨message, by rw [zero]⟩
      · simp [statusOf, StatusCode.success, zero] at succeeded
    | _ => simp [statusOf, StatusCode.success, StatusCode.error, StatusCode.timeout, StatusCode.notFound] at succeeded
  · rintro ⟨message, rfl⟩
    exact ⟨_, [], rfl, by rw [hop_rpc, if_pos rfl]⟩

/-- Without middlewares the caller gets one result on either path. It is faithful
exactly when the handler's outcome is no RPC error, and a failure is seen as a
success exactly when it is an RPC error of code zero. -/
theorem request_faithful_iff (clock : Clock ω) (router : Router ω) (session : SessionId)
    (req : RequestMsg) (app : App ω) (plain : router.middlewares = []) :
    ∃ result,
      requestMuxed req.id (answers clock router session req app) = some result ∧
      requestRawStream req.id (answers clock router session req app) = result ∧
      (Faithful req.id result (direct router session req app) ↔
        ∀ code message, direct router session req app ≠ .error (.rpc code message)) ∧
      ((∃ e data, direct router session req app = .error e ∧ result = .ok data) ↔
        ∃ message, direct router session req app = .error (.rpc 0 message)) :=
  ⟨hop req.id (direct router session req app),
    requestMuxed_plain clock router session req app plain,
    requestRawStream_plain clock router session req app plain,
    faithful_hop_iff req.id _, hop_failure_ok_iff req.id _⟩

private def failing (code : UInt16) : Router Unit :=
  (Router.new.addRpc ⟨"fail", fun _ _ => pure (.error (.rpc code "no"))⟩).1

private def idle : App Unit := ⟨fun _ _ => none, ()⟩

theorem request_faithful_iff_failing :
    ∃ result,
      requestMuxed 7 (answers (fun _ _ => false) (failing 9) 1 ⟨7, "fail", []⟩ idle) = some result ∧
      requestRawStream 7 (answers (fun _ _ => false) (failing 9) 1 ⟨7, "fail", []⟩ idle) = result ∧
      (Faithful 7 result (direct (failing 9) 1 ⟨7, "fail", []⟩ idle) ↔
        ∀ code message, direct (failing 9) 1 ⟨7, "fail", []⟩ idle ≠ .error (.rpc code message)) ∧
      ((∃ e data, direct (failing 9) 1 ⟨7, "fail", []⟩ idle = .error e ∧ result = .ok data) ↔
        ∃ message, direct (failing 9) 1 ⟨7, "fail", []⟩ idle = .error (.rpc 0 message)) :=
  request_faithful_iff (fun _ _ => false) (failing 9) 1 ⟨7, "fail", []⟩ idle rfl

/-- The message of an RPC error comes back with the code put in front of it, and
an RPC error of code zero comes back as a success. -/
theorem request_rewrites_rpc_errors :
    requestMuxed 7 (answers (fun _ _ => false) (failing 9) 1 ⟨7, "fail", []⟩ idle) =
        some (.error (.rpc 9 "rpc error (code 9): no")) ∧
      ¬ Faithful 7 (.error (.rpc 9 "rpc error (code 9): no")) (direct (failing 9) 1 ⟨7, "fail", []⟩ idle) ∧
      requestMuxed 7 (answers (fun _ _ => false) (failing 0) 1 ⟨7, "fail", []⟩ idle) = some (.ok []) := by
  rw [requestMuxed_plain _ _ _ ⟨7, "fail", []⟩ _ rfl, requestMuxed_plain _ _ _ ⟨7, "fail", []⟩ _ rfl]
  refine ⟨by decide, fun faithful => ?_, by decide⟩
  have outcome : direct (failing 9) 1 ⟨7, "fail", []⟩ idle = .error (.rpc 9 "no") := by decide
  rw [outcome] at faithful
  exact absurd faithful.1 (by decide)

end EchoStream.Core.Request
