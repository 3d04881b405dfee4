import EchoStream.Plugins.Auth
import EchoStream.Plugins.Heartbeat
import EchoStream.Plugins.Metrics
import EchoStream.Middlewares.Transform

/-! Chains of the repository's own middlewares, and the answer that a request gets through
them. None of them changes the id of a request or of a response, and those that answer
themselves answer with the id of the request. -/

namespace EchoStream.Middlewares.Answers
open Foundation.Tasks
open Proto.Messages
open Core.Handler Core.Chain Core.Dispatch
open Plugins.Auth (authMiddleware awaitAuth isAuthEvent)
open Plugins.Heartbeat (isHeartbeat)
open Plugins.Metrics (MetricsRegistry Metered record setRegistry metricsMiddleware)
open Transform (TransformMiddleware TransformFn mapPayload mapResult)

variable {ω : Type}

structure ErrorMiddleware where
  name : String
  code : StatusCode
  hideInternal : Bool

namespace ErrorMiddleware

def describe (mw : ErrorMiddleware) : Error → StatusCode × String
  | .rpc code text => (⟨code⟩, text)
  | other => (mw.code, if mw.hideInternal then "internal error" else other.text)

def normalize (mw : ErrorMiddleware) (msg : Message) : Outcome → Outcome
  | .ok result => .ok result
  | .error e =>
      match msg with
      | .request req =>
          .ok (some (.response { id := req.id, code := (mw.describe e).1, message := some (mw.describe e).2, data := [] }))
      | _ => .error e

def middleware (mw : ErrorMiddleware) : Middleware ω where
  name := mw.name
  handle _ msg := .call msg (fun result => .done (mw.normalize msg result))

end ErrorMiddleware

structure TimeoutMiddleware where
  name : String
  timeout : Nat

def idOf : Message → UInt64
  | .request r => r.id
  | .event e => e.id
  | .streamOpen o => o.id
  | .stream s => s.id
  | .response r => r.id
  | .streamEnd e => e.id

def TimeoutMiddleware.middleware (mw : TimeoutMiddleware) : Middleware ω where
  name := mw.name
  handle _ msg := .within mw.timeout msg (fun result => .done (result.getD (.error (.timeout (idOf msg)))))

/-- It passes everything on. What it logs goes elsewhere. -/
def loggingMiddleware : Middleware ω where
  name := "logging"
  handle _ msg := .call msg .done

def lastSeenKey : String := "__echostream_last_seen"

/-- `now` is the clock, as it is stored. -/
def heartbeatMiddleware (now : App ω → AnyValue) : Middleware ω where
  name := "heartbeat"
  handle session msg :=
    if isHeartbeat msg then .step (fun app => app.set session lastSeenKey (now app)) (fun _ => .done (.ok none))
    else .call msg .done

/-- The middleware of the metrics plugin with its registry anywhere in the application. -/
def metricsWithin (within : (MetricsRegistry → MetricsRegistry) → App ω → App ω) (micros : App ω → Nat) : Middleware ω where
  name := "metrics"
  handle _ msg :=
    .step id (fun start => .call msg (fun result =>
      .step (fun app => within (record msg (micros app - micros start) result) app) (fun _ => .done result)))

example {ρ : Type} (micros : App (Metered ρ) → Nat) :
    metricsMiddleware micros = metricsWithin setRegistry micros := rfl

/-- The middlewares of the repository. -/
inductive Own (ω : Type) where
  | auth
  | heartbeat (now : App ω → AnyValue)
  | metrics (within : (MetricsRegistry → MetricsRegistry) → App ω → App ω) (micros : App ω → Nat)
  | logging
  | timeout (mw : TimeoutMiddleware)
  | error (mw : ErrorMiddleware)
  | transform (mw : TransformMiddleware)

def Own.middleware : Own ω → Middleware ω
  | .auth => authMiddleware
  | .heartbeat now => heartbeatMiddleware now
  | .metrics within micros => metricsWithin within micros
  | .logging => loggingMiddleware
  | .timeout mw => mw.middleware
  | .error mw => mw.middleware
  | .transform mw => mw.middleware

variable {id : UInt64} {session : SessionId} {msg : Message}

/-- The request that is on its way. -/
def Asks (id : UInt64) (msg : Message) : Prop := ∃ req, msg = .request req ∧ req.id = id

/-- If the outcome is a response then it is one to the request. -/
def Fits (id : UInt64) (outcome : Outcome) : Prop := ∀ resp, outcome = .ok (some (.response resp)) → resp.id = id

theorem fits_error (e : Error) : Fits id (.error e) := by
  rintro resp ⟨⟩

theorem fits_none : Fits id (.ok none) := by
  rintro resp ⟨⟩

theorem mapResult_fits {outcome : Outcome} (fits : Fits id outcome) (onResponse : Option TransformFn) :
    Fits id (mapResult onResponse outcome) := by
  cases outcome with
  | error e => exact fits_error e
  | ok result =>
    cases result with
    | none => exact fits_none
    | some msg =>
      cases msg with
      | response r =>
        have own : r.id = id := fits r rfl
        cases onResponse with
        | none => exact fits
        | some f =>
          cases made : f r.data with
          | error e =>
            simp only [mapResult, made]
            exact fits_error e
          | ok data =>
            simp only [mapResult, made]
            rintro resp same
            cases same
            exact own
      | _ => exact fits

theorem mapPayload_asks {f : TransformFn} {passed : Message} (asks : Asks id msg) (mapped : mapPayload f msg = .ok passed) :
    Asks id passed := by
  obtain ⟨req, rfl, own⟩ := asks
  cases made : f req.data with
  | error e =>
    simp only [mapPayload, made] at mapped
    cases mapped
  | ok data =>
    simp only [mapPayload, made] at mapped
    cases mapped
    exact ⟨_, rfl, own⟩

theorem awaitAuth_gives (asks : Asks id msg) (rounds : Nat) :
    (awaitAuth session msg rounds : Script (App ω) Message Outcome Outcome).Gives (Asks id) (Fits id) (Fits id) := by
  induction rounds with
  | zero => exact fits_none
  | succ rounds ih =>
    intro app
    dsimp only
    split
    · exact ⟨asks, fun result fits => fits⟩
    · exact ih

/-- Each of them passes the request on under its id, and returns what fits if it was given what fits. -/
theorem own_gives (own : Own ω) (session : SessionId) (asks : Asks id msg) :
    (own.middleware.handle session msg).Gives (Asks id) (Fits id) (Fits id) := by
  cases own with
  | auth =>
    show Script.Gives _ _ _ (if isAuthEvent msg then _ else _)
    split
    · exact ⟨asks, fun result fits => fits⟩
    · intro app
      dsimp only
      split
      · exact ⟨asks, fun result fits => fits⟩
      · exact awaitAuth_gives asks 10
  | heartbeat now =>
    show Script.Gives _ _ _ (if isHeartbeat msg then _ else _)
    split
    · exact fun app => fits_none
    · exact ⟨asks, fun result fits => fits⟩
  | metrics within micros => exact fun app => ⟨asks, fun result fits later => fits⟩
  | logging => exact ⟨asks, fun result fits => fits⟩
  | timeout mw =>
    refine ⟨asks, fun result fits => ?_⟩
    cases result with
    | none => exact fits_error _
    | some outcome => exact fits outcome rfl
  | error mw =>
    refine ⟨asks, fun result fits => ?_⟩
    cases result with
    | ok result => exact fits
    | error e =>
      obtain ⟨req, rfl, own⟩ := asks
      rintro resp same
      cases same
      exact own
  | transform mw =>
    simp only [Own.middleware, TransformMiddleware.middleware]
    cases mw.onRequest with
    | none => exact ⟨asks, fun result fits => mapResult_fits fits mw.onResponse⟩
    | some f =>
      cases mapped : mapPayload f msg with
      | error e =>
        simp only [mapped]
        exact fits_error e
      | ok passed =>
        simp only [mapped]
        exact ⟨mapPayload_asks asks mapped, fun result fits => mapResult_fits fits mw.onResponse⟩

theorem rpcTerminal_gives (router : Router ω) (session : SessionId) (asks : Asks id msg) :
    (rpcTerminal router session msg).Gives (Fits id) := by
  obtain ⟨req, rfl, own⟩ := asks
  refine (Task.Gives.any (note _)).bind (fun _ _ => ?_)
  refine (Task.Gives.any (callRpc router session req)).bind (fun result _ => ?_)
  cases result with
  | error e => exact fits_error e
  | ok data =>
    rintro resp same
    cases same
    exact own

theorem responseOf_fits {outcome : Outcome} (fits : Fits id outcome) : (responseOf id outcome).id = id := by
  cases outcome with
  | error e => rfl
  | ok result =>
    cases result with
    | none => rfl
    | some msg =>
      cases msg with
      | response r => exact fits r rfl
      | _ => rfl

/-- Whatever others do in between, the task writes one message, a response with the id to the stream. -/
def AnswersOnce (stream : Nat) (id : UInt64) : Task (World ω) Unit → Prop
  | .done _ => False
  | .step update next => (Silent update ∧ ∀ world, AnswersOnce stream id (next world)) ∨
      ∃ resp : ResponseMsg, resp.id = id ∧ update = World.write stream (.response resp) ∧ ∀ world, (next world).Obeys Silent

theorem answersOnce_bind {task : Task (World ω) Outcome} (stream : Nat) (silent : task.Obeys Silent) (gives : task.Gives (Fits id)) :
    AnswersOnce stream id (task >>= fun result => .act (World.write stream (.response (responseOf id result)))) := by
  induction task with
  | done result => exact Or.inr ⟨_, responseOf_fits gives, rfl, fun _ => trivial⟩
  | step update next ih => exact Or.inl ⟨silent.1, fun world => ih world (silent.2 world) (gives world)⟩

theorem AnswersOnce.eval {stream : Nat} {task : Task (World ω) Unit} (answers : AnswersOnce stream id task) (world : World ω) :
    ∃ resp : ResponseMsg, resp.id = id ∧ (task.eval world).2.written = world.written ++ [(stream, .response resp)] := by
  induction task generalizing world with
  | done value => exact answers.elim
  | step update next ih =>
    rcases answers with ⟨silent, later⟩ | ⟨resp, own, rfl, later⟩
    · obtain ⟨resp, own, wrote⟩ := ih world (later world) (update world)
      exact ⟨resp, own, by rw [Task.eval_step, wrote, silent world]⟩
    · exact ⟨resp, own, by rw [Task.eval_step, (later world).eval_keeps, World.write_written]⟩

/-- Through any chain of the repository's middlewares a request is answered once, by a
response with its id, whatever is registered and whatever a time limit cuts off. -/
theorem own_chain_answers_once (router : Router ω) (own : List (Token × Own ω)) (clock : Clock ω) (session : SessionId)
    (stream : Nat) (req : RequestMsg) :
    AnswersOnce stream req.id (dispatchRpc clock { router with middlewares := own.map (fun entry => (entry.1, entry.2.middleware)) }
      session stream req) ∧
    ∀ world, ∃ resp : ResponseMsg, resp.id = req.id ∧
      ((dispatchRpc clock { router with middlewares := own.map (fun entry => (entry.1, entry.2.middleware)) }
        session stream req).eval world).2.written = world.written ++ [(stream, .response resp)] := by
  have answers : AnswersOnce stream req.id (dispatchRpc clock
      { router with middlewares := own.map (fun entry => (entry.1, entry.2.middleware)) } session stream req) := by
    refine answersOnce_bind stream (runChain_silent ..) ?_
    rw [runChain_eq_onion]
    refine onion_gives (fun msg asks => rpcTerminal_gives _ session asks) ?_ ⟨req, rfl, rfl⟩
    intro mw member msg asks
    obtain ⟨entry, there, rfl⟩ := List.mem_map.1 member
    obtain ⟨⟨token, of⟩, -, rfl⟩ := List.mem_map.1 there
    exact own_gives of session asks
  exact ⟨answers, answers.eval⟩

end EchoStream.Middlewares.Answers
