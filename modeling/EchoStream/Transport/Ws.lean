import EchoStream.Core.Dispatch

/-! The WebSocket server answers a request by looking the handler up itself. It
does not go through the middleware chain and answers every failure with one
status, so its answer is the one the router gives on a stream only under a
condition on the handler and on the middlewares. -/

namespace EchoStream.Transport.Ws
open Foundation.Tasks
open Proto.Messages
open Core.Handler Core.Chain Core.Dispatch

variable {ω : Type}

def respond (router : Router ω) (session : SessionId) (req : RequestMsg) : Task (World ω) Message := do
  match ← callRpc router session req with
  | .ok data => pure (.response (successOf req.id data))
  | .error e => pure (.response { id := req.id, code := .error, message := some e.text, data := [] })

/-- The application before any message was dispatched. -/
def World.fresh (app : App ω) : World ω := ⟨app, [], [], []⟩

def chained (clock : Clock ω) (router : Router ω) (session : SessionId) (req : RequestMsg) (app : App ω) :
    Outcome × World ω :=
  (onion clock session (router.middlewares.map Prod.snd) (rpcTerminal router session)
    (.request req)).eval (World.fresh app)

def Ran (world : World ω) : Prop := ∃ kind session token name data, .ran kind session token name data ∈ world.trace

def Reached (world : World ω) : Prop := ∃ session msg, .reached session msg ∈ world.trace

/-- The answer over the WebSocket is the message the router writes for the
request, and a handler that ran for it ran with the chain letting it through. -/
def SameAnswer (clock : Clock ω) (router : Router ω) (session : SessionId) (req : RequestMsg)
    (app : App ω) : Prop :=
  let ws := (respond router session req).eval (World.fresh app)
  let routed := (dispatchRpc clock router session 0 req).eval (World.fresh app)
  routed.2.written = [(0, ws.1)] ∧ (Ran ws.2 → Reached routed.2)

theorem callRpc_ran (router : Router ω) (session : SessionId) (req : RequestMsg) (app : App ω) :
    Ran ((callRpc router session req).eval (World.fresh app)).2 ↔ (router.getRpc req.name).isSome := by
  unfold callRpc
  cases router.getRpc req.name with
  | none => simp [Ran, World.fresh]
  | some entry =>
    simp [handleRpc, eval_note, eval_onApp, Ran, World.fresh]

theorem respond_eval (router : Router ω) (session : SessionId) (req : RequestMsg) (world : World ω) :
    (respond router session req).eval world =
      (match direct router session req world.app with
        | .ok data => .response (successOf req.id data)
        | .error e => .response { id := req.id, code := .error, message := some e.text, data := [] },
        ((callRpc router session req).eval world).2) := by
  rw [respond, Task.eval_bind, callRpc_eval]
  cases direct router session req world.app <;> rfl

/-- The answers compared, with the handler's outcome on the one side and the
chain's on the other. -/
theorem sameAnswer_iff (clock : Clock ω) (router : Router ω) (session : SessionId) (req : RequestMsg)
    (app : App ω) :
    SameAnswer clock router session req app ↔
      responseOf req.id (chained clock router session req app).1 =
          (match direct router session req app with
            | .ok data => successOf req.id data
            | .error e => { id := req.id, code := .error, message := some e.text, data := [] }) ∧
        ((router.getRpc req.name).isSome → Reached (chained clock router session req app).2) := by
  have routed := dispatchRpc_written clock router session 0 req (World.fresh app)
  rw [runChain_eq_onion] at routed
  change _ = [] ++ [(0, Message.response (responseOf req.id (chained clock router session req app).1))]
    at routed
  have trace : Reached ((dispatchRpc clock router session 0 req).eval (World.fresh app)).2 ↔
      Reached (chained clock router session req app).2 := by
    rw [dispatchRpc, Task.eval_bind, Task.eval_act, runChain_eq_onion]
    rfl
  unfold SameAnswer
  simp only [routed, trace, respond_eval, callRpc_ran, List.nil_append, List.cons.injEq, Prod.mk.injEq,
    true_and, and_true]
  refine and_congr_left (fun _ => ?_)
  change _ = (match direct router session req app with
    | .ok data => Message.response (successOf req.id data)
    | .error e => .response { id := req.id, code := .error, message := some e.text, data := [] }) ↔ _
  cases direct router session req app <;> simp

theorem rpcTerminal_reached (router : Router ω) (session : SessionId) (req : RequestMsg) (app : App ω) :
    Reached ((rpcTerminal router session (.request req)).eval (World.fresh app)).2 := by
  refine ⟨session, .request req, ?_⟩
  simp only [rpcTerminal, Task.eval_bind, eval_note, callRpc_eval, World.note_app]
  have noted : .reached session (.request req) ∈
      ((callRpc router session req).eval (World.note (.reached session (.request req)) (World.fresh app))).2.trace := by
    unfold callRpc
    cases router.getRpc req.name with
    | none => simp [World.fresh]
    | some entry => simp [handleRpc, eval_note, eval_onApp, World.fresh]
  cases direct router session req (World.fresh app).app <;> exact noted

/-- Behind transparent middlewares the router's answer is the handler's own outcome with the
status of its error, and the request has reached the terminal. -/
theorem chained_transparent {γ : Type} {look : App ω → γ} {router : Router ω} {session : SessionId} {req : RequestMsg}
    {app : App ω} (clock : Clock ω)
    (transparent : ∀ entry ∈ router.middlewares, entry.2.Transparent look session (.request req))
    (blind : ∀ other, look other = look app → direct router session req other = direct router session req app) :
    responseOf req.id (chained clock router session req app).1 =
        (match direct router session req app with
          | .ok data => successOf req.id data
          | .error e => { id := req.id, code := statusOf e, message := some e.text, data := [] }) ∧
      Reached (chained clock router session req app).2 := by
  obtain ⟨found, last, looks, same⟩ := runChain_transparent clock (rpcTerminal router session) transparent (World.fresh app)
  rw [runChain_eq_onion] at same
  have outcome := rpcTerminal_eval router session req (World.fresh found)
  change _ = (match direct router session req found with
    | .ok data => _
    | .error e => _) at outcome
  rw [blind found looks] at outcome
  have eval : chained clock router session req app = (((rpcTerminal router session (.request req)).eval (World.fresh found)).1,
      ((rpcTerminal router session (.request req)).eval (World.fresh found)).2.setApp last) := same
  rw [eval]
  constructor
  · dsimp only
    rw [outcome]
    cases direct router session req app <;> rfl
  · obtain ⟨session, msg, member⟩ := rpcTerminal_reached router session req found
    exact ⟨session, msg, member⟩

/-- Where all middlewares are transparent, the two dispatchers agree unless the handler fails
with an error that has a status of its own. A middleware that stops the request keeps a
handler from running on the one path and not on the other. -/
theorem respond_same_iff {γ : Type} (look : App ω → γ) (clock : Clock ω) (router : Router ω) (session : SessionId)
    (req : RequestMsg) (app : App ω) {before rest : List (Token × Middleware ω)} (split : router.middlewares = before ++ rest)
    (transparent : ∀ entry ∈ before, entry.2.Transparent look session (.request req))
    (blind : ∀ other, look other = look app → direct router session req other = direct router session req app) :
    (rest = [] → (SameAnswer clock router session req app ↔
      ∀ e, direct router session req app = .error e → statusOf e = .error)) ∧
    (∀ entry after, rest = entry :: after → (entry.2.handle session (.request req)).Quiet →
      (router.getRpc req.name).isSome → ¬ SameAnswer clock router session req app) := by
  constructor
  · rintro rfl
    rw [List.append_nil] at split
    rw [← split] at transparent
    obtain ⟨answer, reached⟩ := chained_transparent clock transparent blind
    rw [sameAnswer_iff, answer, and_iff_left (fun _ => reached)]
    cases direct router session req app with
    | ok data => simp
    | error e => simp
  · intro entry after same quiet registered agree
    obtain ⟨last, stopped⟩ := runChain_stopped clock (rpcTerminal router session) (split.trans (congrArg (before ++ ·) same))
      transparent quiet (World.fresh app)
    rw [runChain_eq_onion] at stopped
    obtain ⟨session', msg, member⟩ := ((sameAnswer_iff clock router session req app).1 agree).2 registered
    rw [chained, stopped] at member
    exact List.not_mem_nil member

private def refusing : Middleware Unit := ⟨"deny", fun _ _ => .done (.ok none)⟩

private def echo : RpcHandler Unit := ⟨"echo", fun _ payload => pure (.ok payload)⟩

private def guarded : Router Unit := ((Router.new.addRpc echo).1.addMiddleware refusing).1

/-- Behind a middleware that refuses every message the handler still runs for a
request over the WebSocket, and its data is sent as a success. -/
theorem respond_passes_refusal :
    ¬ SameAnswer (fun _ _ => false) guarded 1 ⟨7, "echo", [1]⟩ ⟨fun _ _ => none, ()⟩ ∧
      Ran ((respond guarded 1 ⟨7, "echo", [1]⟩).eval (World.fresh ⟨fun _ _ => none, ()⟩)).2 := by
  constructor
  · rw [sameAnswer_iff]
    intro same
    have answers := same.1
    revert answers
    decide
  · exact ⟨.rpc, 1, 0, "echo", [1], by decide⟩

/-- A middleware that takes down that it has seen a request. -/
private def noting : Middleware Unit :=
  ⟨"noting", fun session msg => .step (fun app => app.set session "seen" (.bool true)) (fun _ => .call msg .done)⟩

theorem respond_same_noted :
    SameAnswer (fun _ _ => false) ((Router.new.addRpc echo).1.addMiddleware noting).1 1 ⟨7, "echo", [1]⟩ ⟨fun _ _ => none, ()⟩ := by
  have noted : ∀ entry ∈ ((Router.new.addRpc echo).1.addMiddleware noting).1.middlewares,
      entry.2.Transparent App.rest 1 (.request ⟨7, "echo", [1]⟩) := by
    intro entry member
    rw [List.mem_singleton.1 (member : entry ∈ [(1, noting)])]
    exact ⟨fun _ => rfl, fun _ => ⟨rfl, fun _ => rfl⟩⟩
  refine ((respond_same_iff App.rest _ _ _ _ _ (List.append_nil _).symm noted (fun _ _ => rfl)).1 rfl).2 ?_
  intro e failed
  cases failed

end EchoStream.Transport.Ws
