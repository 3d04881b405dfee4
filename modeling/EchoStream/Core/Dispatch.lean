import Mathlib.Data.List.AList
import EchoStream.Core.Chain

/-! The registry and the dispatch of incoming messages through the middleware
chain. Each kind of message has its terminal, which looks the handler up by the
name the chain handed down and runs it; an RPC request is answered on its stream
with what the chain returned. -/

namespace EchoStream.Core.Dispatch
open Foundation.Tasks
open Proto.Messages
open Handler Chain

abbrev Token := UInt64

variable {ω : Type}

/-- The handlers by name and the middlewares in order, each under the token its
registration returned. -/
structure Router (ω : Type) where
  rpc : AList (fun _ : String => Token × RpcHandler ω)
  event : AList (fun _ : String => List (Token × EventHandler ω))
  stream : AList (fun _ : String => Token × StreamHandler ω)
  middlewares : List (Token × Middleware ω)
  nextToken : Token

namespace Router

def new : Router ω := ⟨∅, ∅, ∅, [], 0⟩

def addRpc (router : Router ω) (handler : RpcHandler ω) : Router ω × Token :=
  ({ router with
      rpc := router.rpc.insert handler.name (router.nextToken, handler)
      nextToken := router.nextToken + 1 },
    router.nextToken)

def addEvent (router : Router ω) (handler : EventHandler ω) : Router ω × Token :=
  ({ router with
      event := router.event.insert handler.name
        ((router.event.lookup handler.name).getD [] ++ [(router.nextToken, handler)])
      nextToken := router.nextToken + 1 },
    router.nextToken)

def addStream (router : Router ω) (handler : StreamHandler ω) : Router ω × Token :=
  ({ router with
      stream := router.stream.insert handler.name (router.nextToken, handler)
      nextToken := router.nextToken + 1 },
    router.nextToken)

def addMiddleware (router : Router ω) (mw : Middleware ω) : Router ω × Token :=
  ({ router with
      middlewares := router.middlewares ++ [(router.nextToken, mw)]
      nextToken := router.nextToken + 1 },
    router.nextToken)

def getRpc (router : Router ω) (name : String) : Option (Token × RpcHandler ω) := router.rpc.lookup name

def hasStream (router : Router ω) (name : String) : Bool := (router.stream.lookup name).isSome

def listeners (router : Router ω) (name : String) : List (Token × EventHandler ω) :=
  (router.event.lookup name).getD []

end Router

/-- The middlewares as they are when a message arrives, run on it. -/
def runChain (clock : Clock ω) (router : Router ω) (session : SessionId) (msg : Message)
    (terminal : Callee ω) : Task (World ω) Outcome :=
  Next.run clock ⟨router.middlewares.map Prod.snd, session, 0, terminal⟩ msg

theorem runChain_eq_onion (clock : Clock ω) (router : Router ω) (session : SessionId) (msg : Message)
    (terminal : Callee ω) :
    runChain clock router session msg terminal =
      onion clock session (router.middlewares.map Prod.snd) terminal msg := by
  rw [runChain, run_eq_onion, List.drop_zero]

theorem runChain_transparent {γ : Type} {look : App ω → γ} {router : Router ω} {session : SessionId} {msg : Message}
    (clock : Clock ω) (terminal : Callee ω)
    (transparent : ∀ entry ∈ router.middlewares, entry.2.Transparent look session msg) (world : World ω) :
    ∃ app last, look app = look world.app ∧ (runChain clock router session msg terminal).eval world =
      (((terminal msg).eval (world.setApp app)).1, ((terminal msg).eval (world.setApp app)).2.setApp last) := by
  rw [runChain_eq_onion]
  exact onion_transparent clock terminal (List.forall_mem_map.2 transparent) world

/-- Behind a middleware that calls nothing the terminal is not reached. -/
theorem runChain_stopped {γ : Type} {look : App ω → γ} {router : Router ω} {session : SessionId} {msg : Message}
    {before after : List (Token × Middleware ω)} {entry : Token × Middleware ω} (clock : Clock ω) (terminal : Callee ω)
    (split : router.middlewares = before ++ entry :: after)
    (transparent : ∀ other ∈ before, other.2.Transparent look session msg)
    (quiet : (entry.2.handle session msg).Quiet) (world : World ω) :
    ∃ last, ((runChain clock router session msg terminal).eval world).2 = world.setApp last := by
  rw [runChain_eq_onion, split, List.map_append, List.map_cons]
  exact onion_stopped clock _ terminal (List.forall_mem_map.2 transparent) quiet world

def note (mark : Mark) : Task (World ω) Unit := .act (World.note mark)

def onApp {α : Type} (task : Task (App ω) α) : Task (World ω) α := task.zoom World.app World.setApp

theorem eval_note (mark : Mark) (world : World ω) : (note mark).eval world = ((), world.note mark) := rfl

theorem eval_onApp {α : Type} (task : Task (App ω) α) (world : World ω) :
    (onApp task).eval world = ((task.eval world.app).1, world.setApp (task.eval world.app).2) := by
  apply Task.eval_zoom
  · exact World.setApp_app
  · exact World.setApp_setApp
  · exact World.setApp_self

theorem onApp_trace {α : Type} (task : Task (App ω) α) (world : World ω) : ((onApp task).eval world).2.trace = world.trace := by
  rw [eval_onApp, World.setApp_trace]

def handleRpc (session : SessionId) (entry : Token × RpcHandler ω) (req : RequestMsg) :
    Task (World ω) (Result Bytes) := do
  note (.ran .rpc session entry.1 req.name req.data)
  onApp (entry.2.handleEncoded session req.data)

/-- The handler registered for the method is run on the request. -/
def callRpc (router : Router ω) (session : SessionId) (req : RequestMsg) : Task (World ω) (Result Bytes) :=
  match router.getRpc req.name with
  | some entry => handleRpc session entry req
  | none => pure (.error (.handlerNotFound req.name))

def direct (router : Router ω) (session : SessionId) (req : RequestMsg) (app : App ω) : Result Bytes :=
  match router.getRpc req.name with
  | some entry => ((entry.2.handleEncoded session req.data).eval app).1
  | none => .error (.handlerNotFound req.name)

theorem callRpc_eval (router : Router ω) (session : SessionId) (req : RequestMsg) (world : World ω) :
    ((callRpc router session req).eval world).1 = direct router session req world.app := by
  unfold callRpc direct
  cases router.getRpc req.name with
  | none => rfl
  | some entry => simp only [handleRpc, Task.eval_bind, eval_note, eval_onApp, World.note_app]

def successOf (id : UInt64) (data : Bytes) : ResponseMsg :=
  { id, code := .success, message := none, data }

def rpcTerminal (router : Router ω) (session : SessionId) : Callee ω := fun msg => do
  note (.reached session msg)
  match msg with
  | .request m => do
      match ← callRpc router session m with
      | .ok data => pure (.ok (some (.response (successOf m.id data))))
      | .error e => pure (.error e)
  | msg => pure (.ok (some msg))

theorem rpcTerminal_eval (router : Router ω) (session : SessionId) (req : RequestMsg) (world : World ω) :
    ((rpcTerminal router session (.request req)).eval world).1 =
      match direct router session req world.app with
      | .ok data => .ok (some (.response (successOf req.id data)))
      | .error e => .error e := by
  simp only [rpcTerminal, Task.eval_bind, eval_note, callRpc_eval, World.note_app]
  cases direct router session req world.app <;> rfl

def statusOf : Error → StatusCode
  | .rpc code _ => ⟨code⟩
  | .handlerNotFound _ => .notFound
  | .timeout _ => .timeout
  | _ => .error

def responseOf (id : UInt64) : Outcome → ResponseMsg
  | .ok (some (.response r)) => r
  | .ok _ => { id, code := .forbidden, message := some "请求被中间件拦截", data := [] }
  | .error e => { id, code := statusOf e, message := some e.text, data := [] }

def dispatchRpc (clock : Clock ω) (router : Router ω) (session : SessionId) (stream : Nat)
    (msg : RequestMsg) : Task (World ω) Unit := do
  let result ← runChain clock router session (.request msg) (rpcTerminal router session)
  .act (World.write stream (.response (responseOf msg.id result)))

/-- A section that writes nothing to a stream. -/
def Silent (update : World ω → World ω) : Prop := ∀ world, (update world).written = world.written

theorem note_silent (mark : Mark) : (note mark : Task (World ω) Unit).Obeys Silent :=
  ⟨fun _ => rfl, fun _ => trivial⟩

theorem callRpc_silent (router : Router ω) (session : SessionId) (req : RequestMsg) :
    (callRpc router session req).Obeys Silent := by
  unfold callRpc
  cases router.getRpc req.name with
  | none => trivial
  | some entry =>
    apply Task.Obeys.bind (note_silent _)
    intro _
    exact (Task.Obeys.any _).zoom (fun _ _ _ => rfl)

theorem rpcTerminal_silent (router : Router ω) (session : SessionId) (msg : Message) :
    (rpcTerminal router session msg).Obeys Silent := by
  apply Task.Obeys.bind (note_silent _)
  intro _
  cases msg with
  | request m =>
    apply Task.Obeys.bind (callRpc_silent router session m)
    intro result
    cases result <;> trivial
  | _ => trivial

theorem runChain_silent (clock : Clock ω) (router : Router ω) (session : SessionId) (msg : Message) :
    (runChain clock router session msg (rpcTerminal router session)).Obeys Silent := by
  rw [runChain_eq_onion]
  apply onion_obeys
  · intro update world
    rfl
  · intro limit update silent world
    change (if clock limit world = true then world else update world).written = world.written
    split
    · rfl
    · exact silent world
  · exact rpcTerminal_silent router session

/-- A request gets exactly one message on its stream, the answer to what the
chain returned. -/
theorem dispatchRpc_written (clock : Clock ω) (router : Router ω) (session : SessionId) (stream : Nat)
    (req : RequestMsg) (world : World ω) :
    ((dispatchRpc clock router session stream req).eval world).2.written =
      world.written ++ [(stream, .response (responseOf req.id
        ((runChain clock router session (.request req) (rpcTerminal router session)).eval world).1))] := by
  have kept := (runChain_silent clock router session (.request req)).eval_keeps
    world
  rw [dispatchRpc, Task.eval_bind, Task.eval_act, World.write_written, kept]

/-- The listeners one after the other. A failing one does not keep the next
ones from the event. -/
def handleEvent (session : SessionId) (event : EventMsg) : List (Token × EventHandler ω) → Task (World ω) Unit
  | [] => pure ()
  | entry :: rest => do
      note (.ran .event session entry.1 event.name event.data)
      let _ ← onApp (entry.2.handleEncoded session event.data)
      handleEvent session event rest

theorem handleEvent_trace (session : SessionId) (event : EventMsg) (entries : List (Token × EventHandler ω)) (world : World ω) :
    ((handleEvent session event entries).eval world).2.trace =
      world.trace ++ entries.map (fun entry => .ran .event session entry.1 event.name event.data) := by
  induction entries generalizing world with
  | nil => exact (List.append_nil _).symm
  | cons entry rest ih =>
    rw [handleEvent, Task.eval_bind, eval_note, Task.eval_bind, ih, onApp_trace, World.note_trace, List.append_assoc]
    rfl

def eventTerminal (router : Router ω) (session : SessionId) : Callee ω := fun msg => do
  note (.reached session msg)
  match msg with
  | .event e =>
      handleEvent session e (router.listeners e.name)
      pure (.ok (some (.event e)))
  | msg => pure (.ok (some msg))

def dispatchEvent (clock : Clock ω) (router : Router ω) (session : SessionId) (msg : EventMsg) :
    Task (World ω) Unit := do
  let _ ← runChain clock router session (.event msg) (eventTerminal router session)

def dispatchInboundDatagram (clock : Clock ω) (router : Router ω) (session : SessionId) :
    Message → Task (World ω) Unit
  | .event event => dispatchEvent clock router session event
  | _ => pure ()

/-- Reads up to the first data frame of the stream, one section for each read. -/
def firstFrame (id : UInt64) : FrameIo → Task (World ω) (Option (StreamMsg × FrameIo))
  | [] => pure none
  | result :: recv =>
      .step (fun world => world) (fun _ =>
        match result with
        | .ok (some (.stream frame)) =>
            if frame.id = id then pure (some (frame, recv)) else firstFrame id recv
        | .ok (some (.streamEnd ended)) => if ended.id = id then pure none else firstFrame id recv
        | .ok (some _) => firstFrame id recv
        | .ok none => pure none
        | .error _ => pure none)

/-- The first data frame of a stream and what comes after it. -/
def firstData (id : UInt64) : FrameIo → Option (StreamMsg × FrameIo)
  | .ok (some (.stream frame)) :: recv => if frame.id = id then some (frame, recv) else firstData id recv
  | .ok (some (.streamEnd ended)) :: recv => if ended.id = id then none else firstData id recv
  | .ok (some _) :: recv => firstData id recv
  | _ => none

theorem firstFrame_eval (id : UInt64) (recv : FrameIo) (world : World ω) :
    (firstFrame id recv).eval world = (firstData id recv, world) := by
  induction recv with
  | nil => rfl
  | cons result recv ih =>
    rcases result with e | msg
    · rfl
    · cases msg with
      | none => rfl
      | some msg =>
        cases msg with
        | stream frame =>
          rw [firstFrame, firstData, Task.eval_step]
          by_cases own : frame.id = id
          · rw [if_pos own, if_pos own]
            rfl
          · rw [if_neg own, if_neg own]
            exact ih
        | streamEnd ended =>
          rw [firstFrame, firstData, Task.eval_step]
          by_cases own : ended.id = id
          · rw [if_pos own, if_pos own]
            rfl
          · rw [if_neg own, if_neg own]
            exact ih
        | _ => exact ih

def keepReceiver (recv : FrameIo) : Task (World ω) Nat :=
  .step (fun world => { world with receivers := world.receivers ++ [some recv] })
    (fun world => pure world.receivers.length)

/-- The terminal of a stream takes its receiving side away, so that a second run
of it finds none. -/
def takeReceiver (slot : Nat) : Task (World ω) (Option FrameIo) :=
  .step (fun world => { world with receivers := world.receivers.set slot none })
    (fun world => pure world.receivers[slot]?.join)

def handleStream (session : SessionId) (entry : Token × StreamHandler ω) (receiver : StreamReceiver) :
    Task (World ω) (Result Unit) := do
  note (.ran .stream session entry.1 receiver.name receiver.first.data)
  onApp (entry.2.handle session receiver)

def streamTerminal (router : Router ω) (session : SessionId) (slot : Nat) (first : StreamMsg) :
    Callee ω := fun msg => do
  note (.reached session msg)
  match msg with
  | .streamOpen opened => do
      match ← takeReceiver slot with
      | none => pure (.error (.protocol "流处理器被重复调用"))
      | some recv =>
          match router.stream.lookup opened.name with
          | none => pure (.ok (some (.streamOpen opened)))
          | some entry => do
              match ← handleStream session entry ⟨recv, first, opened.metadata, opened.name⟩ with
              | .error e => pure (.error e)
              | .ok _ => pure (.ok (some (.streamOpen opened)))
  | msg => pure (.ok (some msg))

def dispatchStream (clock : Clock ω) (router : Router ω) (session : SessionId) (recv : FrameIo)
    (opened : StreamOpenMsg) : Task (World ω) Unit := do
  match ← firstFrame opened.id recv with
  | none => pure ()
  | some (first, recv) =>
      let slot ← keepReceiver recv
      let _ ← runChain clock router session (.streamOpen opened) (streamTerminal router session slot first)

inductive Arrival where
  | rpc (session : SessionId) (stream : Nat) (msg : RequestMsg)
  | event (session : SessionId) (msg : EventMsg)
  | stream (session : SessionId) (recv : FrameIo) (opened : StreamOpenMsg)
  | datagram (session : SessionId) (msg : Message)

def dispatch (clock : Clock ω) (router : Router ω) : Arrival → Task (World ω) Unit
  | .rpc session stream msg => dispatchRpc clock router session stream msg
  | .event session msg => dispatchEvent clock router session msg
  | .stream session recv opened => dispatchStream clock router session recv opened
  | .datagram session msg => dispatchInboundDatagram clock router session msg

end EchoStream.Core.Dispatch
