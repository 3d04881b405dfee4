import EchoStream.Core.StateMachine
import EchoStream.Foundation.Queues
import EchoStream.Transport.Ws

/-! The client in the browser and the server over one WebSocket. The connection loop
reads one frame after the other and waits for the handlers of a request or an event before
it reads on. Meanwhile other tasks of the server may change the application and
send events, stream frames and requests of their own over the session. Frames are taken as the
messages they decode to. The promise of a request is the script's: the state machine calls
back with the response, and what the script makes of it may throw. -/

namespace EchoStream.Transport.WsLink
open Foundation.Run Foundation.Tasks Foundation.Queues
open Proto.Messages Proto.Postcard
open Core.Handler Core.Chain Core.Dispatch Core.StateMachine Ws

/-- What the client is told to do. A request that throws while the frame of the last
one is still kept has that one sent `again`. -/
inductive Operation where
  | request (name : String) (payload : Bytes)
  | again
  | emit (name : String) (payload : Bytes)
  | createStream (name : String) (metadata : List StreamMetaEntry)
  | send (id : UInt64) (payload : Bytes) (now : UInt64)
  | finish (id : UInt64) (code : UInt16) (message : Option String)
  | sendResponse (id : UInt64) (value : Bytes)
  | sendError (id : UInt64) (text : String)
  | onEvent (name : String)
  | offEvent (id : ListenerId)
  | onRpc (name : String) (handler : RpcListener)
  | offRpc (id : ListenerId)
  | onStream (name : String)
  | offStream (id : ListenerId)

def requestIn : Message → Option RequestMsg
  | .request req => some req
  | _ => none

def responseIn : Message → Option ResponseMsg
  | .response resp => some resp
  | _ => none

namespace Operation

def acts : Operation → List Core.StateMachine.Label
  | request name payload => [.request name payload]
  | emit name payload => [.event name payload]
  | createStream _ _ => [.openStream]
  | send id payload now => [.streamFrame id payload now]
  | onEvent name => [.onEvent name]
  | offEvent id => [.offEvent id]
  | onRpc name handler => [.onRpc name handler]
  | offRpc id => [.offRpc id]
  | onStream name => [.onStream name]
  | offStream id => [.offStream id]
  | _ => []

def builds (core : ClientCore) : Operation → Option RequestMsg
  | request name payload => requestIn (core.buildRequest 0 name payload).1.2
  | _ => none

def frame (core : ClientCore) (last : Option RequestMsg) : Operation → Option Message
  | request name payload => some (core.buildRequest 0 name payload).1.2
  | again => last.map .request
  | emit name payload => some (core.buildEvent name payload).1
  | createStream name metadata => some (ClientCore.buildStreamOpen core.openStream.1 name metadata)
  | send id payload now => some (core.buildStreamFrame id payload now).1
  | finish id code message => some (ClientCore.buildStreamEnd id code message)
  | sendResponse id value => some (ClientCore.buildResponse id value)
  | sendError id text => some (ClientCore.buildErrorResponse id text)
  | _ => none

end Operation

variable {ω : Type}

/-- The connection loop between frames, with the handler of a request running, with
the listeners of an event running. -/
inductive Loop (ω : Type) where
  | reading
  | responding (req : RequestMsg) (answer : Task (World ω) Message)
  | dispatching (event : Task (World ω) Unit)

def Loop.serving : Loop ω → Option RequestMsg
  | responding req _ => some req
  | _ => none

@[simp] theorem reading_serving : (Loop.reading : Loop ω).serving = none := rfl

@[simp] theorem responding_serving (req : RequestMsg) (answer : Task (World ω) Message) :
    (Loop.responding req answer).serving = some req := rfl

@[simp] theorem dispatching_serving (event : Task (World ω) Unit) : (Loop.dispatching event).serving = none := rfl

/-- Both ends with what is on its way between them, the requests the client built, the
requests among the frames it sent, and the answers of the server. -/
structure Link (ω : Type) where
  browser : Client
  requests : List RequestMsg
  asked : List RequestMsg
  up : Pipe Message
  loop : Loop ω
  served : List (RequestMsg × ResponseMsg)
  world : World ω
  down : Pipe Message

def Link.init (app : App ω) : Link ω := ⟨.init, [], [], .empty, .reading, [], World.fresh app, .empty⟩

namespace Link

def send (s : Link ω) (msg : Message) : Link ω :=
  { s with asked := s.asked ++ (requestIn msg).toList, up := s.up.put msg }

def sends (s : Link ω) : Option Message → Link ω
  | some msg => s.send msg
  | none => s

def perform (s : Link ω) (op : Operation) : Option (Link ω) :=
  (run (Core.StateMachine.step wire) s.browser op.acts).map (fun browser =>
    { s with browser, requests := s.requests ++ (op.builds s.browser.core).toList }.sends
      (op.frame s.browser.core s.requests.getLast?))

def deliver (s : Link ω) : Option (Link ω) :=
  match s.down.items with
  | msg :: rest =>
      some ({ s with browser := s.browser.inbound msg, down := { s.down with items := rest } }.sends
        (s.browser.core.handleInbound msg).1.2)
  | [] => none

/-- What the loop does with a frame. Those of streams it hands to their tasks, and
responses it drops. -/
def serve (clock : Clock ω) (router : Router ω) (session : SessionId) : Message → Loop ω
  | .request req => .responding req (respond router session req)
  | .event event => .dispatching (dispatchEvent clock router session event)
  | _ => .reading

def read (clock : Clock ω) (router : Router ω) (session : SessionId) (s : Link ω) : Option (Link ω) :=
  match s.loop, s.up.items with
  | .reading, msg :: rest => some { s with up := { s.up with items := rest }, loop := serve clock router session msg }
  | _, _ => none

/-- A section of what the loop waits for. -/
def work (s : Link ω) : Option (Link ω) :=
  match s.loop with
  | .responding req (.step update next) =>
      some { s with world := update s.world, loop := .responding req (next s.world) }
  | .dispatching (.step update next) => some { s with world := update s.world, loop := .dispatching (next s.world) }
  | _ => none

def finish (s : Link ω) : Option (Link ω) :=
  match s.loop with
  | .responding req (.done msg) =>
      some { s with
        loop := .reading
        served := s.served ++ ((responseIn msg).map (fun resp => (req, resp))).toList
        down := s.down.put msg }
  | .dispatching (.done _) => some { s with loop := .reading }
  | _ => none

/-- Another task of the server sends over the session. Only the loop sends responses. -/
def push (s : Link ω) (msg : Message) : Option (Link ω) :=
  match responseIn msg with
  | none => some { s with down := s.down.put msg }
  | some _ => none

end Link

inductive Label (ω : Type) where
  | perform (op : Operation)
  | deliver
  | read
  | work
  | finish
  | other (update : App ω → App ω)
  | push (msg : Message)
  | severUp (kept : Nat)
  | severDown (kept : Nat)

def step (clock : Clock ω) (router : Router ω) (session : SessionId) : Step (Link ω) (Label ω)
  | s, .perform op => s.perform op
  | s, .deliver => s.deliver
  | s, .read => s.read clock router session
  | s, .work => s.work
  | s, .finish => s.finish
  | s, .other update => some { s with world := s.world.setApp (update s.world.app) }
  | s, .push msg => s.push msg
  | s, .severUp kept => some { s with up := s.up.sever kept }
  | s, .severDown kept => some { s with down := s.down.sever kept }

def responded (history : List Happening) : List ResponseMsg :=
  history.filterMap (fun
    | .responded resp => some resp
    | .requested _ => none)

def Link.calls (s : Link ω) : Exchange RequestMsg ResponseMsg where
  asked := s.asked
  up := s.up.only requestIn
  serving := s.loop.serving
  served := s.served
  down := s.down.only responseIn
  taken := responded s.browser.history

/-- The answer the server has for a request, when its handler returned the result. -/
def replyTo (req : RequestMsg) : Result Bytes → ResponseMsg
  | .ok data => successOf req.id data
  | .error e => { id := req.id, code := .error, message := some e.text, data := [] }

/-- An answer the server can give. Without a handler it says so. -/
def Answers (router : Router ω) (req : RequestMsg) (resp : ResponseMsg) : Prop :=
  ∃ result, resp = replyTo req result ∧
    (router.getRpc req.name = none → result = .error (.handlerNotFound req.name))

def rpcRuns (trace : List Mark) : List (UInt64 × String × Bytes) :=
  trace.filterMap (fun
    | .ran .rpc _ token name payload => some (token, name, payload)
    | _ => none)

def runOf (router : Router ω) (req : RequestMsg) : Option (UInt64 × String × Bytes) :=
  (router.getRpc req.name).map (fun entry => (entry.1, req.name, req.data))

/-- A section that runs no request handler. -/
def NoRun (update : World ω → World ω) : Prop := ∀ world, rpcRuns (update world).trace = rpcRuns world.trace

variable {clock : Clock ω} {router : Router ω} {session : SessionId} {s t : Link ω}

theorem respond_gives (router : Router ω) (session : SessionId) (req : RequestMsg) :
    (respond router session req).Gives (fun msg => ∃ resp, msg = .response resp ∧ Answers router req resp) := by
  unfold respond callRpc Answers
  cases router.getRpc req.name with
  | none => exact ⟨_, rfl, _, rfl, fun _ => rfl⟩
  | some entry =>
    refine (Task.Gives.any _).bind (fun result _ => ?_)
    cases result with
    | ok data => exact ⟨_, rfl, .ok data, rfl, fun absent => absurd absent (Option.some_ne_none entry)⟩
    | error e => exact ⟨_, rfl, .error e, rfl, fun absent => absurd absent (Option.some_ne_none entry)⟩

theorem rpcRuns_append (trace more : List Mark) : rpcRuns (trace ++ more) = rpcRuns trace ++ rpcRuns more :=
  List.filterMap_append

/-- The handler is run in the first section for a request, and not again. -/
theorem respond_sections (router : Router ω) (session : SessionId) (req : RequestMsg) :
    (runOf router req = none ∧ ∃ msg, respond router session req = .done msg) ∨
    ∃ update next run, respond router session req = .step update next ∧ runOf router req = some run ∧
      (∀ world, rpcRuns (update world).trace = rpcRuns world.trace ++ [run]) ∧ ∀ world, (next world).Obeys NoRun := by
  unfold respond callRpc runOf
  cases router.getRpc req.name with
  | none => exact .inl ⟨rfl, _, rfl⟩
  | some entry =>
    refine .inr ⟨_, _, _, rfl, rfl, fun world => ?_, fun world => ?_⟩
    · rw [World.note_trace, rpcRuns_append]
      rfl
    · have own : (onApp (entry.2.handleEncoded session req.data) : Task (World ω) (Result Bytes)).Obeys NoRun :=
        (Task.Obeys.any _).zoom (fun _ _ _ => rfl)
      exact own.bind (fun result => by cases result <;> trivial)

theorem handleEvent_noRun (session : SessionId) (event : EventMsg) (entries : List (Token × EventHandler ω)) :
    (handleEvent session event entries).Obeys NoRun := by
  induction entries with
  | nil => trivial
  | cons entry rest ih =>
    refine ⟨fun world => ?_, fun _ => ?_⟩
    · rw [World.note_trace, rpcRuns_append]
      exact List.append_nil _
    · have own : (onApp (entry.2.handleEncoded session event.data) : Task (World ω) (Result Unit)).Obeys NoRun :=
        (Task.Obeys.any _).zoom (fun _ _ _ => rfl)
      exact own.bind (fun _ => ih)

theorem dispatchEvent_noRun (clock : Clock ω) (router : Router ω) (session : SessionId) (event : EventMsg) :
    (dispatchEvent clock router session event).Obeys NoRun := by
  have ends : ∀ msg, (eventTerminal router session msg).Obeys NoRun := by
    intro msg
    refine ⟨fun world => ?_, fun _ => ?_⟩
    · rw [World.note_trace, rpcRuns_append]
      exact List.append_nil _
    · cases msg with
      | event e => exact (handleEvent_noRun session e _).bind (fun _ => trivial)
      | _ => trivial
  have chain : (runChain clock router session (.event event) (eventTerminal router session)).Obeys NoRun := by
    rw [runChain_eq_onion]
    refine onion_obeys (fun _ _ => rfl) (fun limit update none world => ?_) ends _ _
    dsimp only
    split
    · rfl
    · exact none world
  exact chain.bind (fun _ => trivial)

inductive Effect (clock : Clock ω) (router : Router ω) (session : SessionId) (s : Link ω) : Label ω → Link ω → Prop where
  | performed {op : Operation} {browser : Client} (ran : run (Core.StateMachine.step wire) s.browser op.acts = some browser) :
      Effect clock router session s (.perform op)
        ({ s with browser, requests := s.requests ++ (op.builds s.browser.core).toList }.sends
          (op.frame s.browser.core s.requests.getLast?))
  | delivered {msg : Message} {rest : List Message} (first : s.down.items = msg :: rest) :
      Effect clock router session s .deliver
        ({ s with browser := s.browser.inbound msg, down := { s.down with items := rest } }.sends
          (s.browser.core.handleInbound msg).1.2)
  | read {msg : Message} {rest : List Message} (idle : s.loop = .reading) (first : s.up.items = msg :: rest) :
      Effect clock router session s .read
        { s with up := { s.up with items := rest }, loop := Link.serve clock router session msg }
  | responding {req : RequestMsg} {update : World ω → World ω} {next : World ω → Task (World ω) Message}
      (busy : s.loop = .responding req (.step update next)) :
      Effect clock router session s .work { s with world := update s.world, loop := .responding req (next s.world) }
  | dispatching {update : World ω → World ω} {next : World ω → Task (World ω) Unit}
      (busy : s.loop = .dispatching (.step update next)) :
      Effect clock router session s .work { s with world := update s.world, loop := .dispatching (next s.world) }
  | answered {req : RequestMsg} {msg : Message} (done : s.loop = .responding req (.done msg)) :
      Effect clock router session s .finish { s with
        loop := .reading
        served := s.served ++ ((responseIn msg).map (fun resp => (req, resp))).toList
        down := s.down.put msg }
  | dispatched (done : s.loop = .dispatching (.done ())) :
      Effect clock router session s .finish { s with loop := .reading }
  | other (update : App ω → App ω) :
      Effect clock router session s (.other update) { s with world := s.world.setApp (update s.world.app) }
  | pushed {msg : Message} (unsolicited : responseIn msg = none) :
      Effect clock router session s (.push msg) { s with down := s.down.put msg }
  | severUp (kept : Nat) : Effect clock router session s (.severUp kept) { s with up := s.up.sever kept }
  | severDown (kept : Nat) : Effect clock router session s (.severDown kept) { s with down := s.down.sever kept }

theorem step_effect {label : Label ω} (stepped : step clock router session s label = some t) :
    Effect clock router session s label t := by
  cases label with
  | perform op =>
    rw [step, Link.perform, Option.map_eq_some_iff] at stepped
    obtain ⟨browser, ran, rfl⟩ := stepped
    exact .performed ran
  | deliver =>
    rw [step, Link.deliver] at stepped
    split at stepped <;> cases stepped
    exact .delivered ‹_›
  | read =>
    rw [step, Link.read] at stepped
    split at stepped <;> cases stepped
    exact .read ‹_› ‹_›
  | work =>
    rw [step, Link.work] at stepped
    split at stepped <;> cases stepped
    · exact .responding ‹_›
    · exact .dispatching ‹_›
  | finish =>
    rw [step, Link.finish] at stepped
    split at stepped <;> cases stepped
    · exact .answered ‹_›
    · exact .dispatched ‹_›
  | other update =>
    cases stepped
    exact .other update
  | push msg =>
    rw [step, Link.push] at stepped
    split at stepped <;> cases stepped
    exact .pushed ‹_›
  | severUp kept =>
    cases stepped
    exact .severUp kept
  | severDown kept =>
    cases stepped
    exact .severDown kept

@[simp] theorem sends_browser (s : Link ω) (frame : Option Message) : (s.sends frame).browser = s.browser := by
  cases frame <;> rfl

@[simp] theorem sends_requests (s : Link ω) (frame : Option Message) : (s.sends frame).requests = s.requests := by
  cases frame <;> rfl

@[simp] theorem sends_served (s : Link ω) (frame : Option Message) : (s.sends frame).served = s.served := by
  cases frame <;> rfl

@[simp] theorem sends_loop (s : Link ω) (frame : Option Message) : (s.sends frame).loop = s.loop := by
  cases frame <;> rfl

@[simp] theorem sends_world (s : Link ω) (frame : Option Message) : (s.sends frame).world = s.world := by
  cases frame <;> rfl

theorem sends_asked (s : Link ω) (frame : Option Message) :
    (s.sends frame).asked = s.asked ++ (frame.bind requestIn).toList := by
  cases frame with
  | none => exact (List.append_nil _).symm
  | some msg => rfl

theorem sends_moves (s : Link ω) (frame : Option Message) : s.calls.Moves (s.sends frame).calls := by
  cases frame with
  | none => exact .stays
  | some msg =>
    cases picked : requestIn msg with
    | none =>
      have same : (s.send msg).calls = s.calls := by
        simp [Link.calls, Link.send, picked, Pipe.only_put_none]
      exact same ▸ .stays
    | some req =>
      have same : (s.send msg).calls =
          { s.calls with asked := s.calls.asked ++ [req], up := s.calls.up.put req } := by
        simp [Link.calls, Link.send, picked, Pipe.only_put_some]
      exact same ▸ .ask req

theorem acts_history {browser : Client} {op : Operation} {later : Client}
    (ran : run (Core.StateMachine.step wire) browser op.acts = some later) :
    later.history = browser.history ++ ((op.builds browser.core).map (fun req => Happening.requested req.id)).toList ∧
      browser.allocated.length ≤ later.allocated.length := by
  cases op <;> cases ran <;> simp [Operation.builds, requestIn, ClientCore.buildRequest, ClientCore.takeNextId,
    Client.request, Client.allocating]

theorem inbound_history (browser : Client) (msg : Message) :
    (browser.inbound msg).history = browser.history ++ ((responseIn msg).map Happening.responded).toList := by
  cases msg <;> simp [Client.inbound, responseIn]

theorem issued_append (history more : List Happening) : issued (history ++ more) = issued history ++ issued more :=
  List.filterMap_append

theorem responded_append (history more : List Happening) :
    responded (history ++ more) = responded history ++ responded more :=
  List.filterMap_append

/-- Of what is sent both ways, requests and responses go the way of an exchange. -/
theorem Effect.balanced {label : Label ω} (effect : Effect clock router session s label t)
    (answering : ∀ req answer, s.loop = .responding req answer →
      answer.Gives (fun msg => ∃ resp, msg = .response resp ∧ Answers router req resp))
    (balanced : Balanced s.calls) : Balanced t.calls := by
  cases effect with
  | @performed op browser ran =>
    obtain ⟨history, -⟩ := acts_history ran
    have taken : responded browser.history = responded s.browser.history := by
      rw [history, responded_append]
      cases op.builds s.browser.core <;> exact List.append_nil _
    have same : Link.calls { s with browser, requests := s.requests ++ (op.builds s.browser.core).toList } = s.calls := by
      simp only [Link.calls, taken]
    exact (same ▸ balanced : Balanced (Link.calls _)).moves (sends_moves _ _)
  | @delivered msg rest first =>
    refine Balanced.moves ?_ (sends_moves _ _)
    have history := inbound_history s.browser msg
    cases picked : responseIn msg with
    | none =>
      have same : Link.calls { s with browser := s.browser.inbound msg, down := { s.down with items := rest } } = s.calls := by
        rw [picked] at history
        simp [Link.calls, Pipe.only, history, first, picked]
      rw [same]
      exact balanced
    | some resp =>
      rw [picked] at history
      have items : s.calls.down.items = resp :: rest.filterMap responseIn := by
        simp [Link.calls, Pipe.only, first, picked]
      have same : Link.calls { s with browser := s.browser.inbound msg, down := { s.down with items := rest } } =
          { s.calls with
            down := { s.calls.down with items := rest.filterMap responseIn }
            taken := s.calls.taken ++ [resp] } := by
        simp only [Link.calls, Pipe.only, history, responded_append]
        rfl
      rw [same]
      exact balanced.moves (.take items)
  | @read msg rest idle first =>
    cases picked : requestIn msg with
    | none =>
      have same : Link.calls { s with up := { s.up with items := rest }, loop := Link.serve clock router session msg } =
          s.calls := by
        have idles : (Link.serve clock router session msg).serving = none := by
          cases msg <;> first | rfl | cases picked
        simp [Link.calls, Pipe.only, idle, first, picked, idles]
      rw [same]
      exact balanced
    | some req =>
      have items : s.calls.up.items = req :: rest.filterMap requestIn := by
        simp [Link.calls, Pipe.only, first, picked]
      have serving : (Link.serve clock router session msg).serving = some req := by
        cases msg <;> cases picked
        rfl
      have free : s.calls.serving = none := by
        simp [Link.calls, idle]
      have same : Link.calls { s with up := { s.up with items := rest }, loop := Link.serve clock router session msg } =
          { s.calls with up := { s.calls.up with items := rest.filterMap requestIn }, serving := some req } := by
        simp only [Link.calls, Pipe.only, serving]
      rw [same]
      exact balanced.moves (.start free items)
  | responding busy =>
    simpa [Link.calls, busy] using balanced
  | dispatching busy =>
    simpa [Link.calls, busy] using balanced
  | @answered req msg done =>
    obtain ⟨resp, rfl, -⟩ := answering req _ done
    have serving : s.calls.serving = some req := congrArg Loop.serving done
    have same : Link.calls { s with
        loop := .reading
        served := s.served ++ ((responseIn (.response resp)).map (fun resp => (req, resp))).toList
        down := s.down.put (.response resp) } =
        { s.calls with
          serving := none
          served := s.calls.served ++ [(req, resp)]
          down := s.calls.down.put resp } := by
      simp [Link.calls, responseIn, Pipe.only_put_some]
    rw [same]
    exact balanced.moves (.answer resp serving)
  | dispatched done =>
    simpa [Link.calls, done] using balanced
  | other update => exact balanced
  | pushed unsolicited =>
    simpa [Link.calls, Pipe.only_put_none unsolicited] using balanced
  | severUp kept =>
    obtain ⟨seen, same⟩ := Pipe.only_sever requestIn s.up kept
    have moved := balanced.moves (.severUp seen)
    simpa [Link.calls, same] using moved
  | severDown kept =>
    obtain ⟨seen, same⟩ := Pipe.only_sever responseIn s.down kept
    have moved := balanced.moves (.severDown seen)
    simpa [Link.calls, same] using moved

/-- The response a request is answered with is the first that came with its id. -/
def Firsts (history : List Happening) : Prop :=
  ∀ id ∈ issued history, answerTo id history = (responded history).find? (fun resp => resp.id = id)

theorem Firsts.requested {history : List Happening} {id : UInt64} (firsts : Firsts history) (fresh : id ∉ issued history)
    (unknown : ∀ resp ∈ responded history, resp.id ≠ id) : Firsts (history ++ [.requested id]) := by
  intro other asked
  rw [answerTo_requested, responded_append, show responded [.requested id] = [] from rfl, List.append_nil]
  rw [issued_requested, List.mem_append, List.mem_singleton] at asked
  rcases asked with old | rfl
  · exact firsts other old
  · rw [answerTo_unissued _ fresh, eq_comm, List.find?_eq_none]
    intro resp came same
    exact unknown resp came (of_decide_eq_true same)

theorem Firsts.responded {history : List Happening} (firsts : Firsts history) (resp : ResponseMsg) :
    Firsts (history ++ [.responded resp]) := by
  intro id asked
  rw [issued_responded] at asked
  rw [answerTo_responded, responded_append, List.find?_append, firsts id asked]
  congr 1
  by_cases same : resp.id = id
  · simp [WsLink.responded, asked, same]
  · simp [WsLink.responded, same]

/-- The handlers have been run for the requests that were started, in their order. -/
def Runs (router : Router ω) (session : SessionId) (s : Link ω) : Prop :=
  let runs := (s.served.map Prod.fst).filterMap (runOf router)
  match s.loop with
  | .reading => rpcRuns s.world.trace = runs
  | .dispatching event => event.Obeys NoRun ∧ rpcRuns s.world.trace = runs
  | .responding req answer =>
      (answer = respond router session req ∧ rpcRuns s.world.trace = runs) ∨
      (answer.Obeys NoRun ∧ rpcRuns s.world.trace = runs ++ (runOf router req).toList)

structure Kept (router : Router ω) (session : SessionId) (s : Link ω) : Prop where
  browser : Reachable (Core.StateMachine.step wire) .init s.browser
  balanced : Balanced s.calls
  answering : ∀ req answer, s.loop = .responding req answer →
    answer.Gives (fun msg => ∃ resp, msg = .response resp ∧ Answers router req resp)
  answers : ∀ pair ∈ s.served, Answers router pair.1 pair.2
  issued : issued s.browser.history = s.requests.map RequestMsg.id
  asked : ∀ req, req ∈ s.asked ↔ req ∈ s.requests
  distinct : s.browser.allocated.length < 2 ^ 64 → (s.requests.map RequestMsg.id).Nodup
  firsts : s.browser.allocated.length < 2 ^ 64 → Firsts s.browser.history
  runs : Runs router session s

theorem init_kept (router : Router ω) (session : SessionId) (app : App ω) : Kept router session (.init app) where
  browser := .refl _ _
  balanced := .init
  answering _ _ responding := by cases responding
  answers _ member := absurd member List.not_mem_nil
  issued := rfl
  asked _ := Iff.rfl
  distinct _ := List.nodup_nil
  firsts _ _ asked := absurd asked List.not_mem_nil
  runs := rfl

theorem replyTo_id (req : RequestMsg) (result : Result Bytes) : (replyTo req result).id = req.id := by
  cases result <;> rfl

theorem Answers.id {req : RequestMsg} {resp : ResponseMsg} (answers : Answers router req resp) : resp.id = req.id := by
  obtain ⟨result, rfl, -⟩ := answers
  exact replyTo_id req result

namespace Kept

theorem known (kept : Kept router session s) {resp : ResponseMsg} (came : resp ∈ responded s.browser.history) :
    ∃ req ∈ s.requests, (req, resp) ∈ s.served ∧ resp.id = req.id := by
  obtain ⟨req, asked, served⟩ := kept.balanced.taken_served came
  exact ⟨req, (kept.asked req).1 asked, served, (kept.answers _ served).id⟩

theorem sound (kept : Kept router session s) : Sound s.browser := reachable_sound wire kept.browser

end Kept

namespace Effect

variable {label : Label ω}

theorem browser (effect : Effect clock router session s label t)
    (reached : Reachable (Core.StateMachine.step wire) .init s.browser) :
    Reachable (Core.StateMachine.step wire) .init t.browser := by
  obtain ⟨labels, before⟩ := reached
  cases effect with
  | @performed op browser ran =>
    rw [sends_browser]
    refine ⟨labels ++ op.acts, ?_⟩
    rw [run_append, before]
    exact ran
  | @delivered msg rest first =>
    rw [sends_browser]
    refine ⟨labels ++ [.inbound msg], ?_⟩
    rw [run_append, before]
    rfl
  | _ => exact ⟨labels, before⟩

theorem answering (effect : Effect clock router session s label t)
    (before : ∀ req answer, s.loop = .responding req answer →
      answer.Gives (fun msg => ∃ resp, msg = .response resp ∧ Answers router req resp)) :
    ∀ req answer, t.loop = .responding req answer →
      answer.Gives (fun msg => ∃ resp, msg = .response resp ∧ Answers router req resp) := by
  intro own answer loop
  cases effect with
  | performed ran =>
    rw [sends_loop] at loop
    exact before own answer loop
  | delivered first =>
    rw [sends_loop] at loop
    exact before own answer loop
  | @read msg rest idle first =>
    cases msg <;> cases loop
    exact respond_gives router session own
  | responding busy =>
    cases loop
    exact before _ _ busy s.world
  | dispatching busy => cases loop
  | answered done => cases loop
  | dispatched done => cases loop
  | other update => exact before own answer loop
  | pushed unsolicited => exact before own answer loop
  | severUp kept => exact before own answer loop
  | severDown kept => exact before own answer loop

theorem answers (effect : Effect clock router session s label t)
    (answering : ∀ req answer, s.loop = .responding req answer →
      answer.Gives (fun msg => ∃ resp, msg = .response resp ∧ Answers router req resp))
    (before : ∀ pair ∈ s.served, Answers router pair.1 pair.2) : ∀ pair ∈ t.served, Answers router pair.1 pair.2 := by
  cases effect with
  | performed ran =>
    rw [sends_served]
    exact before
  | delivered first =>
    rw [sends_served]
    exact before
  | @answered req msg done =>
    obtain ⟨resp, rfl, fits⟩ := answering req _ done
    intro pair member
    rcases List.mem_append.1 member with old | new
    · exact before pair old
    · rw [responseIn, Option.map_some, Option.toList_some, List.mem_singleton] at new
      subst new
      exact fits
  | _ => exact before

/-- A frame that holds a request is one the operation has built, or the last one again. -/
theorem frame_request (op : Operation) (core : ClientCore) (last : Option RequestMsg) :
    (op.frame core last).bind requestIn = op.builds core ∨
      (op.builds core = none ∧ (op.frame core last).bind requestIn = last) := by
  cases op with
  | again =>
    refine .inr ⟨rfl, ?_⟩
    cases last <;> rfl
  | _ => exact .inl rfl

theorem reply_request (core : ClientCore) (msg : Message) : (core.handleInbound msg).1.2.bind requestIn = none := by
  cases msg with
  | request req =>
    unfold ClientCore.handleInbound
    dsimp only
    split
    · rename_i listener handler found
      cases handler req.id req.data <;> rfl
    · rfl
  | response resp =>
    unfold ClientCore.handleInbound
    dsimp only
    split <;> rfl
  | stream frame =>
    unfold ClientCore.handleInbound
    dsimp only
    split <;> rfl
  | streamEnd ended =>
    unfold ClientCore.handleInbound
    dsimp only
    split <;> rfl
  | _ => rfl

theorem issued (effect : Effect clock router session s label t)
    (before : issued s.browser.history = s.requests.map RequestMsg.id) :
    Core.StateMachine.issued t.browser.history = t.requests.map RequestMsg.id := by
  cases effect with
  | @performed op browser ran =>
    obtain ⟨history, -⟩ := acts_history ran
    rw [sends_browser, sends_requests, history, issued_append, before, List.map_append]
    cases op.builds s.browser.core <;> rfl
  | @delivered msg rest first =>
    rw [sends_browser, sends_requests]
    change Core.StateMachine.issued (s.browser.inbound msg).history = _
    rw [inbound_history, issued_append, before]
    cases responseIn msg <;> exact List.append_nil _
  | _ => exact before

theorem asked (effect : Effect clock router session s label t) (before : ∀ req, req ∈ s.asked ↔ req ∈ s.requests)
    (req : RequestMsg) : req ∈ t.asked ↔ req ∈ t.requests := by
  cases effect with
  | @performed op browser ran =>
    rw [sends_asked, sends_requests, List.mem_append, List.mem_append, before]
    rcases frame_request op s.browser.core s.requests.getLast? with built | ⟨nothing, last⟩
    · rw [built]
    · rw [nothing, last, Option.toList_none, Option.mem_toList]
      simp only [List.not_mem_nil, or_false, or_iff_left_iff_imp]
      exact List.mem_of_getLast?
  | @delivered msg rest first =>
    rw [sends_asked, sends_requests, reply_request]
    simpa using before req
  | _ => exact before req

theorem fresh (kept : Kept router session s) {op : Operation} {browser : Client}
    (ran : run (Core.StateMachine.step wire) s.browser op.acts = some browser)
    (few : browser.allocated.length < 2 ^ 64) {req : RequestMsg} (built : op.builds s.browser.core = some req) :
    req.id ∉ s.requests.map RequestMsg.id := by
  rw [← kept.issued]
  cases op <;> cases built
  cases ran
  intro asked
  change (s.browser.allocated ++ [_]).length < 2 ^ 64 at few
  rw [List.length_append] at few
  exact kept.sound.fresh few (kept.sound.among _ asked)

theorem distinct (effect : Effect clock router session s label t) (kept : Kept router session s)
    (few : t.browser.allocated.length < 2 ^ 64) : (t.requests.map RequestMsg.id).Nodup := by
  cases effect with
  | @performed op browser ran =>
    rw [sends_browser] at few
    change browser.allocated.length < 2 ^ 64 at few
    have before := kept.distinct (Nat.lt_of_le_of_lt (acts_history ran).2 few)
    rw [sends_requests, List.map_append]
    cases built : op.builds s.browser.core with
    | none =>
      rw [Option.toList_none, List.map_nil, List.append_nil]
      exact before
    | some req =>
      rw [Option.toList_some, List.map_singleton, List.nodup_append]
      refine ⟨before, List.nodup_singleton _, fun id old other new same => ?_⟩
      rw [List.mem_singleton.1 new] at same
      exact fresh kept ran few built (same ▸ old)
  | @delivered msg rest first =>
    rw [sends_browser] at few
    rw [sends_requests]
    exact kept.distinct few
  | _ => exact kept.distinct few

theorem firsts (effect : Effect clock router session s label t) (kept : Kept router session s)
    (few : t.browser.allocated.length < 2 ^ 64) : Firsts t.browser.history := by
  cases effect with
  | @performed op browser ran =>
    rw [sends_browser] at few ⊢
    change browser.allocated.length < 2 ^ 64 at few
    obtain ⟨history, grown⟩ := acts_history ran
    have before := kept.firsts (Nat.lt_of_le_of_lt grown few)
    change Firsts browser.history
    rw [history]
    cases built : op.builds s.browser.core with
    | none =>
      rw [Option.map_none, Option.toList_none, List.append_nil]
      exact before
    | some req =>
      have fresh := fresh kept ran few built
      refine before.requested (kept.issued ▸ fresh) (fun resp came same => ?_)
      obtain ⟨own, made, -, answer⟩ := kept.known came
      exact fresh (List.mem_map.2 ⟨own, made, answer.symm.trans same⟩)
  | @delivered msg rest first =>
    rw [sends_browser] at few ⊢
    have before := kept.firsts few
    change Firsts (s.browser.inbound msg).history
    rw [inbound_history]
    cases responseIn msg with
    | none =>
      rw [Option.map_none, Option.toList_none, List.append_nil]
      exact before
    | some resp => exact before.responded resp
  | _ => exact kept.firsts few

theorem runs (effect : Effect clock router session s label t) (kept : Kept router session s) : Runs router session t := by
  have before := kept.runs
  cases effect with
  | performed ran =>
    unfold Runs at before ⊢
    rw [sends_loop, sends_served, sends_world]
    exact before
  | delivered first =>
    unfold Runs at before ⊢
    rw [sends_loop, sends_served, sends_world]
    exact before
  | @read msg rest idle first =>
    simp only [Runs, idle] at before
    cases msg with
    | request req => exact .inl ⟨rfl, before⟩
    | event event => exact ⟨dispatchEvent_noRun clock router session event, before⟩
    | _ => exact before
  | @responding req update next busy =>
    simp only [Runs, busy] at before
    rcases before with ⟨begins, runs⟩ | ⟨quiet, runs⟩
    · rcases respond_sections router session req with ⟨-, msg, ended⟩ | ⟨update', next', run, first, its, notes, quiet⟩
      · rw [ended] at begins
        cases begins
      · rw [first] at begins
        cases begins
        refine .inr ⟨quiet s.world, ?_⟩
        rw [notes, runs, its]
        rfl
    · exact .inr ⟨quiet.2 s.world, (quiet.1 s.world).trans runs⟩
  | @dispatching update next busy =>
    simp only [Runs, busy] at before
    exact ⟨before.1.2 s.world, (before.1.1 s.world).trans before.2⟩
  | @answered req msg done =>
    obtain ⟨resp, rfl, -⟩ := kept.answering req _ done
    simp only [Runs, done] at before
    have grown : ((s.served ++ [(req, resp)]).map Prod.fst).filterMap (runOf router) =
        (s.served.map Prod.fst).filterMap (runOf router) ++ (runOf router req).toList := by
      rw [List.map_append, List.filterMap_append]
      cases found : runOf router req <;> simp [found]
    simp only [Runs, responseIn, Option.map_some, Option.toList_some, grown]
    rcases before with ⟨begins, runs⟩ | ⟨-, runs⟩
    · rcases respond_sections router session req with ⟨none, -⟩ | ⟨update, next, run, first, -⟩
      · rw [runs, none, Option.toList_none, List.append_nil]
      · rw [first] at begins
        cases begins
    · exact runs
  | dispatched done =>
    simp only [Runs, done] at before
    exact before.2
  | _ => exact before

end Effect

theorem step_kept (s : Link ω) (label : Label ω) (t : Link ω) (kept : Kept router session s)
    (stepped : step clock router session s label = some t) : Kept router session t := by
  have effect := step_effect stepped
  constructor
  · exact effect.browser kept.browser
  · exact effect.balanced kept.answering kept.balanced
  · exact effect.answering kept.answering
  · exact effect.answers kept.answering kept.answers
  · exact effect.issued kept.issued
  · exact effect.asked kept.asked
  · exact effect.distinct kept
  · exact effect.firsts kept
  · exact effect.runs kept

theorem reachable_kept {app : App ω} (reached : Reachable (step clock router session) (.init app) s) :
    Kept router session s :=
  reached.invariant (init_kept router session app) step_kept

/-- What the script is called back with when the handler returned the result. -/
def given : Result Bytes → Bytes × Option String
  | .ok data => (data, none)
  | .error e => ([], some e.text)

theorem contents_replyTo (req : RequestMsg) (result : Result Bytes) :
    ClientCore.contents (replyTo req result) = given result := by
  cases result <;> rfl

section Promises

variable {δ : Type}

/-- What the callback settles its promise with. The state machine discards what decoding
throws, and the promise stays pending. -/
def settling (decode : Bytes → Option δ) : Bytes × Option String → Option (Except String δ)
  | (_, some text) => some (.error text)
  | (data, none) => (decode data).map .ok

/-- What the promise of a request was settled with. Every request brings its way to decode. -/
def Link.settlements (decode : Nat → Bytes → Option δ) (s : Link ω) (i : Nat) : List (Except String δ) :=
  (responses i s.browser.calls).filterMap (settling (decode i))

/-- What a promise is settled with when the handler returned the result. -/
def settlement (decode : Bytes → Option δ) : Result Bytes → Option (Except String δ)
  | .ok data => (decode data).map .ok
  | .error e => some (.error e.text)

/-- The script was called back with the server's answer to the request, once, and has settled
the promise with it unless decoding threw. -/
def Link.Answered (router : Router ω) (decode : Nat → Bytes → Option δ) (s : Link ω) (i : Nat) (req : RequestMsg) : Prop :=
  ∃ result, (req, replyTo req result) ∈ s.served ∧
    (router.getRpc req.name = none → result = .error (.handlerNotFound req.name)) ∧
    responses i s.browser.calls = [given result] ∧ s.settlements decode i = (settlement (decode i) result).toList

theorem settling_given (decode : Bytes → Option δ) (result : Result Bytes) :
    settling decode (given result) = settlement decode result := by
  cases result <;> rfl

theorem settlements_one {decode : Nat → Bytes → Option δ} {i : Nat} {result : Result Bytes}
    (called : responses i s.browser.calls = [given result]) :
    s.settlements decode i = (settlement (decode i) result).toList := by
  rw [Link.settlements, called, List.filterMap_cons, settling_given]
  cases settlement (decode i) result <;> rfl

theorem settlements_none {decode : Nat → Bytes → Option δ} {i : Nat} (silent : responses i s.browser.calls = []) :
    s.settlements decode i = [] := by
  rw [Link.settlements, silent, List.filterMap_nil]

end Promises

namespace Kept

theorem settles (kept : Kept router session s) (few : s.browser.allocated.length < 2 ^ 64) {i : Nat} {req : RequestMsg}
    (made : s.requests[i]? = some req) :
    responses i s.browser.calls =
      (((responded s.browser.history).find? (fun resp => resp.id = req.id)).map ClientCore.contents).toList := by
  have asked : (Core.StateMachine.issued s.browser.history)[i]? = some req.id := by
    rw [kept.issued, List.getElem?_map, made]
    rfl
  have books := (kept.sound.books few).answered i req.id asked
  rw [kept.firsts few req.id (List.mem_of_getElem? asked)] at books
  exact books

/-- What a request is called back with is the server's answer to it. -/
theorem own_answer (kept : Kept router session s) (few : s.browser.allocated.length < 2 ^ 64) {req : RequestMsg}
    (made : req ∈ s.requests) {resp : ResponseMsg} (came : resp ∈ responded s.browser.history) (same : resp.id = req.id) :
    ∃ result, resp = replyTo req result ∧ (req, resp) ∈ s.served ∧
      (router.getRpc req.name = none → result = .error (.handlerNotFound req.name)) := by
  have apart := List.inj_on_of_nodup_map (kept.distinct few)
  have served := kept.balanced.own_answer RequestMsg.id ResponseMsg.id
    (fun pair member => (kept.answers pair member).id)
    (fun first asked second other => apart ((kept.asked first).1 asked) ((kept.asked second).1 other))
    ((kept.asked req).2 made) came same
  obtain ⟨result, answer, absent⟩ := kept.answers _ served
  exact ⟨result, answer, served, absent⟩

theorem answered (kept : Kept router session s) (few : s.browser.allocated.length < 2 ^ 64) {δ : Type}
    (decode : Nat → Bytes → Option δ) {i : Nat} {req : RequestMsg} (made : s.requests[i]? = some req) {resp : ResponseMsg}
    (first : (responded s.browser.history).find? (fun resp => resp.id = req.id) = some resp) :
    s.Answered router decode i req := by
  have same : resp.id = req.id := by simpa using List.find?_some first
  obtain ⟨result, rfl, served, absent⟩ :=
    kept.own_answer few (List.mem_of_getElem? made) (List.mem_of_find?_eq_some first) same
  have called : responses i s.browser.calls = [given result] := by
    rw [kept.settles few made, first, Option.map_some, contents_replyTo, Option.toList_some]
  exact ⟨result, served, absent, called, settlements_one called⟩

theorem settles_all (kept : Kept router session s) (few : s.browser.allocated.length < 2 ^ 64) {δ : Type}
    (decode : Nat → Bytes → Option δ)
    (up : s.calls.up = .empty) (idle : s.loop.serving = none) (down : s.calls.down = .empty) {i : Nat} {req : RequestMsg}
    (made : s.requests[i]? = some req) : s.Answered router decode i req := by
  obtain ⟨asked, taken⟩ := kept.balanced.settled up idle down
  have sent : req ∈ s.calls.asked := (kept.asked req).2 (List.mem_of_getElem? made)
  rw [asked, List.mem_map] at sent
  obtain ⟨pair, served, rfl⟩ := sent
  have came : pair.2 ∈ responded s.browser.history := by
    change pair.2 ∈ s.calls.taken
    rw [taken]
    exact List.mem_map_of_mem served
  have found : ((responded s.browser.history).find? (fun resp => resp.id = pair.1.id)).isSome :=
    List.find?_isSome.2 ⟨pair.2, came, decide_eq_true (kept.answers pair served).id⟩
  obtain ⟨resp, first⟩ := Option.isSome_iff_exists.1 found
  exact kept.answered few decode made first

theorem settles_in_order (kept : Kept router session s) (few : s.browser.allocated.length < 2 ^ 64)
    (once : s.asked = s.requests) {i : Nat} {req : RequestMsg} (made : s.requests[i]? = some req) :
    responses i s.browser.calls = ((responded s.browser.history)[i]?.map ClientCore.contents).toList := by
  have distinct := kept.distinct few
  rw [← once] at distinct made
  have place : s.calls.taken.find? (fun resp => resp.id = req.id) = s.calls.taken[i]? :=
    kept.balanced.answer_at (fun pair member => (kept.answers pair member).id) distinct made
  rw [kept.settles few (once ▸ made)]
  exact congrArg (fun resp : Option ResponseMsg => (resp.map ClientCore.contents).toList) place

end Kept

theorem Kept.started (kept : Kept router session s) : ∃ started, s.served.map Prod.fst <+: started ∧ started <+: s.asked ∧
    rpcRuns s.world.trace = started.filterMap (runOf router) := by
  have runs := kept.runs
  have front := kept.balanced.served_prefix
  cases loop : s.loop with
  | reading =>
    simp only [Runs, loop] at runs
    exact ⟨_, List.prefix_rfl, front, runs⟩
  | dispatching event =>
    simp only [Runs, loop] at runs
    exact ⟨_, List.prefix_rfl, front, runs.2⟩
  | responding req answer =>
    simp only [Runs, loop] at runs
    have both := kept.balanced.started_prefix
    change s.served.map Prod.fst ++ s.loop.serving.toList <+: s.asked at both
    rw [loop, responding_serving] at both
    rcases runs with ⟨-, same⟩ | ⟨-, same⟩
    · exact ⟨_, List.prefix_rfl, front, same⟩
    · refine ⟨_, List.prefix_append _ _, both, ?_⟩
      rw [same, List.filterMap_append]
      cases found : runOf router req <;> simp [found]

theorem asked_once {labels : List (Label ω)} (ran : run (step clock router session) s labels = some t)
    (never : Label.perform .again ∉ labels) (same : s.asked = s.requests) : t.asked = t.requests := by
  induction labels generalizing s with
  | nil =>
    cases ran
    exact same
  | cons label rest ih =>
    obtain ⟨next, stepped, ran⟩ := run_cons_some ran
    rw [List.mem_cons, not_or] at never
    refine ih ran never.2 ?_
    cases step_effect stepped with
    | @performed op browser acted =>
      rw [sends_asked, sends_requests, same]
      cases op with
      | again => exact absurd rfl never.1
      | _ => rfl
    | @delivered msg rest first =>
      rw [sends_asked, sends_requests, Effect.reply_request, Option.toList_none, List.append_nil]
      exact same
    | _ => exact same

/-- In every run a request is called back at most once, with what the server answered to it,
and its promise is settled with that unless decoding throws. The handlers are run for the
requests that arrive, once and in order. When nothing is left on its way every request was
called back. Where no frame is sent again, a handler runs once for each request and they are
called back in their order. -/
theorem promises_settle {app : App ω} {labels : List (Label ω)}
    (ran : run (step clock router session) (.init app) labels = some s) (few : s.browser.allocated.length < 2 ^ 64)
    {δ : Type} (decode : Nat → Bytes → Option δ) :
    (∀ i req, s.requests[i]? = some req → (responses i s.browser.calls = [] ∧ s.settlements decode i = []) ∨
      s.Answered router decode i req) ∧
    (∀ i, s.requests.length ≤ i → s.settlements decode i = []) ∧
    (∃ started, s.served.map Prod.fst <+: started ∧ started <+: s.asked ∧
      rpcRuns s.world.trace = started.filterMap (runOf router)) ∧
    (s.calls.up = .empty → s.loop.serving = none → s.calls.down = .empty →
      ∀ i req, s.requests[i]? = some req → s.Answered router decode i req) ∧
    (.perform .again ∉ labels → s.asked = s.requests ∧
      ∃ n, ∀ i < s.requests.length, (responses i s.browser.calls = [] ↔ n ≤ i)) := by
  have kept := reachable_kept ⟨labels, ran⟩
  refine ⟨fun i req made => ?_, fun i beyond => ?_, kept.started,
    fun up idle down i req made => kept.settles_all few decode up idle down made, fun never => ?_⟩
  · cases first : (responded s.browser.history).find? (fun resp => resp.id = req.id) with
    | none =>
      have silent : responses i s.browser.calls = [] := by
        rw [kept.settles few made, first]
        rfl
      exact .inl ⟨silent, settlements_none silent⟩
    | some resp => exact .inr (kept.answered few decode made first)
  · have silent := (kept.sound.books few).silent i
    rw [kept.issued, List.length_map] at silent
    exact settlements_none (silent beyond)
  · have once := asked_once ran never rfl
    refine ⟨once, (responded s.browser.history).length, fun i below => ?_⟩
    rw [kept.settles_in_order few once (List.getElem?_eq_getElem below), Option.toList_eq_nil_iff, Option.map_eq_none_iff,
      List.getElem?_eq_none_iff]

private def echoing : Router Unit := (Router.new.addRpc ⟨"echo", fun _ payload => pure (.ok payload)⟩).1

/-- Two requests to a handler and one to none, an event of the server in between. -/
private def threeRequests : List (Label Unit) :=
  [.perform (.request "echo" [7]), .perform (.request "echo" [8]), .perform (.request "none" []), .read, .work,
    .push (.event ⟨1, "tick", []⟩), .finish, .read, .work, .finish, .read, .finish, .deliver, .deliver, .deliver, .deliver]

/-- The second request brings a function that throws. -/
private def throwing (i : Nat) (data : Bytes) : Option Bytes := if i = 1 then none else some data

theorem promises_settle_thrown : ∃ s, run (step (fun _ _ => false) echoing 1) (.init ⟨fun _ _ => none, ()⟩) threeRequests = some s ∧
    s.requests = [⟨1, "echo", [7]⟩, ⟨2, "echo", [8]⟩, ⟨3, "none", []⟩] ∧
    (∀ i req, s.requests[i]? = some req → s.Answered echoing throwing i req) ∧
    s.settlements throwing 0 = [.ok [7]] ∧ s.settlements throwing 1 = [] ∧
    s.settlements throwing 2 = [.error "handler not found: none"] := by
  obtain ⟨s, ran⟩ : ∃ s, run (step (fun _ _ => false) echoing 1) (.init ⟨fun _ _ => none, ()⟩) threeRequests = some s :=
    ⟨_, rfl⟩
  have few : s.browser.allocated.length < 2 ^ 64 := by
    cases ran
    decide
  obtain ⟨-, -, -, all, -⟩ := promises_settle ran few throwing
  refine ⟨s, ran, ?_, all ?_ ?_ ?_, ?_, ?_, ?_⟩ <;> cases ran <;> rfl

/-! The loop awaits the handlers, and a handler may itself wait for something. -/

def awaiting (waits : Loop ω → World ω → Bool) (clock : Clock ω) (router : Router ω) (session : SessionId) :
    Step (Link ω) (Label ω)
  | s, .work => if waits s.loop s.world then none else s.work
  | s, label => step clock router session s label

/-- The loop is between two sections of a handler, or before the first. -/
def Loop.Going : Loop ω → Prop
  | responding _ (.step ..) => True
  | dispatching (.step ..) => True
  | _ => False

/-- What the loop awaits comes to its end in this world without waiting for anything. -/
def Finishes (waits : Loop ω → World ω → Bool) : Loop ω → World ω → Prop
  | .reading, _ => True
  | .responding req answer, world => answer.Finishes (fun answer => waits (.responding req answer)) world
  | .dispatching event, world => event.Finishes (fun event => waits (.dispatching event)) world

theorem awaiting_step {waits : Loop ω → World ω → Bool} {label : Label ω}
    (stepped : awaiting waits clock router session s label = some t) : step clock router session s label = some t := by
  cases label with
  | work =>
    rw [awaiting] at stepped
    split at stepped
    · cases stepped
    · exact stepped
  | _ => exact stepped

/-- The steps of the loop and of the client's message handler, which nobody else has to
take part in. -/
def Label.Own : Label ω → Prop
  | .deliver | .read | .work | .finish => True
  | _ => False

/-- One of the ways to go on by own steps leads there. -/
def Goes (waits : Loop ω → World ω → Bool) (clock : Clock ω) (router : Router ω) (session : SessionId) (s t : Link ω) :
    Prop :=
  ∃ labels, (∀ label ∈ labels, label.Own) ∧ run (awaiting waits clock router session) s labels = some t

variable {waits : Loop ω → World ω → Bool}

namespace Goes

theorem refl (s : Link ω) : Goes waits clock router session s s := ⟨[], fun _ member => absurd member List.not_mem_nil, rfl⟩

theorem cons {label : Label ω} {mid : Link ω} (stepped : awaiting waits clock router session s label = some mid) (own : label.Own)
    (goes : Goes waits clock router session mid t) : Goes waits clock router session s t := by
  obtain ⟨labels, all, ran⟩ := goes
  refine ⟨label :: labels, fun other member => ?_, ?_⟩
  · rcases List.mem_cons.1 member with rfl | later
    · exact own
    · exact all other later
  · rw [run_cons, stepped]
    exact ran

theorem trans {mid : Link ω} (first : Goes waits clock router session s mid) (second : Goes waits clock router session mid t) :
    Goes waits clock router session s t := by
  obtain ⟨labels, all, ran⟩ := first
  obtain ⟨more, others, later⟩ := second
  refine ⟨labels ++ more, fun label member => ?_, ?_⟩
  · exact (List.mem_append.1 member).elim (all label) (others label)
  · rw [run_append, ran]
    exact later

end Goes

/-- Own steps build no requests, allocate no ids and lose nothing. -/
structure Further (s t : Link ω) : Prop where
  requests : t.requests = s.requests
  allocated : t.browser.allocated = s.browser.allocated
  up : t.up.cut = s.up.cut
  down : t.down.cut = s.down.cut

theorem Further.trans {mid : Link ω} (first : Further s mid) (second : Further mid t) : Further s t where
  requests := second.requests.trans first.requests
  allocated := second.allocated.trans first.allocated
  up := second.up.trans first.up
  down := second.down.trans first.down

/-- What the loop waits for comes to an end. -/
theorem goes_reading (clock : Clock ω) (router : Router ω) (session : SessionId) (s : Link ω)
    (finishes : Finishes waits s.loop s.world) :
    ∃ t, Goes waits clock router session s t ∧ Further s t ∧ t.loop = .reading ∧ t.up = s.up := by
  cases loop : s.loop with
  | reading => exact ⟨s, .refl s, ⟨rfl, rfl, rfl, rfl⟩, loop, rfl⟩
  | responding req answer =>
    rw [loop] at finishes
    induction answer generalizing s with
    | done msg =>
      have finished : awaiting waits clock router session s .finish = some { s with
          loop := .reading
          served := s.served ++ ((responseIn msg).map (fun resp => (req, resp))).toList
          down := s.down.put msg } := by
        rw [awaiting, step, Link.finish]
        · simp only [loop]
        · exact fun same => by cases same
      exact ⟨_, .cons finished trivial (.refl _), ⟨rfl, rfl, rfl, Pipe.put_cut s.down msg⟩, rfl, rfl⟩
    | step update next ih =>
      obtain ⟨t, goes, further, reading, up⟩ :=
        ih s.world { s with world := update s.world, loop := .responding req (next s.world) } finishes.2 rfl
      have worked : awaiting waits clock router session s .work =
          some { s with world := update s.world, loop := .responding req (next s.world) } := by
        rw [awaiting, loop, if_neg (Bool.eq_false_iff.1 finishes.1), Link.work]
        simp only [loop]
      exact ⟨t, .cons worked trivial goes, ⟨further.requests, further.allocated, further.up, further.down⟩, reading, up⟩
  | dispatching event =>
    rw [loop] at finishes
    induction event generalizing s with
    | done value =>
      have finished : awaiting waits clock router session s .finish = some { s with loop := .reading } := by
        rw [awaiting, step, Link.finish]
        · simp only [loop]
        · exact fun same => by cases same
      exact ⟨_, .cons finished trivial (.refl _), ⟨rfl, rfl, rfl, rfl⟩, rfl, rfl⟩
    | step update next ih =>
      obtain ⟨t, goes, further, reading, up⟩ :=
        ih s.world { s with world := update s.world, loop := .dispatching (next s.world) } finishes.2 rfl
      have worked : awaiting waits clock router session s .work =
          some { s with world := update s.world, loop := .dispatching (next s.world) } := by
        rw [awaiting, loop, if_neg (Bool.eq_false_iff.1 finishes.1), Link.work]
        simp only [loop]
      exact ⟨t, .cons worked trivial goes, ⟨further.requests, further.allocated, further.up, further.down⟩, reading, up⟩

theorem goes_read (clock : Clock ω) (router : Router ω) (session : SessionId) (s : Link ω)
    (serves : ∀ msg ∈ s.up.items, ∀ world, Finishes waits (Link.serve clock router session msg) world)
    (finishes : Finishes waits s.loop s.world) :
    ∃ t, Goes waits clock router session s t ∧ Further s t ∧ t.loop = .reading ∧ t.up.items = [] := by
  induction left : s.up.items generalizing s with
  | nil =>
    obtain ⟨t, goes, further, reading, up⟩ := goes_reading clock router session s finishes
    exact ⟨t, goes, further, reading, by rw [up, left]⟩
  | cons msg rest ih =>
    obtain ⟨mid, first, further, reading, up⟩ := goes_reading clock router session s finishes
    rw [left, List.forall_mem_cons] at serves
    rw [← up] at left
    obtain ⟨t, later, more, ended⟩ :=
      ih { mid with up := { mid.up with items := rest }, loop := Link.serve clock router session msg } serves.2
        (serves.1 _) rfl
    have stepped : awaiting waits clock router session mid .read =
        some { mid with up := { mid.up with items := rest }, loop := Link.serve clock router session msg } := by
      rw [awaiting, step, Link.read]
      · simp only [reading, left]
      · exact fun same => by cases same
    exact ⟨t, first.trans (.cons stepped trivial later),
      further.trans ⟨more.requests, more.allocated, more.up, more.down⟩, ended⟩

theorem sends_further (s : Link ω) (frame : Option Message) : Further s (s.sends frame) := by
  cases frame with
  | none => exact ⟨rfl, rfl, rfl, rfl⟩
  | some msg => exact ⟨rfl, rfl, Pipe.put_cut s.up msg, rfl⟩

/-- The client takes all that is on its way to it, and sends no requests meanwhile. -/
theorem goes_delivered (waits : Loop ω → World ω → Bool) (clock : Clock ω) (router : Router ω) (session : SessionId)
    (s : Link ω) (reading : s.loop = .reading) (none : (s.up.only requestIn).items = []) :
    ∃ t, Goes waits clock router session s t ∧ Further s t ∧ t.loop = .reading ∧ (t.up.only requestIn).items = [] ∧
      t.down.items = [] := by
  induction left : s.down.items generalizing s with
  | nil => exact ⟨s, .refl s, ⟨rfl, rfl, rfl, rfl⟩, reading, none, left⟩
  | cons msg rest ih =>
    let next : Link ω := { s with browser := s.browser.inbound msg, down := { s.down with items := rest } }.sends
      (s.browser.core.handleInbound msg).1.2
    have silent : next.up.only requestIn = s.up.only requestIn := by
      have request := Effect.reply_request s.browser.core msg
      show (Link.up (Link.sends _ (s.browser.core.handleInbound msg).1.2)).only requestIn = _
      cases reply : (s.browser.core.handleInbound msg).1.2 with
      | none => rfl
      | some frame =>
        rw [reply] at request
        exact Pipe.only_put_none request
    have further : Further s next := by
      have sent := sends_further { s with browser := s.browser.inbound msg, down := { s.down with items := rest } }
        (s.browser.core.handleInbound msg).1.2
      exact ⟨sent.requests, sent.allocated, sent.up, sent.down⟩
    have rests : next.down.items = rest := by
      show (Link.down (Link.sends _ (s.browser.core.handleInbound msg).1.2)).items = rest
      cases (s.browser.core.handleInbound msg).1.2 <;> rfl
    obtain ⟨t, goes, more, ended⟩ := ih next (by rw [sends_loop, reading]) (by rw [silent, none]) rests
    have stepped : awaiting waits clock router session s .deliver = some next := by
      rw [awaiting, step, Link.deliver]
      · simp only [left]
        rfl
      · exact fun same => by cases same
    exact ⟨t, .cons stepped trivial goes, further.trans more, ended⟩

/-- While a handler waits for what others have to bring, nothing behind it is served. -/
theorem held_up (waiting : waits s.loop s.world = true) (going : s.loop.Going) (goes : Goes waits clock router session s t) :
    t.loop = s.loop ∧ t.world = s.world ∧ t.served = s.served := by
  have keeps : ∀ (mid : Link ω) (label : Label ω) (next : Link ω),
      (mid.loop = s.loop ∧ mid.world = s.world ∧ mid.served = s.served) → label.Own →
      awaiting waits clock router session mid label = some next →
      next.loop = s.loop ∧ next.world = s.world ∧ next.served = s.served := by
    rintro mid label next ⟨loop, world, served⟩ own stepped
    rw [← loop] at going
    cases label with
    | deliver =>
      cases step_effect (awaiting_step stepped)
      rw [sends_loop, sends_world, sends_served]
      exact ⟨loop, world, served⟩
    | read =>
      cases step_effect (awaiting_step stepped) with
      | read idle first =>
        rw [idle] at going
        exact going.elim
    | work =>
      rw [awaiting, loop, world, if_pos waiting] at stepped
      cases stepped
    | finish =>
      cases step_effect (awaiting_step stepped) with
      | answered done =>
        rw [done] at going
        exact going.elim
      | dispatched done =>
        rw [done] at going
        exact going.elim
    | _ => exact own.elim
  obtain ⟨labels, all, ran⟩ := goes
  exact run_invariant_where keeps ⟨rfl, rfl, rfl⟩ all ran

/-- Where the handlers of what is on its way come to their ends without waiting for others, a
connection of which nothing was lost does not get stuck: from every state it reaches, the loop
and the client can go on on their own until every request has been called back. -/
theorem promises_can_settle {app : App ω} (reached : Reachable (awaiting waits clock router session) (.init app) s)
    (up : s.up.cut = false) (down : s.down.cut = false) (few : s.browser.allocated.length < 2 ^ 64)
    (serves : ∀ msg ∈ s.up.items, ∀ world, Finishes waits (Link.serve clock router session msg) world)
    (finishes : Finishes waits s.loop s.world) {δ : Type} (decode : Nat → Bytes → Option δ) :
    ∃ t, Goes waits clock router session s t ∧ t.requests = s.requests ∧
      ∀ i req, s.requests[i]? = some req → t.Answered router decode i req := by
  obtain ⟨mid, first, further, reading, empty⟩ := goes_read clock router session s serves finishes
  obtain ⟨t, second, more, idle, noRequest, nothing⟩ := goes_delivered waits clock router session mid reading (by
    rw [Pipe.only, empty]
    rfl)
  have goes := first.trans second
  have along := further.trans more
  have kept : Kept router session t := by
    obtain ⟨before, came⟩ := reached
    obtain ⟨labels, -, ran⟩ := goes
    exact run_invariant step_kept (reachable_kept ⟨before, run_mono awaiting_step came⟩) (run_mono awaiting_step ran)
  refine ⟨t, goes, along.requests, fun i req made => ?_⟩
  rw [← along.requests] at made
  rw [← along.allocated] at few
  have upEmpty : t.calls.up = .empty := by
    have cut : (t.up.only requestIn).cut = false := along.up.trans up
    show t.up.only requestIn = ⟨[], false⟩
    rw [← noRequest, ← cut]
  have downEmpty : t.calls.down = .empty := by
    show Pipe.only responseIn t.down = ⟨[], false⟩
    rw [Pipe.only, nothing, along.down.trans down]
    rfl
  have free : t.loop.serving = none := by rw [idle, reading_serving]
  exact kept.settles_all few decode upEmpty free downEmpty made

/-- The handler of one name waits for what nobody brings. -/
private def slow (loop : Loop Unit) (_ : World Unit) : Bool := loop.serving.any (fun req => req.name = "slow")

theorem promises_can_settle_two : ∃ s t, run (awaiting slow (fun _ _ => false) echoing 1) (.init ⟨fun _ _ => none, ()⟩)
      [.perform (.request "echo" [7]), .perform (.request "none" []), .read] = some s ∧
    Goes slow (fun _ _ => false) echoing 1 s t ∧ ∀ i req, s.requests[i]? = some req → t.Answered echoing throwing i req := by
  obtain ⟨s, ran⟩ : ∃ s, run (awaiting slow (fun _ _ => false) echoing 1) (.init ⟨fun _ _ => none, ()⟩)
    [.perform (.request "echo" [7]), .perform (.request "none" []), .read] = some s := ⟨_, rfl⟩
  have finishes : Finishes slow s.loop s.world := by
    cases ran
    exact ⟨rfl, trivial⟩
  have serves : ∀ msg ∈ s.up.items, ∀ world, Finishes slow (Link.serve (fun _ _ => false) echoing 1 msg) world := by
    cases ran
    intro msg member world
    rw [List.mem_singleton.1 member]
    trivial
  obtain ⟨t, goes, -, all⟩ := promises_can_settle ⟨_, ran⟩ (by cases ran; rfl) (by cases ran; rfl) (by cases ran; decide)
    serves finishes throwing
  exact ⟨s, t, ran, goes, all⟩

end EchoStream.Transport.WsLink
