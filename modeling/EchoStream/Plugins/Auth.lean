import EchoStream.Foundation.Trace
import EchoStream.Core.Dispatch

/-! The authentication plugin: a listener that marks a session when an event
brings it the token, and a middleware that lets the other messages of a session
pass only when the mark is there. The messages of all sessions are dispatched at
once, section by section in any order. The contract all their tasks keep is that
a session carries the mark only after such an event, and that what ran for it
before was a listener of that event. -/

namespace EchoStream.Plugins.Auth
open Foundation.Run Foundation.Tasks
open Proto.Messages Proto.Postcard
open Core.Handler Core.Chain Core.Dispatch

def authEvent : String := "__echostream.auth"

def authKey : String := "__echostream_authed"

/-- The token, and the codec of the payloads that bring it. -/
structure AuthPlugin where
  codec : Codec String
  token : String

variable {ω : Type}

def AuthPlugin.eventHandler (plugin : AuthPlugin) : EventHandler ω :=
  .typed authEvent plugin.codec (fun session data =>
    if data = plugin.token then
      .step (fun app => app.set session authKey (.bool true)) (fun _ => pure (.ok ()))
    else pure (.error (.rpc 4 "认证失败：token 无效")))

def isAuthEvent : Message → Bool
  | .event e => e.name == authEvent
  | _ => false

/-- Looks for the mark once in every tenth of the time it waits. -/
def awaitAuth (session : SessionId) (msg : Message) : Nat → Script (App ω) Message Outcome Outcome
  | 0 => .done (.ok none)
  | rounds + 1 =>
      .step id (fun app =>
        if (app.getBool session authKey).isSome then .call msg .done else awaitAuth session msg rounds)

def authMiddleware : Middleware ω where
  name := "auth"
  handle session msg :=
    if isAuthEvent msg then .call msg .done
    else
      .step id (fun app =>
        if (app.getBool session authKey).isSome then .call msg .done else awaitAuth session msg 10)

def AuthPlugin.install (plugin : AuthPlugin) (router : Router ω) : Router ω :=
  ((router.addEvent plugin.eventHandler).1.addMiddleware authMiddleware).1

def nameOf : Message → Option String
  | .request msg => some msg.name
  | .event msg => some msg.name
  | .streamOpen msg => some msg.name
  | _ => none

/-- A section that leaves the marks of all sessions as they are. -/
def Markless (update : App ω → App ω) : Prop :=
  ∀ app session, (update app).states session authKey = app.states session authKey

/-- A section that leaves the marks of all sessions but one as they are. -/
def Sparing (session : SessionId) (update : App ω → App ω) : Prop :=
  ∀ app other, other ≠ session → (update app).states other authKey = app.states other authKey

/-- A middleware that passes messages on under their kind and name, and marks no session. -/
def Transparent (mw : Middleware ω) : Prop :=
  ∀ session msg, (mw.handle session msg).Obeys
    (fun passed => kindOf passed = kindOf msg ∧ nameOf passed = nameOf msg) Markless

/-- The plugin is on the router, its listener under the token `registered`: the
other middlewares are transparent, other listeners of its event mark no session,
and what runs for a session marks no other one. -/
structure Installed (plugin : AuthPlugin) (registered : Token) (router : Router ω) : Prop where
  listener : (registered, plugin.eventHandler) ∈ router.listeners authEvent
  middleware : ∃ before after, router.middlewares.map Prod.snd = before ++ authMiddleware :: after ∧
    (∀ mw ∈ before, Transparent mw) ∧ ∀ mw ∈ after, Transparent mw
  others : ∀ entry ∈ router.listeners authEvent, entry = (registered, plugin.eventHandler) ∨
    entry.1 ≠ registered ∧ ∀ session payload, (entry.2.handleEncoded session payload).Obeys Markless
  events : ∀ name entry, name ≠ authEvent → entry ∈ router.listeners name →
    ∀ session payload, (entry.2.handleEncoded session payload).Obeys (Sparing session)
  rpcs : ∀ name entry, router.getRpc name = some entry →
    ∀ session payload, (entry.2.handleEncoded session payload).Obeys (Sparing session)
  streams : ∀ name entry, router.stream.lookup name = some entry →
    ∀ session receiver, (entry.2.handle session receiver).Obeys (Sparing session)

/-- An event that brings the token was handled for the session. -/
def Proven (plugin : AuthPlugin) (registered : Token) (trace : List Mark) (session : SessionId) : Prop :=
  ∃ payload, .ran .event session registered authEvent payload ∈ trace ∧
    plugin.codec.fromBytes payload = .ok plugin.token

/-- What may happen after `trace`: until its session has brought the token, no
handler is run but the listeners of the event that may bring it. -/
def May (plugin : AuthPlugin) (registered : Token) (trace : List Mark) : Mark → Prop
  | .reached .. => True
  | .ran kind session _ name _ => (kind = .event ∧ name = authEvent) ∨ Proven plugin registered trace session

def Gated (plugin : AuthPlugin) (registered : Token) (trace : List Mark) : Prop :=
  ∀ before mark after, trace = before ++ mark :: after → May plugin registered before mark

variable {plugin : AuthPlugin} {registered : Token} {router : Router ω} {clock : Clock ω}
variable {session : SessionId} {world later : World ω} {trace longer : List Mark}

theorem Proven.mono (proven : Proven plugin registered trace session) (grown : trace <+: longer) :
    Proven plugin registered longer session := by
  obtain ⟨payload, member, decodes⟩ := proven
  exact ⟨payload, grown.subset member, decodes⟩

theorem Gated.append {mark : Mark} (gated : Gated plugin registered trace)
    (may : May plugin registered trace mark) : Gated plugin registered (trace ++ [mark]) :=
  Foundation.Trace.Ordered.append gated may

/-- What the tasks of all sessions owe each other. -/
def contract (plugin : AuthPlugin) (registered : Token) : Contract (World ω) where
  inv world := (∀ session, (world.app.getBool session authKey).isSome = true →
    Proven plugin registered world.trace session) ∧ Gated plugin registered world.trace
  grows world later := world.trace <+: later.trace
  refl _ := List.prefix_rfl
  trans _ _ _ := List.IsPrefix.trans

theorem note_safe {mark : Mark} (may : May plugin registered world.trace mark) :
    Safe (contract plugin registered) (fun _ later => mark ∈ later.trace) (note mark) world := by
  intro later grown ⟨marked, gated⟩
  have stays : May plugin registered later.trace mark := by
    cases mark with
    | reached _ _ => trivial
    | ran kind session _ name _ => exact may.imp id (fun proven => proven.mono grown)
  have longer : later.trace <+: (later.note mark).trace := List.prefix_append _ _
  refine ⟨⟨fun session is_marked => (marked session is_marked).mono longer, gated.append stays⟩, longer, ?_⟩
  intro last more _
  exact more.subset (by simp)

/-- A section of the application keeps the contract if a mark it changes is one
its session is entitled to. -/
theorem setApp_keeps {app : App ω} (inv : (contract plugin registered).inv world)
    (entitled : ∀ session, app.states session authKey = world.app.states session authKey ∨
      Proven plugin registered world.trace session) :
    (contract plugin registered).inv (world.setApp app) ∧
      (contract plugin registered).grows world (world.setApp app) := by
  refine ⟨⟨fun session is_marked => ?_, inv.2⟩, List.prefix_rfl⟩
  rcases entitled session with same | proven
  · rw [World.setApp_app, App.getBool_congr same] at is_marked
    exact inv.1 session is_marked
  · exact proven

theorem proven_stays (state later : World ω) (grown : (contract plugin registered).grows state later)
    (proven : Proven plugin registered state.trace session) : Proven plugin registered later.trace session :=
  proven.mono grown

theorem sparing_safe {α : Type} {task : Task (App ω) α} (obeys : task.Obeys (Sparing session))
    (proven : Proven plugin registered world.trace session) :
    Safe (contract plugin registered) (fun _ _ => True) (onApp task) world := by
  apply Safe.of_obeys proven_stays _ proven
  apply obeys.zoom
  intro update spares world proven inv
  apply setApp_keeps inv
  intro other
  by_cases same : other = session
  · rw [same]
    exact Or.inr proven
  · exact Or.inl (spares world.app other same)

theorem markless_safe {α : Type} {task : Task (App ω) α} (obeys : task.Obeys Markless) :
    Safe (contract plugin registered) (fun _ _ => True) (onApp task) world := by
  have stays : ∀ state later : World ω, (contract plugin registered).grows state later → True → True :=
    fun _ _ _ => id
  apply Safe.of_obeys stays _ trivial
  apply obeys.zoom
  intro update markless world _ inv
  exact setApp_keeps inv (fun session => Or.inl (markless world.app session))

theorem eventHandler_safe {payload : Bytes}
    (ran : .ran .event session registered authEvent payload ∈ world.trace) :
    Safe (contract plugin registered) (fun _ _ => True)
      (onApp ((plugin.eventHandler : EventHandler ω).handleEncoded session payload)) world := by
  simp only [AuthPlugin.eventHandler, EventHandler.typed, decode]
  cases decoded : plugin.codec.fromBytes payload with
  | error text => exact fun _ _ _ => trivial
  | ok data =>
    by_cases right : data = plugin.token
    · simp only [if_pos right]
      intro later grown inv
      have proven : Proven plugin registered later.trace session :=
        ⟨payload, grown.subset ran, by rw [decoded, right]⟩
      have entitled : ∀ other,
          (later.app.set session authKey (.bool true)).states other authKey = later.app.states other authKey ∨
            Proven plugin registered later.trace other := by
        intro other
        by_cases same : other = session
        · rw [same]
          exact Or.inr proven
        · exact Or.inl (App.set_states_other _ same _ _ _)
      obtain ⟨kept, grew⟩ := setApp_keeps inv entitled
      exact ⟨kept, grew, fun _ _ _ => trivial⟩
    · simp only [if_neg right]
      exact fun _ _ _ => trivial

/-- The message may go on: it is the event of the plugin, or the session has
brought the token. -/
def Gate (plugin : AuthPlugin) (registered : Token) (session : SessionId) (msg : Message) (world : World ω) : Prop :=
  isAuthEvent msg = true ∨ Proven plugin registered world.trace session

theorem gate_stays {msg : Message} (state later : World ω) (grown : (contract plugin registered).grows state later)
    (gate : Gate plugin registered session msg state) : Gate plugin registered session msg later :=
  gate.imp id (fun proven => proven.mono grown)

theorem isAuthEvent_event (e : EventMsg) : isAuthEvent (.event e) = true ↔ e.name = authEvent := by
  simp [isAuthEvent]

theorem listener_safe (installed : Installed plugin registered router) {e : EventMsg}
    {entry : Token × EventHandler ω} (member : entry ∈ router.listeners e.name)
    (gate : Gate plugin registered session (.event e) world)
    (ran : .ran .event session entry.1 e.name e.data ∈ world.trace) :
    Safe (contract plugin registered) (fun _ _ => True)
      (onApp (entry.2.handleEncoded session e.data)) world := by
  by_cases auth : e.name = authEvent
  · rw [auth] at member ran
    rcases installed.others entry member with own | ⟨_, markless⟩
    · rw [own] at ran ⊢
      exact eventHandler_safe ran
    · exact markless_safe (markless session e.data)
  · rcases gate with is_auth | proven
    · exact absurd ((isAuthEvent_event e).mp is_auth) auth
    · exact sparing_safe (installed.events e.name entry auth member session e.data) proven

theorem handleEvent_safe (installed : Installed plugin registered router) {e : EventMsg}
    (entries : List (Token × EventHandler ω)) (members : ∀ entry ∈ entries, entry ∈ router.listeners e.name)
    (gate : Gate plugin registered session (.event e) world) :
    Safe (contract plugin registered) (fun _ _ => True) (handleEvent session e entries) world := by
  induction entries generalizing world with
  | nil => exact fun _ _ _ => trivial
  | cons entry rest ih =>
    have may : May plugin registered world.trace (.ran .event session entry.1 e.name e.data) :=
      gate.imp (fun auth => ⟨rfl, (isAuthEvent_event e).mp auth⟩) id
    apply ((note_safe may).with gate_stays gate).bind
    intro _ noted _ ⟨ran, gate⟩
    have handled := listener_safe installed (members entry List.mem_cons_self) gate ran
    apply (handled.with gate_stays gate).bind
    intro _ later _ ⟨_, gate⟩
    exact ih (fun other member => members other (List.mem_cons_of_mem _ member)) gate

theorem eventTerminal_safe (installed : Installed plugin registered router) {msg : Message}
    (gate : Gate plugin registered session msg world) :
    Safe (contract plugin registered) (fun _ _ => True) (eventTerminal router session msg) world := by
  have reached : May plugin registered world.trace (.reached session msg) := trivial
  apply ((note_safe reached).with gate_stays gate).bind
  intro _ later _ ⟨_, gate⟩
  cases msg with
  | event e =>
    apply (handleEvent_safe installed _ (fun _ member => member) gate).bind
    intro _ _ _ _
    exact fun _ _ _ => trivial
  | _ => exact fun _ _ _ => trivial

theorem rpcTerminal_safe (installed : Installed plugin registered router) {msg : Message}
    (gate : Gate plugin registered session msg world) :
    Safe (contract plugin registered) (fun _ _ => True) (rpcTerminal router session msg) world := by
  have reached : May plugin registered world.trace (.reached session msg) := trivial
  apply ((note_safe reached).with gate_stays gate).bind
  intro _ later _ ⟨_, gate⟩
  cases msg with
  | request m =>
    have proven := gate.resolve_left Bool.noConfusion
    have called : Safe (contract plugin registered) (fun _ _ => True) (callRpc router session m) later := by
      unfold callRpc
      cases found : router.getRpc m.name with
      | none => exact fun _ _ _ => trivial
      | some entry =>
        have may : May plugin registered later.trace (.ran .rpc session entry.1 m.name m.data) := Or.inr proven
        apply ((note_safe may).with proven_stays proven).bind
        intro _ _ _ ⟨_, proven⟩
        exact sparing_safe (installed.rpcs m.name entry found session m.data) proven
    apply called.bind
    intro result _ _ _
    cases result <;> exact fun _ _ _ => trivial
  | _ => exact fun _ _ _ => trivial

theorem streamTerminal_safe (installed : Installed plugin registered router) {slot : Nat} {first : StreamMsg}
    {msg : Message} (gate : Gate plugin registered session msg world) :
    Safe (contract plugin registered) (fun _ _ => True) (streamTerminal router session slot first msg) world := by
  have reached : May plugin registered world.trace (.reached session msg) := trivial
  apply ((note_safe reached).with gate_stays gate).bind
  intro _ later _ ⟨_, gate⟩
  cases msg with
  | streamOpen opened =>
    have proven := gate.resolve_left Bool.noConfusion
    have taken : Safe (contract plugin registered) (fun _ _ => True) (takeReceiver slot) later :=
      fun _ _ inv => ⟨inv, List.prefix_rfl, fun _ _ _ => trivial⟩
    apply (taken.with proven_stays proven).bind
    intro receiver taken _ ⟨_, proven⟩
    cases receiver with
    | none => exact fun _ _ _ => trivial
    | some recv =>
      cases found : router.stream.lookup opened.name with
      | none => exact fun _ _ _ => trivial
      | some entry =>
        have may : May plugin registered taken.trace (.ran .stream session entry.1 opened.name first.data) :=
          Or.inr proven
        have handled : Safe (contract plugin registered) (fun _ _ => True)
            (handleStream session entry ⟨recv, first, opened.metadata, opened.name⟩) taken := by
          apply ((note_safe may).with proven_stays proven).bind
          intro _ _ _ ⟨_, proven⟩
          exact sparing_safe (installed.streams opened.name entry found session _) proven
        apply handled.bind
        intro result _ _ _
        cases result <;> exact fun _ _ _ => trivial
  | _ => exact fun _ _ _ => trivial

theorem firstFrame_safe (id : UInt64) (recv : FrameIo) :
    Safe (contract plugin registered) (fun _ _ => True) (firstFrame id recv) world := by
  induction recv generalizing world with
  | nil => exact fun _ _ _ => trivial
  | cons result recv ih =>
    intro later grown inv
    refine ⟨inv, List.prefix_rfl, ?_⟩
    split
    · split
      · exact fun _ _ _ => trivial
      · exact ih
    · split
      · exact fun _ _ _ => trivial
      · exact ih
    · exact ih
    · exact fun _ _ _ => trivial
    · exact fun _ _ _ => trivial

/-- A transparent middleware is safe wherever what it calls is, if that does not
depend on more of the message than its kind and name. -/
theorem transparent_safe {admits : Message → World ω → Prop} {mw : Middleware ω} {callee : Callee ω} {msg : Message}
    (transparent : Transparent mw)
    (stays : ∀ msg state later, (contract plugin registered).grows state later → admits msg state → admits msg later)
    (alike : ∀ passed world, kindOf passed = kindOf msg → nameOf passed = nameOf msg →
      admits msg world → admits passed world)
    (called : ∀ msg world, (contract plugin registered).inv world → admits msg world →
      Safe (contract plugin registered) (fun _ _ => True) (callee msg) world)
    (inv : (contract plugin registered).inv world) (admitted : admits msg world) :
    Safe (contract plugin registered) (fun _ _ => True) (mw.around clock session callee msg) world := by
  refine Script.link_safe (stays msg) ?_ ?_ (transparent session msg) admitted inv
  · intro update world markless _ inv
    exact setApp_keeps inv (fun session => Or.inl (markless world.app session))
  · intro passed world same admitted inv
    exact called passed world inv (alike passed world same.1 same.2 admitted)

theorem isAuthEvent_alike {msg passed : Message} (kind : kindOf passed = kindOf msg)
    (name : nameOf passed = nameOf msg) (auth : isAuthEvent msg = true) : isAuthEvent passed = true := by
  cases msg with
  | event e =>
    cases passed with
    | event other =>
      have same : other.name = e.name := Option.some.inj name
      rw [isAuthEvent_event] at auth ⊢
      rw [same, auth]
    | _ => cases kind
  | _ => cases auth

theorem awaitAuth_safe {callee : Callee ω} {msg : Message} (rounds : Nat)
    (called : ∀ msg world, (contract plugin registered).inv world → Gate plugin registered session msg world →
      Safe (contract plugin registered) (fun _ _ => True) (callee msg) world) :
    Safe (contract plugin registered) (fun _ _ => True)
      ((awaitAuth session msg rounds).link World.app World.setApp clock callee) world := by
  induction rounds generalizing world with
  | zero => exact fun _ _ _ => trivial
  | succ rounds ih =>
    intro later _ inv
    refine ⟨inv, List.prefix_rfl, ?_⟩
    by_cases marked : (later.app.getBool session authKey).isSome = true
    · simp only [marked, if_true]
      apply (called msg _ inv (Or.inr (inv.1 session marked))).bind
      intro _ _ _ _
      exact fun _ _ _ => trivial
    · simp only [marked]
      exact ih

theorem authMiddleware_safe {callee : Callee ω} {msg : Message}
    (called : ∀ msg world, (contract plugin registered).inv world → Gate plugin registered session msg world →
      Safe (contract plugin registered) (fun _ _ => True) (callee msg) world)
    (inv : (contract plugin registered).inv world) :
    Safe (contract plugin registered) (fun _ _ => True)
      (authMiddleware.around clock session callee msg) world := by
  unfold Middleware.around authMiddleware
  by_cases auth : isAuthEvent msg = true
  · simp only [auth, if_true]
    apply (called msg world inv (Or.inl auth)).bind
    intro _ _ _ _
    exact fun _ _ _ => trivial
  · simp only [auth]
    exact awaitAuth_safe 11 called

theorem after_safe {chain : List (Middleware ω)} {terminal : Callee ω}
    (transparent : ∀ mw ∈ chain, Transparent mw)
    (ends : ∀ msg world, (contract plugin registered).inv world → Gate plugin registered session msg world →
      Safe (contract plugin registered) (fun _ _ => True) (terminal msg) world) :
    ∀ msg world, (contract plugin registered).inv world → Gate plugin registered session msg world →
      Safe (contract plugin registered) (fun _ _ => True) (onion clock session chain terminal msg) world := by
  induction chain with
  | nil => exact ends
  | cons mw chain ih =>
    intro msg world inv gate
    have rest := ih (fun other member => transparent other (List.mem_cons_of_mem _ member))
    rw [onion_cons]
    apply transparent_safe (transparent mw List.mem_cons_self) (fun _ => gate_stays) _ rest inv gate
    intro passed world kind name gate
    exact gate.imp (isAuthEvent_alike kind name) id

theorem before_safe {chain : List (Middleware ω)} {callee : Callee ω}
    (transparent : ∀ mw ∈ chain, Transparent mw)
    (called : ∀ msg world, (contract plugin registered).inv world →
      Safe (contract plugin registered) (fun _ _ => True) (callee msg) world) :
    ∀ msg world, (contract plugin registered).inv world →
      Safe (contract plugin registered) (fun _ _ => True) (onion clock session chain callee msg) world := by
  induction chain with
  | nil => exact called
  | cons mw chain ih =>
    intro msg world inv
    have rest := ih (fun other member => transparent other (List.mem_cons_of_mem _ member))
    rw [onion_cons]
    have stays : ∀ (_ : Message) (state later : World ω),
        (contract plugin registered).grows state later → True → True := fun _ _ _ _ => id
    exact transparent_safe (transparent mw List.mem_cons_self) stays (fun _ _ _ _ => id)
      (fun msg world inv _ => rest msg world inv) inv trivial

theorem runChain_safe (installed : Installed plugin registered router) {terminal : Callee ω} (msg : Message)
    (ends : ∀ msg world, (contract plugin registered).inv world → Gate plugin registered session msg world →
      Safe (contract plugin registered) (fun _ _ => True) (terminal msg) world)
    (inv : (contract plugin registered).inv world) :
    Safe (contract plugin registered) (fun _ _ => True) (runChain clock router session msg terminal) world := by
  obtain ⟨before, after, chain, first, last⟩ := installed.middleware
  have split : onion clock session (router.middlewares.map Prod.snd) terminal =
      onion clock session before (authMiddleware.around clock session (onion clock session after terminal)) := by
    rw [chain, onion, List.foldr_append]
    rfl
  rw [runChain_eq_onion, split]
  apply before_safe first _ msg world inv
  intro msg world inv
  exact authMiddleware_safe (after_safe last ends) inv

theorem dispatchEvent_safe (installed : Installed plugin registered router) (msg : EventMsg)
    (inv : (contract plugin registered).inv world) :
    Safe (contract plugin registered) (fun _ _ => True) (dispatchEvent clock router session msg) world := by
  apply (runChain_safe installed (.event msg) (fun _ _ _ => eventTerminal_safe installed) inv).bind
  intro _ _ _ _
  exact fun _ _ _ => trivial

theorem dispatch_safe (installed : Installed plugin registered router) (arrival : Arrival) (world : World ω)
    (inv : (contract plugin registered).inv world) :
    Safe (contract plugin registered) (fun _ _ => True) (dispatch clock router arrival) world := by
  cases arrival with
  | rpc session stream msg =>
    apply (runChain_safe installed (.request msg) (fun _ _ _ => rpcTerminal_safe installed) inv).bind
    intro result _ _ _
    exact fun _ _ inv => ⟨inv, List.prefix_rfl, fun _ _ _ => trivial⟩
  | event session msg => exact dispatchEvent_safe installed msg inv
  | stream session recv opened =>
    apply (firstFrame_safe opened.id recv).bind
    intro found read _ _
    cases found with
    | none => exact fun _ _ _ => trivial
    | some found =>
      have keeps : Safe (contract plugin registered) (fun _ _ => True) (keepReceiver found.2) read :=
        fun _ _ inv => ⟨inv, List.prefix_rfl, fun _ _ _ => trivial⟩
      apply keeps.bind
      intro slot _ inv _
      apply (runChain_safe installed (.streamOpen opened) (fun _ _ _ => streamTerminal_safe installed) inv).bind
      intro _ _ _ _
      exact fun _ _ _ => trivial
  | datagram session msg =>
    cases msg with
    | event e => exact dispatchEvent_safe installed e inv
    | _ => exact fun _ _ _ => trivial

/-- However the messages of all sessions interleave, before a session has brought
the token no handler is run for it but the listeners of the event that brings it. -/
theorem handlers_after_auth (installed : Installed plugin registered router) (clock : Clock ω)
    {init pool : Pool (World ω)} (idle : init.tasks = [])
    (unmarked : ∀ session, init.shared.app.getBool session authKey = none) (started : init.shared.trace = [])
    (reached : Reachable (move (dispatch clock router)) init pool) :
    Gated plugin registered pool.shared.trace := by
  have inv : (contract plugin registered).inv init.shared := by
    refine ⟨fun session marked => ?_, fun before mark after same => ?_⟩
    · rw [unmarked session] at marked
      cases marked
    · rw [started] at same
      exact absurd same.symm (List.append_ne_nil_of_right_ne_nil before (List.cons_ne_nil mark after))
  exact (pool_invariant (dispatch_safe installed) idle inv reached).2

/-- Installing the plugin gives a router it is installed on, if what was there
before leaves the marks alone as far as it has to. -/
theorem install_installed (plugin : AuthPlugin) (router : Router ω)
    (transparent : ∀ mw ∈ router.middlewares.map Prod.snd, Transparent mw)
    (others : ∀ entry ∈ router.listeners authEvent, entry.1 ≠ router.nextToken ∧
      ∀ session payload, (entry.2.handleEncoded session payload).Obeys Markless)
    (events : ∀ name entry, name ≠ authEvent → entry ∈ router.listeners name →
      ∀ session payload, (entry.2.handleEncoded session payload).Obeys (Sparing session))
    (rpcs : ∀ name entry, router.getRpc name = some entry →
      ∀ session payload, (entry.2.handleEncoded session payload).Obeys (Sparing session))
    (streams : ∀ name entry, router.stream.lookup name = some entry →
      ∀ session receiver, (entry.2.handle session receiver).Obeys (Sparing session)) :
    Installed plugin router.nextToken (plugin.install router) := by
  have own : (plugin.install router).listeners authEvent =
      router.listeners authEvent ++ [(router.nextToken, plugin.eventHandler)] := by
    change (AList.lookup authEvent (router.event.insert authEvent _)).getD [] = _
    rw [AList.lookup_insert]
    rfl
  have other : ∀ name, name ≠ authEvent → (plugin.install router).listeners name = router.listeners name := by
    intro name differ
    change (AList.lookup name (router.event.insert authEvent _)).getD [] = _
    rw [AList.lookup_insert_ne differ]
    rfl
  constructor
  · rw [own]
    exact List.mem_append_right _ (List.mem_singleton_self _)
  · refine ⟨router.middlewares.map Prod.snd, [], ?_, transparent, fun mw member => ?_⟩
    · exact List.map_append
    · cases member
  · intro entry member
    rw [own] at member
    rcases List.mem_append.mp member with before | added
    · exact Or.inr (others entry before)
    · exact Or.inl (List.mem_singleton.mp added)
  · intro name entry differ member
    rw [other name differ] at member
    exact events name entry differ member
  · exact rpcs
  · exact streams

private def secret : AuthPlugin := ⟨codecOf string, "secret"⟩

private def echoing : Router Unit := (Router.new.addRpc ⟨"echo", fun _ payload => pure (.ok payload)⟩).1

private def unmarkedWorld : World Unit := ⟨⟨fun _ _ => none, ()⟩, [], [], []⟩

private theorem echoing_rpc {name : String} {entry : Token × RpcHandler Unit}
    (found : echoing.getRpc name = some entry) (session : SessionId) (payload : Bytes) :
    (entry.2.handleEncoded session payload).Obeys (Sparing session) := by
  by_cases echo : name = "echo"
  · subst echo
    cases found
    trivial
  · have missing : echoing.getRpc name = none := by
      change AList.lookup name (AList.insert "echo" _ ∅) = none
      rw [AList.lookup_insert_ne echo]
      rfl
    rw [missing] at found
    cases found

private theorem echoing_installed : Installed secret 1 (secret.install echoing) := by
  apply install_installed secret echoing
  · intro mw member
    cases member
  · intro entry member
    cases member
  · intro name entry _ member
    cases member
  · intro name entry found session payload
    exact echoing_rpc found session payload
  · intro name entry found
    cases found

private def never : Clock Unit := fun _ _ => false

/-- The world after the messages have been dispatched one after the other. -/
private def visited (router : Router Unit) (arrivals : List Arrival) : World Unit :=
  arrivals.foldl (fun world arrival => ((dispatch never router arrival).eval world).2) unmarkedWorld

private theorem visited_reached (router : Router Unit) (arrivals : List Arrival) :
    ∃ pool, Reachable (move (dispatch never router)) ⟨unmarkedWorld, []⟩ pool ∧
      pool.shared = visited router arrivals := by
  obtain ⟨pool, reached, same, _⟩ := reachable_evals (Reachable.refl (move (dispatch never router)) ⟨unmarkedWorld, []⟩) arrivals
  exact ⟨pool, reached, same⟩

private def login (session : SessionId) (payload : Bytes) : Arrival := .event session ⟨0, authEvent, payload⟩

private def ask (session : SessionId) (name : String) : Arrival := .rpc session 0 ⟨7, name, [1]⟩

private def token : Bytes := [6, 115, 101, 99, 114, 101, 116]

theorem handlers_after_auth_echo :
    Gated secret 1 (visited (secret.install echoing) [login 1 token, ask 1 "echo"]).trace ∧
      .ran .rpc 1 0 "echo" [1] ∈ (visited (secret.install echoing) [login 1 token, ask 1 "echo"]).trace := by
  constructor
  · obtain ⟨pool, reached, same⟩ := visited_reached (secret.install echoing) [login 1 token, ask 1 "echo"]
    rw [← same]
    exact handlers_after_auth echoing_installed never rfl (fun _ => rfl) rfl reached
  · simp only [visited, List.foldl, login, ask, dispatch, dispatchEvent, dispatchRpc, runChain_eq_onion]
    decide

/-- Another listener of the plugin's event, which marks the session itself. -/
private def impostor : EventHandler Unit :=
  ⟨authEvent, fun session _ => .step (fun app => app.set session authKey (.bool true)) (fun _ => pure (.ok ()))⟩

private def unlocked : Router Unit := (secret.install echoing).addEvent impostor |>.1

/-- A handler that marks the session 1, for whichever session it is run. -/
private def sponsor : RpcHandler Unit :=
  ⟨"sponsor", fun _ _ => .step (fun app => app.set 1 authKey (.bool true)) (fun _ => pure (.ok []))⟩

private def sponsored : Router Unit := secret.install (echoing.addRpc sponsor).1

/-- A session that has not brought the token has its request handled if another
listener of the plugin's event marks the session, here after an empty payload, or
if a handler run for another session does. -/
theorem impostor_unlocks :
    ((1, secret.eventHandler) ∈ unlocked.listeners authEvent ∧
      unlocked.middlewares.map Prod.snd = [authMiddleware] ∧
      ∃ pool, Reachable (move (dispatch never unlocked)) ⟨unmarkedWorld, []⟩ pool ∧
        ¬ Gated secret 1 pool.shared.trace) ∧
    ((2, secret.eventHandler) ∈ sponsored.listeners authEvent ∧
      sponsored.middlewares.map Prod.snd = [authMiddleware] ∧
      ∃ pool, Reachable (move (dispatch never sponsored)) ⟨unmarkedWorld, []⟩ pool ∧
        ¬ Gated secret 2 pool.shared.trace) := by
  have listeners : unlocked.listeners authEvent = [(1, secret.eventHandler), (3, impostor)] := rfl
  have alone : sponsored.listeners authEvent = [(2, secret.eventHandler)] := rfl
  refine ⟨⟨?_, rfl, ?_⟩, ⟨?_, rfl, ?_⟩⟩
  · rw [listeners]
    exact List.mem_cons_self
  · obtain ⟨pool, reached, same⟩ := visited_reached unlocked [login 1 [], ask 1 "echo"]
    refine ⟨pool, reached, fun gated => ?_⟩
    have trace : pool.shared.trace =
        [.reached 1 (.event ⟨0, authEvent, []⟩), .ran .event 1 1 authEvent [], .ran .event 1 3 authEvent [],
          .reached 1 (.request ⟨7, "echo", [1]⟩)] ++ .ran .rpc 1 0 "echo" [1] :: [] := by
      rw [same]
      simp only [visited, List.foldl, login, ask, dispatch, dispatchEvent, dispatchRpc, runChain_eq_onion]
      decide
    rcases gated _ _ _ trace with ⟨kind, _⟩ | ⟨payload, member, decodes⟩
    · cases kind
    · have empty : payload = [] := by simpa using member
      rw [empty] at decodes
      cases decodes
  · rw [alone]
    exact List.mem_cons_self
  · obtain ⟨pool, reached, same⟩ := visited_reached sponsored [login 2 token, ask 2 "sponsor", ask 1 "echo"]
    refine ⟨pool, reached, fun gated => ?_⟩
    have trace : pool.shared.trace =
        [.reached 2 (.event ⟨0, authEvent, token⟩), .ran .event 2 2 authEvent token,
          .reached 2 (.request ⟨7, "sponsor", [1]⟩), .ran .rpc 2 1 "sponsor" [1],
          .reached 1 (.request ⟨7, "echo", [1]⟩)] ++ .ran .rpc 1 0 "echo" [1] :: [] := by
      rw [same]
      simp only [visited, List.foldl, login, ask, dispatch, dispatchEvent, dispatchRpc, runChain_eq_onion]
      decide
    rcases gated _ _ _ trace with ⟨kind, _⟩ | ⟨payload, member, _⟩
    · cases kind
    · simp at member

end EchoStream.Plugins.Auth
