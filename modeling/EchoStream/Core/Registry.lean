import EchoStream.Foundation.Registrations
import EchoStream.Core.StateMachine
import EchoStream.Core.Dispatch

/-! The registry of a router over a sequential history of registrations and removals. What
is registered follows from the history: under the name of an RPC or a stream the last
registration, of events and middlewares all of them, as far as they were not removed. -/

namespace EchoStream.Core.Registry
open Foundation.Tasks Foundation.Registrations
open Proto.Messages
open Handler Chain Dispatch
open StateMachine (retain mapValues anyValue lookup_insert_eq lookup_retain lookup_mapValues anyValue_iff)

variable {ω : Type}

/-- What can be registered. -/
inductive Entry (ω : Type) where
  | rpc (handler : RpcHandler ω)
  | event (handler : EventHandler ω)
  | stream (handler : StreamHandler ω)
  | middleware (mw : Middleware ω)

inductive Table where
  | rpc
  | event
  | stream
  | middleware
deriving DecidableEq, Repr

def add (router : Router ω) : Entry ω → Router ω × Token
  | .rpc handler => router.addRpc handler
  | .event handler => router.addEvent handler
  | .stream handler => router.addStream handler
  | .middleware mw => router.addMiddleware mw

def addEach (router : Router ω) : List (Entry ω) → Router ω × List Token
  | [] => (router, [])
  | entry :: entries =>
      let (router, token) := add router entry
      let (router, tokens) := addEach router entries
      (router, token :: tokens)

def addRpcs (router : Router ω) (handlers : List (RpcHandler ω)) : Router ω × List Token :=
  addEach router (handlers.map .rpc)

def addEvents (router : Router ω) (handlers : List (EventHandler ω)) : Router ω × List Token :=
  addEach router (handlers.map .event)

def addStreams (router : Router ω) (handlers : List (StreamHandler ω)) : Router ω × List Token :=
  addEach router (handlers.map .stream)

def removeRpc (router : Router ω) (token : Token) : Bool × Router ω :=
  (anyValue (fun entry => entry.1 = token) router.rpc,
    { router with rpc := retain (fun entry => entry.1 ≠ token) router.rpc })

def removeEvent (router : Router ω) (token : Token) : Bool × Router ω :=
  let left := mapValues (fun listeners => listeners.filter (fun entry => entry.1 ≠ token)) router.event
  (anyValue (fun listeners => listeners.any (fun entry => entry.1 = token)) router.event,
    { router with event := retain (fun listeners => !listeners.isEmpty) left })

def removeStream (router : Router ω) (token : Token) : Bool × Router ω :=
  (anyValue (fun entry => entry.1 = token) router.stream,
    { router with stream := retain (fun entry => entry.1 ≠ token) router.stream })

def removeMiddleware (router : Router ω) (token : Token) : Bool × Router ω :=
  (router.middlewares.any (fun entry => entry.1 = token),
    { router with middlewares := router.middlewares.filter (fun entry => entry.1 ≠ token) })

def remove (router : Router ω) (token : Token) : Table → Bool × Router ω
  | .rpc => removeRpc router token
  | .event => removeEvent router token
  | .stream => removeStream router token
  | .middleware => removeMiddleware router token

inductive Operation (ω : Type) where
  | add (entry : Entry ω)
  | addRpcs (handlers : List (RpcHandler ω))
  | addEvents (handlers : List (EventHandler ω))
  | addStreams (handlers : List (StreamHandler ω))
  | remove (table : Table) (token : Token)

inductive Returned where
  | tokens (tokens : List Token)
  | removed (found : Bool)

def perform (router : Router ω) : Operation ω → Returned × Router ω
  | .add entry =>
      let (router, token) := add router entry
      (.tokens [token], router)
  | .addRpcs handlers =>
      let (router, tokens) := addRpcs router handlers
      (.tokens tokens, router)
  | .addEvents handlers =>
      let (router, tokens) := addEvents router handlers
      (.tokens tokens, router)
  | .addStreams handlers =>
      let (router, tokens) := addStreams router handlers
      (.tokens tokens, router)
  | .remove table token =>
      let (found, router) := remove router token table
      (.removed found, router)

def performAll (router : Router ω) : List (Operation ω) → List (Operation ω × Returned) × Router ω
  | [] => ([], router)
  | operation :: operations =>
      let (returned, router) := perform router operation
      let (log, router) := performAll router operations
      ((operation, returned) :: log, router)

/-! What the history says. -/

inductive Happening (ω : Type) where
  | added (token : Token) (entry : Entry ω)
  | removed (table : Table) (token : Token)

def entriesOf : Operation ω → List (Entry ω)
  | .add entry => [entry]
  | .addRpcs handlers => handlers.map .rpc
  | .addEvents handlers => handlers.map .event
  | .addStreams handlers => handlers.map .stream
  | .remove _ _ => []

def tokensOf : Returned → List Token
  | .tokens tokens => tokens
  | .removed _ => []

def happened : Operation ω × Returned → List (Happening ω)
  | (.remove table token, _) => [.removed table token]
  | (operation, returned) => List.zipWith .added (tokensOf returned) (entriesOf operation)

def historyOf (log : List (Operation ω × Returned)) : List (Happening ω) := log.flatMap happened

def rpcAct : Happening ω → Option (Act Token String (RpcHandler ω))
  | .added token (.rpc handler) => some (.on token handler.name handler)
  | .removed .rpc token => some (.off token)
  | _ => none

def eventAct : Happening ω → Option (Act Token String (EventHandler ω))
  | .added token (.event handler) => some (.on token handler.name handler)
  | .removed .event token => some (.off token)
  | _ => none

def streamAct : Happening ω → Option (Act Token String (StreamHandler ω))
  | .added token (.stream handler) => some (.on token handler.name handler)
  | .removed .stream token => some (.off token)
  | _ => none

/-- Middlewares are not told apart by their names. -/
def middlewareAct : Happening ω → Option (Act Token Unit (Middleware ω))
  | .added token (.middleware mw) => some (.on token () mw)
  | .removed .middleware token => some (.off token)
  | _ => none

def rpcFor (history : List (Happening ω)) (name : String) : Option (Token × RpcHandler ω) :=
  current name (history.filterMap rpcAct)

def listenersFor (history : List (Happening ω)) (name : String) : List (Token × EventHandler ω) :=
  listed name (history.filterMap eventAct)

def streamFor (history : List (Happening ω)) (name : String) : Option (Token × StreamHandler ω) :=
  current name (history.filterMap streamAct)

def middlewaresFor (history : List (Happening ω)) : List (Token × Middleware ω) :=
  listed () (history.filterMap middlewareAct)

def Active (history : List (Happening ω)) (token : Token) : Table → Prop
  | .rpc => ∃ name handler, rpcFor history name = some (token, handler)
  | .event => ∃ name handler, (token, handler) ∈ listenersFor history name
  | .stream => ∃ name handler, streamFor history name = some (token, handler)
  | .middleware => ∃ mw, (token, mw) ∈ middlewaresFor history

/-- The registry is what the history says. -/
structure Mirrors (router : Router ω) (history : List (Happening ω)) : Prop where
  rpc : ∀ name, router.getRpc name = rpcFor history name
  event : ∀ name, router.event.lookup name = filled (listenersFor history name)
  stream : ∀ name, router.stream.lookup name = streamFor history name
  middlewares : router.middlewares = middlewaresFor history

variable {router : Router ω} {history : List (Happening ω)}

theorem Mirrors.listeners (mirrors : Mirrors router history) (name : String) :
    router.listeners name = listenersFor history name := by
  rw [Router.listeners, mirrors.event, filled_getD]

theorem new_mirrors : Mirrors (.new : Router ω) [] := ⟨fun _ => rfl, fun _ => rfl, fun _ => rfl, rfl⟩

section Tables

variable {happening : Happening ω}

theorem rpcFor_other (unrelated : rpcAct happening = none) (history : List (Happening ω)) (name : String) :
    rpcFor (history ++ [happening]) name = rpcFor history name := by
  rw [rpcFor, acts_none unrelated, rpcFor]

theorem listenersFor_other (unrelated : eventAct happening = none) (history : List (Happening ω)) (name : String) :
    listenersFor (history ++ [happening]) name = listenersFor history name := by
  rw [listenersFor, acts_none unrelated, listenersFor]

theorem streamFor_other (unrelated : streamAct happening = none) (history : List (Happening ω)) (name : String) :
    streamFor (history ++ [happening]) name = streamFor history name := by
  rw [streamFor, acts_none unrelated, streamFor]

theorem middlewaresFor_other (unrelated : middlewareAct happening = none) (history : List (Happening ω)) :
    middlewaresFor (history ++ [happening]) = middlewaresFor history := by
  rw [middlewaresFor, acts_none unrelated, middlewaresFor]

theorem rpcFor_added (history : List (Happening ω)) (token : Token) (handler : RpcHandler ω) (name : String) :
    rpcFor (history ++ [.added token (.rpc handler)]) name =
      if handler.name = name then some (token, handler) else rpcFor history name := by
  have acted : rpcAct (.added token (.rpc handler)) = some (.on token handler.name handler) := rfl
  rw [rpcFor, acts_some acted, current_on, rpcFor]

theorem rpcFor_removed (history : List (Happening ω)) (token : Token) (name : String) :
    rpcFor (history ++ [.removed .rpc token]) name = (rpcFor history name).filter (fun entry => entry.1 ≠ token) := by
  have acted : rpcAct (.removed .rpc token : Happening ω) = some (.off token) := rfl
  rw [rpcFor, acts_some acted, current_off, rpcFor]

theorem listenersFor_added (history : List (Happening ω)) (token : Token) (handler : EventHandler ω) (name : String) :
    listenersFor (history ++ [.added token (.event handler)]) name =
      listenersFor history name ++ if handler.name = name then [(token, handler)] else [] := by
  have acted : eventAct (.added token (.event handler)) = some (.on token handler.name handler) := rfl
  rw [listenersFor, acts_some acted, listed_on, listenersFor]

theorem listenersFor_removed (history : List (Happening ω)) (token : Token) (name : String) :
    listenersFor (history ++ [.removed .event token]) name =
      (listenersFor history name).filter (fun entry => entry.1 ≠ token) := by
  have acted : eventAct (.removed .event token : Happening ω) = some (.off token) := rfl
  rw [listenersFor, acts_some acted, listed_off, listenersFor]

theorem streamFor_added (history : List (Happening ω)) (token : Token) (handler : StreamHandler ω) (name : String) :
    streamFor (history ++ [.added token (.stream handler)]) name =
      if handler.name = name then some (token, handler) else streamFor history name := by
  have acted : streamAct (.added token (.stream handler)) = some (.on token handler.name handler) := rfl
  rw [streamFor, acts_some acted, current_on, streamFor]

theorem streamFor_removed (history : List (Happening ω)) (token : Token) (name : String) :
    streamFor (history ++ [.removed .stream token]) name =
      (streamFor history name).filter (fun entry => entry.1 ≠ token) := by
  have acted : streamAct (.removed .stream token : Happening ω) = some (.off token) := rfl
  rw [streamFor, acts_some acted, current_off, streamFor]

theorem middlewaresFor_added (history : List (Happening ω)) (token : Token) (mw : Middleware ω) :
    middlewaresFor (history ++ [.added token (.middleware mw)]) = middlewaresFor history ++ [(token, mw)] := by
  have acted : middlewareAct (.added token (.middleware mw)) = some (.on token () mw) := rfl
  rw [middlewaresFor, acts_some acted, listed_on, if_pos rfl, middlewaresFor]

theorem middlewaresFor_removed (history : List (Happening ω)) (token : Token) :
    middlewaresFor (history ++ [.removed .middleware token]) =
      (middlewaresFor history).filter (fun entry => entry.1 ≠ token) := by
  have acted : middlewareAct (.removed .middleware token : Happening ω) = some (.off token) := rfl
  rw [middlewaresFor, acts_some acted, listed_off, middlewaresFor]

/-! The tables that what happens is not about. -/

theorem Mirrors.rpc_still (mirrors : Mirrors router history) (unrelated : rpcAct happening = none) (name : String) :
    router.getRpc name = rpcFor (history ++ [happening]) name := by
  rw [rpcFor_other unrelated, mirrors.rpc]

theorem Mirrors.event_still (mirrors : Mirrors router history) (unrelated : eventAct happening = none) (name : String) :
    router.event.lookup name = filled (listenersFor (history ++ [happening]) name) := by
  rw [listenersFor_other unrelated, mirrors.event]

theorem Mirrors.stream_still (mirrors : Mirrors router history) (unrelated : streamAct happening = none) (name : String) :
    router.stream.lookup name = streamFor (history ++ [happening]) name := by
  rw [streamFor_other unrelated, mirrors.stream]

theorem Mirrors.middlewares_still (mirrors : Mirrors router history) (unrelated : middlewareAct happening = none) :
    router.middlewares = middlewaresFor (history ++ [happening]) := by
  rw [middlewaresFor_other unrelated, mirrors.middlewares]

end Tables

theorem add_mirrors (mirrors : Mirrors router history) (entry : Entry ω) :
    Mirrors (add router entry).1 (history ++ [.added (add router entry).2 entry]) := by
  cases entry with
  | rpc handler =>
    constructor
    · intro name
      rw [rpcFor_added, ← mirrors.rpc]
      exact lookup_insert_eq ..
    · exact mirrors.event_still rfl
    · exact mirrors.stream_still rfl
    · exact mirrors.middlewares_still rfl
  | event handler =>
    constructor
    · exact mirrors.rpc_still rfl
    · intro name
      rw [listenersFor_added]
      show (router.event.insert handler.name (router.listeners handler.name ++ [(router.nextToken, handler)])).lookup name = _
      rw [lookup_insert_eq, mirrors.listeners]
      by_cases same : handler.name = name
      · rw [if_pos same, if_pos same, filled_append, same]
        rfl
      · rw [if_neg same, if_neg same, List.append_nil, mirrors.event]
    · exact mirrors.stream_still rfl
    · exact mirrors.middlewares_still rfl
  | stream handler =>
    constructor
    · exact mirrors.rpc_still rfl
    · exact mirrors.event_still rfl
    · intro name
      rw [streamFor_added, ← mirrors.stream]
      exact lookup_insert_eq ..
    · exact mirrors.middlewares_still rfl
  | middleware mw =>
    constructor
    · exact mirrors.rpc_still rfl
    · exact mirrors.event_still rfl
    · exact mirrors.stream_still rfl
    · rw [middlewaresFor_added, ← mirrors.middlewares]
      rfl

theorem remove_mirrors (mirrors : Mirrors router history) (table : Table) (token : Token) :
    Mirrors (remove router token table).2 (history ++ [.removed table token]) := by
  cases table with
  | rpc =>
    constructor
    · intro name
      rw [rpcFor_removed, ← mirrors.rpc]
      exact lookup_retain ..
    · exact mirrors.event_still rfl
    · exact mirrors.stream_still rfl
    · exact mirrors.middlewares_still rfl
  | event =>
    constructor
    · exact mirrors.rpc_still rfl
    · intro name
      rw [listenersFor_removed, ← filled_filter, ← mirrors.event, ← lookup_mapValues]
      exact lookup_retain ..
    · exact mirrors.stream_still rfl
    · exact mirrors.middlewares_still rfl
  | stream =>
    constructor
    · exact mirrors.rpc_still rfl
    · exact mirrors.event_still rfl
    · intro name
      rw [streamFor_removed, ← mirrors.stream]
      exact lookup_retain ..
    · exact mirrors.middlewares_still rfl
  | middleware =>
    constructor
    · exact mirrors.rpc_still rfl
    · exact mirrors.event_still rfl
    · exact mirrors.stream_still rfl
    · rw [middlewaresFor_removed, ← mirrors.middlewares]
      rfl

def Holds (router : Router ω) (token : Token) : Table → Prop
  | .rpc => ∃ name handler, router.getRpc name = some (token, handler)
  | .event => ∃ name handler, (token, handler) ∈ router.listeners name
  | .stream => ∃ name handler, router.stream.lookup name = some (token, handler)
  | .middleware => ∃ mw, (token, mw) ∈ router.middlewares

theorem remove_holds (router : Router ω) (token : Token) (table : Table) :
    (remove router token table).1 = true ↔ Holds router token table := by
  cases table with
  | rpc =>
    simp only [remove, removeRpc, anyValue_iff, Holds, Router.getRpc, decide_eq_true_eq]
    constructor
    · rintro ⟨name, ⟨_, handler⟩, found, rfl⟩
      exact ⟨name, handler, found⟩
    · rintro ⟨name, handler, found⟩
      exact ⟨name, _, found, rfl⟩
  | event =>
    simp only [remove, removeEvent, anyValue_iff, Holds, Router.listeners, List.any_eq_true, decide_eq_true_eq]
    constructor
    · rintro ⟨name, entries, found, ⟨_, handler⟩, member, rfl⟩
      exact ⟨name, handler, by rwa [found]⟩
    · rintro ⟨name, handler, member⟩
      cases found : router.event.lookup name with
      | none =>
        rw [found] at member
        cases member
      | some entries =>
        rw [found] at member
        exact ⟨name, entries, found, _, member, rfl⟩
  | stream =>
    simp only [remove, removeStream, anyValue_iff, Holds, decide_eq_true_eq]
    constructor
    · rintro ⟨name, ⟨_, handler⟩, found, rfl⟩
      exact ⟨name, handler, found⟩
    · rintro ⟨name, handler, found⟩
      exact ⟨name, _, found, rfl⟩
  | middleware =>
    simp only [remove, removeMiddleware, Holds, List.any_eq_true, decide_eq_true_eq]
    constructor
    · rintro ⟨⟨_, mw⟩, member, rfl⟩
      exact ⟨mw, member⟩
    · rintro ⟨mw, member⟩
      exact ⟨_, member, rfl⟩

theorem Mirrors.holds (mirrors : Mirrors router history) (table : Table) (token : Token) :
    Holds router token table ↔ Active history token table := by
  cases table with
  | rpc => simp only [Holds, Active, mirrors.rpc]
  | event => simp only [Holds, Active, mirrors.listeners]
  | stream => simp only [Holds, Active, mirrors.stream]
  | middleware => simp only [Holds, Active, mirrors.middlewares]

theorem addEach_mirrors (mirrors : Mirrors router history) (entries : List (Entry ω)) :
    Mirrors (addEach router entries).1 (history ++ List.zipWith .added (addEach router entries).2 entries) := by
  induction entries generalizing router history with
  | nil =>
    rw [List.zipWith_nil_right, List.append_nil]
    exact mirrors
  | cons entry entries ih =>
    have more := ih (add_mirrors mirrors entry)
    rw [List.append_assoc] at more
    exact more

theorem perform_mirrors (mirrors : Mirrors router history) (operation : Operation ω) :
    Mirrors (perform router operation).2 (history ++ happened (operation, (perform router operation).1)) := by
  cases operation with
  | add entry => exact add_mirrors mirrors entry
  | addRpcs handlers => exact addEach_mirrors mirrors _
  | addEvents handlers => exact addEach_mirrors mirrors _
  | addStreams handlers => exact addEach_mirrors mirrors _
  | remove table token => exact remove_mirrors mirrors table token

theorem performAll_mirrors (mirrors : Mirrors router history) (operations : List (Operation ω)) :
    Mirrors (performAll router operations).2 (history ++ historyOf (performAll router operations).1) := by
  induction operations generalizing router history with
  | nil =>
    show Mirrors router (history ++ [])
    rw [List.append_nil]
    exact mirrors
  | cons operation operations ih =>
    have more := ih (perform_mirrors mirrors operation)
    rw [List.append_assoc] at more
    exact more

/-! Tokens. -/

theorem add_token (router : Router ω) (entry : Entry ω) :
    (add router entry).2 = router.nextToken ∧ (add router entry).1.nextToken = router.nextToken + 1 := by
  cases entry <;> exact ⟨rfl, rfl⟩

theorem addEach_tokens (router : Router ω) (entries : List (Entry ω)) :
    (addEach router entries).2 = numbered router.nextToken entries.length ∧
      (addEach router entries).1.nextToken = router.nextToken + UInt64.ofNat entries.length := by
  induction entries generalizing router with
  | nil => exact ⟨rfl, (UInt64.add_zero _).symm⟩
  | cons entry entries ih =>
    obtain ⟨token, next⟩ := add_token router entry
    obtain ⟨tokens, last⟩ := ih (add router entry).1
    rw [next] at tokens last
    constructor
    · rw [List.length_cons, numbered_succ, ← tokens, ← token]
      rfl
    · rw [List.length_cons, Nat.add_comm, UInt64.ofNat_add, ← UInt64.add_assoc]
      exact last

def registered (operations : List (Operation ω)) : Nat := (operations.flatMap entriesOf).length

def handed (log : List (Operation ω × Returned)) : List Token := log.flatMap (fun entry => tokensOf entry.2)

theorem perform_tokens (router : Router ω) (operation : Operation ω) :
    tokensOf (perform router operation).1 = numbered router.nextToken (entriesOf operation).length ∧
      (perform router operation).2.nextToken = router.nextToken + UInt64.ofNat (entriesOf operation).length := by
  cases operation with
  | add entry => exact addEach_tokens router [entry]
  | addRpcs handlers => exact addEach_tokens router _
  | addEvents handlers => exact addEach_tokens router _
  | addStreams handlers => exact addEach_tokens router _
  | remove table token =>
    refine ⟨rfl, ?_⟩
    show _ = router.nextToken + 0
    rw [UInt64.add_zero]
    cases table <;> rfl

theorem performAll_tokens (router : Router ω) (operations : List (Operation ω)) :
    handed (performAll router operations).1 = numbered router.nextToken (registered operations) := by
  induction operations generalizing router with
  | nil => rfl
  | cons operation operations ih =>
    obtain ⟨tokens, next⟩ := perform_tokens router operation
    have counted : registered (operation :: operations) = (entriesOf operation).length + registered operations := by
      rw [registered, List.flatMap_cons, List.length_append, registered]
    rw [counted, numbered_append, ← tokens, ← next, ← ih]
    rfl

/-! Events. -/

/-- What dispatching leaves for the message its chain ends with. -/
def marksOf (session : SessionId) (history : List (Happening ω)) : Message → List Mark
  | .event e =>
      .reached session (.event e) ::
        (listenersFor history e.name).map (fun entry => .ran .event session entry.1 e.name e.data)
  | msg => [.reached session msg]

theorem eventTerminal_trace (mirrors : Mirrors router history) (session : SessionId) (msg : Message) (world : World ω) :
    ((eventTerminal router session msg).eval world).2.trace = world.trace ++ marksOf session history msg := by
  cases msg with
  | event e =>
    rw [eventTerminal, Task.eval_bind, eval_note, Task.eval_bind, Task.eval_pure, handleEvent_trace, mirrors.listeners,
      World.note_trace, List.append_assoc]
    rfl
  | _ => rfl

def routerAfter (operations : List (Operation ω)) : Router ω := (performAll .new operations).2

def tokensAfter (operations : List (Operation ω)) : List Token := handed (performAll .new operations).1

def historyAfter (operations : List (Operation ω)) : List (Happening ω) := historyOf (performAll .new operations).1

/-- After any history the tokens handed out are all different, the registry is what the
history says, a removal is told that it found just what is still active, and an event
that the middlewares pass on runs the listeners then registered for its last name. -/
theorem registry_mirrors_history (operations : List (Operation ω)) (few : registered operations < 2 ^ 64) :
    (tokensAfter operations).Nodup ∧
    Mirrors (routerAfter operations) (historyAfter operations) ∧
    (∀ table token, (remove (routerAfter operations) token table).1 = true ↔ Active (historyAfter operations) token table) ∧
    (∀ session msg world, ((eventTerminal (routerAfter operations) session msg).eval world).2.trace =
      world.trace ++ marksOf session (historyAfter operations) msg) ∧
    ∀ clock session msg world,
      (∀ entry ∈ (routerAfter operations).middlewares, ∀ passed, (entry.2.handle session passed).Passes) →
      ∃ final, ((dispatchEvent clock (routerAfter operations) session msg).eval world).2.trace =
        world.trace ++ marksOf session (historyAfter operations) final := by
  have mirrors : Mirrors (routerAfter operations) (historyAfter operations) := performAll_mirrors new_mirrors operations
  have found : ∀ table token, (remove (routerAfter operations) token table).1 = true ↔ Active (historyAfter operations) token table :=
    fun table token => (remove_holds (routerAfter operations) token table).trans (mirrors.holds table token)
  refine ⟨?_, mirrors, found, eventTerminal_trace mirrors, ?_⟩
  · rw [tokensAfter, performAll_tokens]
    exact numbered_nodup _ (Nat.le_of_lt few)
  · intro clock session msg world passing
    have all : ∀ mw ∈ (routerAfter operations).middlewares.map Prod.snd, ∀ passed, (mw.handle session passed).Passes :=
      List.forall_mem_map.2 passing
    obtain ⟨final, app, last, same⟩ : ∃ final app last,
        ((onion clock session ((routerAfter operations).middlewares.map Prod.snd) (eventTerminal (routerAfter operations) session)
          (.event msg)).eval world).2 =
        (((eventTerminal (routerAfter operations) session final).eval (world.setApp app)).2).setApp last :=
      onion_passes _ all _ world
    refine ⟨final, ?_⟩
    rw [dispatchEvent, Task.eval_bind, runChain_eq_onion, same, Task.eval_pure, World.setApp_trace, eventTerminal_trace mirrors,
      World.setApp_trace]

private def refusing : EventHandler Unit := ⟨"tick", fun _ _ => pure (.error (.rpc 4 "no"))⟩

private def silent : EventHandler Unit := ⟨"tick", fun _ _ => pure (.ok ())⟩

private def rewording : Middleware Unit := ⟨"rewording", fun _ _ => .call (.event ⟨1, "tick", []⟩) .done⟩

/-- The first of three listeners is removed, the second one fails. -/
private def registering : List (Operation Unit) :=
  [.addEvents [silent, refusing, silent], .add (.middleware rewording), .remove .event 0]

private def idle : World Unit := ⟨⟨fun _ _ => none, ()⟩, [], [], []⟩

theorem registry_mirrors_history_registering :
    (tokensAfter registering).Nodup ∧ (remove (routerAfter registering) 1 .event).1 = true ∧
      ∃ final, ((dispatchEvent (fun _ _ => false) (routerAfter registering) 7 ⟨1, "tock", []⟩).eval idle).2.trace =
        marksOf 7 (historyAfter registering) final := by
  have few : registered registering < 2 ^ 64 := by decide
  obtain ⟨distinct, -, found, -, dispatched⟩ := registry_mirrors_history registering few
  have listening : listenersFor (historyAfter registering) "tick" = [(1, refusing), (2, silent)] := rfl
  refine ⟨distinct, (found .event 1).2 ⟨"tick", refusing, ?_⟩, dispatched _ _ _ _ ?_⟩
  · rw [listening]
    exact List.mem_cons_self
  · intro entry member passed
    rcases List.mem_singleton.1 member with rfl
    exact fun _ => trivial

end EchoStream.Core.Registry
