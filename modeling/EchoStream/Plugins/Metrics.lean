import EchoStream.Core.Connection

/-! The metrics plugin. Its middleware counts what goes through the chain, in front of
whatever else there is: calls and failures under the name of the method, events, and
messages that are frames of a stream. A stream goes through the chain with the message
that opens it, so the last count stays where it was. The counters are `u64` in the source
and any numbers here, so nothing is said of counts and times of 2^64 and more. -/

namespace EchoStream.Plugins.Metrics
open Foundation.Tasks
open Proto.Messages Proto.Postcard
open Core.Handler Core.Chain Core.Dispatch Core.Connection

structure RpcStats where
  calls : Nat
  errors : Nat
  latencyUsSum : Nat
deriving DecidableEq

structure MetricsRegistry where
  rpc : AList (fun _ : String => RpcStats)
  eventsTotal : Nat
  streamsTotal : Nat
  connectsTotal : Nat
  disconnectsTotal : Nat

structure MetricsSnapshot where
  rpc : List (String × RpcStats)
  eventsTotal : Nat
  streamsTotal : Nat
  connectsTotal : Nat
  disconnectsTotal : Nat
  activeSessions : Nat

namespace MetricsRegistry

def new : MetricsRegistry := ⟨∅, 0, 0, 0, 0⟩

def snapshot (registry : MetricsRegistry) (activeSessions : Nat) : MetricsSnapshot where
  rpc := (registry.rpc.entries.map (fun entry => (entry.1, entry.2))).mergeSort (fun a b => a.1 ≤ b.1)
  eventsTotal := registry.eventsTotal
  streamsTotal := registry.streamsTotal
  connectsTotal := registry.connectsTotal
  disconnectsTotal := registry.disconnectsTotal
  activeSessions

theorem mem_snapshot (registry : MetricsRegistry) (activeSessions : Nat) (name : String) (stats : RpcStats) :
    (name, stats) ∈ (registry.snapshot activeSessions).rpc ↔ registry.rpc.lookup name = some stats := by
  rw [snapshot, List.mem_mergeSort, ← Option.mem_def, AList.mem_lookup_iff, List.mem_map]
  constructor
  · rintro ⟨⟨other, there⟩, member, same⟩
    cases same
    exact member
  · intro member
    exact ⟨⟨name, stats⟩, member, rfl⟩

def call (registry : MetricsRegistry) (name : String) (elapsed : Nat) (failed : Bool) : MetricsRegistry :=
  let stat := (registry.rpc.lookup name).getD ⟨0, 0, 0⟩
  { registry with
    rpc := registry.rpc.insert name
      ⟨stat.calls + 1, if failed then stat.errors + 1 else stat.errors, stat.latencyUsSum + elapsed⟩ }

def callsOf (registry : MetricsRegistry) (name : String) : Nat := ((registry.rpc.lookup name).getD ⟨0, 0, 0⟩).calls

def errorsOf (registry : MetricsRegistry) (name : String) : Nat := ((registry.rpc.lookup name).getD ⟨0, 0, 0⟩).errors

/-- A name is there only once there was a call. -/
def Tight (registry : MetricsRegistry) : Prop := ∀ name stats, registry.rpc.lookup name = some stats → stats.calls ≠ 0

variable (registry : MetricsRegistry)

theorem lookup_call (name : String) (elapsed : Nat) (failed : Bool) (other : String) :
    (registry.call name elapsed failed).rpc.lookup other =
      if other = name then
        let stat := (registry.rpc.lookup name).getD ⟨0, 0, 0⟩
        some ⟨stat.calls + 1, if failed then stat.errors + 1 else stat.errors, stat.latencyUsSum + elapsed⟩
      else registry.rpc.lookup other := by
  rw [call]
  by_cases same : other = name
  · rw [if_pos same, same]
    exact AList.lookup_insert _
  · rw [if_neg same]
    exact AList.lookup_insert_ne same

theorem callsOf_call (name : String) (elapsed : Nat) (failed : Bool) (other : String) :
    (registry.call name elapsed failed).callsOf other = registry.callsOf other + if other = name then 1 else 0 := by
  rw [callsOf, lookup_call]
  by_cases same : other = name
  · rw [if_pos same, if_pos same, same]
    rfl
  · rw [if_neg same, if_neg same]
    rfl

theorem errorsOf_call (name : String) (elapsed : Nat) (failed : Bool) (other : String) :
    (registry.call name elapsed failed).errorsOf other =
      registry.errorsOf other + if other = name ∧ failed = true then 1 else 0 := by
  rw [errorsOf, lookup_call]
  by_cases same : other = name
  · rw [if_pos same, same]
    cases failed with
    | false =>
      rw [if_neg (fun both => Bool.noConfusion both.2)]
      rfl
    | true =>
      rw [if_pos ⟨rfl, rfl⟩]
      rfl
  · rw [if_neg same, if_neg (fun both => same both.1)]
    rfl

theorem call_tight {registry : MetricsRegistry} (tight : registry.Tight) (name : String) (elapsed : Nat) (failed : Bool) :
    (registry.call name elapsed failed).Tight := by
  intro other stats there
  rw [lookup_call] at there
  split at there
  · cases there
    exact Nat.succ_ne_zero _
  · exact tight other stats there

theorem lookup_iff {registry : MetricsRegistry} (tight : registry.Tight) (name : String) (calls errors : Nat) :
    (∃ latency, registry.rpc.lookup name = some ⟨calls, errors, latency⟩) ↔
      calls = registry.callsOf name ∧ errors = registry.errorsOf name ∧ calls ≠ 0 := by
  rw [callsOf, errorsOf]
  constructor
  · rintro ⟨latency, there⟩
    rw [there]
    exact ⟨rfl, rfl, tight name _ there⟩
  · rintro ⟨rfl, rfl, some⟩
    cases there : registry.rpc.lookup name with
    | none =>
      rw [there] at some
      exact absurd rfl some
    | some stats => exact ⟨stats.latencyUsSum, rfl⟩

end MetricsRegistry

structure Metered (ρ : Type) where
  registry : MetricsRegistry
  rest : ρ

variable {ρ : Type}

def isErr : Outcome → Bool
  | .error _ => true
  | .ok _ => false

/-- What is recorded of a message once the rest of the chain has returned. -/
def record (msg : Message) (elapsed : Nat) (result : Outcome) (registry : MetricsRegistry) : MetricsRegistry :=
  match msg with
  | .request r => registry.call r.name elapsed (isErr result)
  | .event _ => { registry with eventsTotal := registry.eventsTotal + 1 }
  | .stream _ => { registry with streamsTotal := registry.streamsTotal + 1 }
  | _ => registry

def setRegistry (update : MetricsRegistry → MetricsRegistry) (app : App (Metered ρ)) : App (Metered ρ) :=
  { app with rest := { app.rest with registry := update app.rest.registry } }

/-- `micros` is the clock the middleware reads. -/
def metricsMiddleware (micros : App (Metered ρ) → Nat) : Middleware (Metered ρ) where
  name := "metrics"
  handle _ msg :=
    .step id (fun start => .call msg (fun result =>
      .step (fun app => setRegistry (record msg (micros app - micros start) result) app) (fun _ => .done result)))

def metricsRpc (rpcName : String) (request : Codec Unit) (response : Codec MetricsSnapshot)
    (sessions : App (Metered ρ) → Nat) : RpcHandler (Metered ρ) :=
  .typed rpcName request response (fun _ _ => .read (fun app => .ok (app.rest.registry.snapshot (sessions app))))

def install (micros : App (Metered ρ) → Nat) (rpcName : String) (request : Codec Unit) (response : Codec MetricsSnapshot)
    (sessions : App (Metered ρ) → Nat) (router : Router (Metered ρ)) : Router (Metered ρ) :=
  ((router.addMiddleware (metricsMiddleware micros)).1.addRpc (metricsRpc rpcName request response sessions)).1

/-- The registry is the plugin's own, so that no one else changes it. -/
def Spares (update : App (Metered ρ) → App (Metered ρ)) : Prop := ∀ app, (update app).rest.registry = app.rest.registry

/-- The metrics middleware is the outermost one, and nothing else touches the registry. -/
structure Outermost (micros : App (Metered ρ) → Nat) (router : Router (Metered ρ)) (inner : List (Middleware (Metered ρ))) :
    Prop where
  middlewares : router.middlewares.map Prod.snd = metricsMiddleware micros :: inner
  others : ∀ mw ∈ inner, ∀ session msg, (mw.handle session msg).Obeys (fun _ => True) Spares
  rpcs : ∀ name entry, router.getRpc name = some entry → ∀ session payload, (entry.2.handleEncoded session payload).Obeys Spares
  events : ∀ name, ∀ entry ∈ router.listeners name, ∀ session payload, (entry.2.handleEncoded session payload).Obeys Spares
  streams : ∀ name entry, router.stream.lookup name = some entry → ∀ session given, (entry.2.handle session given).Obeys Spares

def isRequest (name : String) : Arrival → Bool
  | .rpc _ _ msg => msg.name == name
  | _ => false

def isEvent : Arrival → Bool
  | .event _ _ => true
  | .datagram _ (.event _) => true
  | _ => false

def isStream : Arrival → Bool
  | .stream _ recv opened => (firstData opened.id recv).isSome
  | _ => false

theorem install_outermost (micros : App (Metered ρ) → Nat) (rpcName : String) (request : Codec Unit)
    (response : Codec MetricsSnapshot) (sessions : App (Metered ρ) → Nat) {router : Router (Metered ρ)}
    (first : router.middlewares = [])
    (rpcs : ∀ name entry, router.getRpc name = some entry → ∀ session payload, (entry.2.handleEncoded session payload).Obeys Spares)
    (events : ∀ name, ∀ entry ∈ router.listeners name, ∀ session payload, (entry.2.handleEncoded session payload).Obeys Spares)
    (streams : ∀ name entry, router.stream.lookup name = some entry → ∀ session given, (entry.2.handle session given).Obeys Spares) :
    Outermost micros (install micros rpcName request response sessions router) [] where
  middlewares := by
    simp only [install, Router.addRpc, Router.addMiddleware, first]
    rfl
  others := fun mw member => by cases member
  rpcs name entry found session payload := by
    change ((router.rpc.insert rpcName _).lookup name) = some entry at found
    by_cases same : name = rpcName
    · rw [same, AList.lookup_insert] at found
      cases found
      simp only [metricsRpc, RpcHandler.typed]
      cases decode request payload with
      | error e => trivial
      | ok req => exact ⟨fun _ => rfl, fun _ => trivial⟩
    · rw [AList.lookup_insert_ne same] at found
      exact rpcs name entry found session payload
  events := events
  streams := streams

section Counting

variable {micros : App (Metered ρ) → Nat} {router : Router (Metered ρ)} {inner : List (Middleware (Metered ρ))}
variable {clock : Clock (Metered ρ)}

def Spared (update : World (Metered ρ) → World (Metered ρ)) : Prop :=
  ∀ world, (update world).app.rest.registry = world.app.rest.registry

theorem note_spares (mark : Mark) : (note mark : Task (World (Metered ρ)) Unit).Obeys Spared :=
  ⟨fun _ => rfl, fun _ => trivial⟩

theorem onApp_spares {α : Type} {task : Task (App (Metered ρ)) α} (obeys : task.Obeys Spares) : (onApp task).Obeys Spared :=
  obeys.zoom (fun _ keeps world => keeps world.app)

theorem rpcTerminal_spares (outermost : Outermost micros router inner) (session : SessionId) (msg : Message) :
    (rpcTerminal router session msg).Obeys Spared := by
  apply Task.Obeys.bind (note_spares _)
  intro _
  cases msg with
  | request m =>
    apply Task.Obeys.bind
    · unfold callRpc
      cases found : router.getRpc m.name with
      | none => trivial
      | some entry =>
        exact Task.Obeys.bind (note_spares _) (fun _ => onApp_spares (outermost.rpcs m.name entry found session m.data))
    · intro result
      cases result <;> trivial
  | _ => trivial

theorem handleEvent_spares {entries : List (Token × EventHandler (Metered ρ))} (session : SessionId) (event : EventMsg)
    (all : ∀ entry ∈ entries, ∀ session payload, (entry.2.handleEncoded session payload).Obeys Spares) :
    (handleEvent session event entries).Obeys Spared := by
  induction entries with
  | nil => trivial
  | cons entry rest ih =>
    apply Task.Obeys.bind (note_spares _)
    intro _
    apply Task.Obeys.bind (onApp_spares (all entry (List.mem_cons_self ..) session event.data))
    exact fun _ => ih (fun other member => all other (List.mem_cons_of_mem _ member))

theorem eventTerminal_spares (outermost : Outermost micros router inner) (session : SessionId) (msg : Message) :
    (eventTerminal router session msg).Obeys Spared := by
  apply Task.Obeys.bind (note_spares _)
  intro _
  cases msg with
  | event e =>
    apply Task.Obeys.bind (handleEvent_spares session e (outermost.events e.name))
    exact fun _ => trivial
  | _ => trivial

theorem streamTerminal_spares (outermost : Outermost micros router inner) (session : SessionId) (slot : Nat)
    (first : StreamMsg) (msg : Message) : (streamTerminal router session slot first msg).Obeys Spared := by
  apply Task.Obeys.bind (note_spares _)
  intro _
  cases msg with
  | streamOpen opened =>
    have takes : (takeReceiver slot : Task (World (Metered ρ)) (Option FrameIo)).Obeys Spared :=
      ⟨fun _ => rfl, fun _ => trivial⟩
    apply Task.Obeys.bind takes
    intro taken
    cases taken with
    | none => trivial
    | some recv =>
      cases found : router.stream.lookup opened.name with
      | none => trivial
      | some entry =>
        apply Task.Obeys.bind
        · apply Task.Obeys.bind (note_spares _)
          exact fun _ => onApp_spares (outermost.streams opened.name entry found session _)
        · intro result
          cases result <;> trivial
  | _ => trivial

/-- The rest of the chain leaves the registry alone, and the middleware then records the message. -/
theorem chain_registry (clock : Clock (Metered ρ)) (outermost : Outermost micros router inner) (session : SessionId)
    {terminal : Callee (Metered ρ)}
    (ends : ∀ msg, (terminal msg).Obeys Spared) (msg : Message) (world : World (Metered ρ)) :
    ∃ elapsed, ((runChain clock router session msg terminal).eval world).2.app.rest.registry =
      record msg elapsed ((onion clock session inner terminal msg).eval world).1 world.app.rest.registry := by
  have inside : (onion clock session inner terminal msg).Obeys Spared := by
    refine onion_keeps (fun update keeps (world : World (Metered ρ)) => keeps world.app) ?_ ends
      (fun mw member => outermost.others mw member session) msg
    intro limit update keeps world
    change (if clock limit world = true then world else update world).app.rest.registry = _
    split
    · rfl
    · exact keeps world
  have kept := @Task.Obeys.eval_keeps _ _ _ (fun world : World (Metered ρ) => world.app.rest.registry) _ inside world
  refine ⟨micros ((onion clock session inner terminal msg).eval world).2.app - micros world.app, ?_⟩
  rw [runChain_eq_onion, outermost.middlewares, onion_cons, ← kept]
  simp only [Middleware.around, metricsMiddleware, Script.link, Task.eval_step, Task.eval_bind, Task.eval_done, id, World.setApp_self]
  rfl

/-- The inner chain of a request returns an error. -/
def failsInside (clock : Clock (Metered ρ)) (router : Router (Metered ρ)) (inner : List (Middleware (Metered ρ)))
    (world : World (Metered ρ)) : Arrival → Bool
  | .rpc session _ msg => isErr ((onion clock session inner (rpcTerminal router session) (.request msg)).eval world).1
  | _ => false

theorem dispatchRpc_registry (clock : Clock (Metered ρ)) (outermost : Outermost micros router inner) (session : SessionId)
    (stream : Nat)
    (msg : RequestMsg) (world : World (Metered ρ)) :
    ∃ elapsed, ((dispatchRpc clock router session stream msg).eval world).2.app.rest.registry =
      world.app.rest.registry.call msg.name elapsed (failsInside clock router inner world (.rpc session stream msg)) := by
  obtain ⟨elapsed, kept⟩ := chain_registry clock outermost session (rpcTerminal_spares outermost session) (.request msg) world
  refine ⟨elapsed, ?_⟩
  rw [dispatchRpc, Task.eval_bind]
  exact kept

theorem dispatchEvent_registry (outermost : Outermost micros router inner) (session : SessionId) (msg : EventMsg)
    (world : World (Metered ρ)) :
    ((dispatchEvent clock router session msg).eval world).2.app.rest.registry =
      { world.app.rest.registry with eventsTotal := world.app.rest.registry.eventsTotal + 1 } := by
  obtain ⟨elapsed, kept⟩ := chain_registry clock outermost session (eventTerminal_spares outermost session) (.event msg) world
  rw [dispatchEvent, Task.eval_bind]
  exact kept

/-- A stream goes through the chain with a message that is not counted. -/
theorem dispatchStream_registry (outermost : Outermost micros router inner) (session : SessionId) (recv : FrameIo)
    (opened : StreamOpenMsg) (world : World (Metered ρ)) :
    ((dispatchStream clock router session recv opened).eval world).2.app.rest.registry = world.app.rest.registry := by
  rw [dispatchStream, Task.eval_bind, firstFrame_eval]
  cases firstData opened.id recv with
  | none => rfl
  | some found =>
    obtain ⟨first, rest⟩ := found
    obtain ⟨elapsed, kept⟩ := chain_registry clock outermost session
      (streamTerminal_spares outermost session world.receivers.length first) (.streamOpen opened)
      { world with receivers := world.receivers ++ [some rest] }
    simp only [Task.eval_bind]
    exact kept

/-- What one dispatch does to the counts. -/
structure Counted (before after : MetricsRegistry) (arrival : Arrival) (failed : Bool) : Prop where
  calls : ∀ name, after.callsOf name = before.callsOf name + if isRequest name arrival then 1 else 0
  errors : ∀ name, after.errorsOf name = before.errorsOf name + if isRequest name arrival ∧ failed = true then 1 else 0
  events : after.eventsTotal = before.eventsTotal + if isEvent arrival then 1 else 0
  streams : after.streamsTotal = before.streamsTotal
  tight : before.Tight → after.Tight

theorem counted_same {registry : MetricsRegistry} {arrival : Arrival} {failed : Bool}
    (request : ∀ name, isRequest name arrival = false) (event : isEvent arrival = false) :
    Counted registry registry arrival failed where
  calls name := by rw [request name]; rfl
  errors name := by rw [request name]; rfl
  events := by rw [event]; rfl
  streams := rfl
  tight := id

theorem counted_event {registry : MetricsRegistry} {arrival : Arrival} {failed : Bool}
    (request : ∀ name, isRequest name arrival = false) (event : isEvent arrival = true) :
    Counted registry { registry with eventsTotal := registry.eventsTotal + 1 } arrival failed where
  calls name := by rw [request name]; rfl
  errors name := by rw [request name]; rfl
  events := by rw [event]; rfl
  streams := rfl
  tight := id

theorem dispatch_counted (clock : Clock (Metered ρ)) (outermost : Outermost micros router inner) (arrival : Arrival) (world : World (Metered ρ)) :
    Counted world.app.rest.registry ((dispatch clock router arrival).eval world).2.app.rest.registry arrival
      (failsInside clock router inner world arrival) := by
  cases arrival with
  | rpc session stream msg =>
    obtain ⟨elapsed, kept⟩ := dispatchRpc_registry clock outermost session stream msg world
    rw [dispatch, kept]
    have named : ∀ name, (isRequest name (.rpc session stream msg) = true) = (name = msg.name) := by
      intro name
      rw [isRequest, beq_iff_eq]
      exact propext eq_comm
    refine ⟨fun name => ?_, fun name => ?_, rfl, rfl, fun tight => MetricsRegistry.call_tight tight _ _ _⟩
    · rw [MetricsRegistry.callsOf_call]
      simp only [named]
    · rw [MetricsRegistry.errorsOf_call]
      simp only [named]
  | event session msg =>
    rw [dispatch, dispatchEvent_registry outermost]
    exact counted_event (fun _ => rfl) rfl
  | stream session recv opened =>
    rw [dispatch, dispatchStream_registry outermost]
    exact counted_same (fun _ => rfl) rfl
  | datagram session msg =>
    cases msg with
    | event e =>
      rw [dispatch, dispatchInboundDatagram, dispatchEvent_registry outermost]
      exact counted_event (fun _ => rfl) rfl
    | _ => exact counted_same (fun _ => rfl) rfl

/-- How many of the requests with the name the inner chain fails, as they are dispatched
one after the other. -/
def failures (clock : Clock (Metered ρ)) (router : Router (Metered ρ)) (inner : List (Middleware (Metered ρ))) (name : String) :
    List Arrival → World (Metered ρ) → Nat
  | [], _ => 0
  | arrival :: rest, world =>
      (if isRequest name arrival ∧ failsInside clock router inner world arrival = true then 1 else 0) +
        failures clock router inner name rest ((dispatch clock router arrival).eval world).2

/-- What a run of dispatches does to the counts. -/
structure Tallied (before after : MetricsRegistry) (arrivals : List Arrival) (failed : String → Nat) : Prop where
  calls : ∀ name, after.callsOf name = before.callsOf name + arrivals.countP (isRequest name)
  errors : ∀ name, after.errorsOf name = before.errorsOf name + failed name
  events : after.eventsTotal = before.eventsTotal + arrivals.countP isEvent
  streams : after.streamsTotal = before.streamsTotal
  tight : before.Tight → after.Tight

theorem dispatchAll_tallied (clock : Clock (Metered ρ)) (outermost : Outermost micros router inner) (arrivals : List Arrival)
    (world : World (Metered ρ)) :
    Tallied world.app.rest.registry ((dispatchAll clock router arrivals).eval world).2.app.rest.registry arrivals
      (fun name => failures clock router inner name arrivals world) := by
  induction arrivals generalizing world with
  | nil => exact ⟨fun _ => rfl, fun _ => rfl, rfl, rfl, id⟩
  | cons arrival rest ih =>
    have first := dispatch_counted clock outermost arrival world
    have more := ih ((dispatch clock router arrival).eval world).2
    rw [dispatchAll, Task.eval_bind]
    constructor
    · intro name
      rw [more.calls, first.calls, List.countP_cons, Nat.add_assoc, Nat.add_comm (ite ..)]
    · intro name
      rw [more.errors, first.errors, failures, Nat.add_assoc]
    · rw [more.events, first.events, List.countP_cons, Nat.add_assoc, Nat.add_comm (ite ..)]
    · rw [more.streams, first.streams]
    · exact fun tight => more.tight (first.tight tight)

/-- From an empty registry the snapshot tells of every method, and of events, what was
dispatched; of streams it does just when none was. -/
theorem snapshot_counts_iff (clock : Clock (Metered ρ)) (outermost : Outermost micros router inner) (arrivals : List Arrival)
    (world : World (Metered ρ)) (fresh : world.app.rest.registry = .new) (activeSessions : Nat) :
    let snapshot := ((dispatchAll clock router arrivals).eval world).2.app.rest.registry.snapshot activeSessions
    ((∀ name calls errors, (∃ latency, (name, ⟨calls, errors, latency⟩) ∈ snapshot.rpc) ↔
        calls = arrivals.countP (isRequest name) ∧ errors = failures clock router inner name arrivals world ∧ calls ≠ 0) ∧
      snapshot.eventsTotal = arrivals.countP isEvent ∧ snapshot.streamsTotal = arrivals.countP isStream) ↔
        ∀ arrival ∈ arrivals, isStream arrival = false := by
  intro snapshot
  have tallied := dispatchAll_tallied clock outermost arrivals world
  rw [fresh] at tallied
  have tight : MetricsRegistry.new.Tight := fun name stats there => by cases there
  have streams : snapshot.streamsTotal = 0 := tallied.streams
  have none : arrivals.countP isStream = 0 ↔ ∀ arrival ∈ arrivals, isStream arrival = false := by
    rw [List.countP_eq_zero]
    simp only [Bool.not_eq_true]
  rw [streams, ← none]
  constructor
  · exact fun all => all.2.2.symm
  · intro zero
    refine ⟨fun name calls errors => ?_, ?_, zero.symm⟩
    · simp only [snapshot, MetricsRegistry.mem_snapshot]
      rw [MetricsRegistry.lookup_iff (tallied.tight tight), tallied.calls, tallied.errors]
      have calls_none : MetricsRegistry.new.callsOf name = 0 := rfl
      have errors_none : MetricsRegistry.new.errorsOf name = 0 := rfl
      rw [calls_none, errors_none, Nat.zero_add, Nat.zero_add]
    · exact tallied.events.trans (Nat.zero_add _)

end Counting

private def none : Codec Unit := ⟨fun _ => .ok [], fun _ => .ok ()⟩

private def unread : Codec MetricsSnapshot := ⟨fun _ => .ok [], fun _ => .error ""⟩

private def metered : Router (Metered Unit) :=
  install (fun _ => 0) "metrics.snapshot" none unread (fun _ => 1)
    ((Router.new.addRpc ⟨"echo", fun _ payload => pure (.ok payload)⟩).1.addStream ⟨"a", fun _ _ => pure (.ok ())⟩).1

private def idle : World (Metered Unit) := ⟨⟨fun _ _ => .none, ⟨.new, ()⟩⟩, [], [], []⟩

private theorem metered_outermost : Outermost (fun _ => 0) metered [] := by
  refine install_outermost (fun _ => 0) "metrics.snapshot" none unread (fun _ => 1) rfl ?_ ?_ ?_
  · intro name entry found
    change ((∅ : AList (fun _ : String => Token × RpcHandler (Metered Unit))).insert "echo" _).lookup name = some entry at found
    by_cases same : name = "echo"
    · rw [same, AList.lookup_insert] at found
      cases found
      exact fun _ _ => trivial
    · rw [AList.lookup_insert_ne same] at found
      cases found
  · intro name entry member
    cases member
  · intro name entry found
    change ((∅ : AList (fun _ : String => Token × StreamHandler (Metered Unit))).insert "a" _).lookup name = some entry at found
    by_cases same : name = "a"
    · rw [same, AList.lookup_insert] at found
      cases found
      exact fun _ _ => trivial
    · rw [AList.lookup_insert_ne same] at found
      cases found

private def after (arrivals : List Arrival) : MetricsSnapshot :=
  ((dispatchAll (fun _ _ => false) metered arrivals).eval idle).2.app.rest.registry.snapshot 1

theorem snapshot_counts_iff_echo :
    (∃ latency, ("echo", ⟨1, 0, latency⟩) ∈ (after [.rpc 0 0 ⟨1, "echo", []⟩, .event 0 ⟨2, "b", []⟩]).rpc) ∧
      (after [.rpc 0 0 ⟨1, "echo", []⟩, .event 0 ⟨2, "b", []⟩]).eventsTotal = 1 := by
  obtain ⟨calls, events, -⟩ := (snapshot_counts_iff (fun _ _ => false) metered_outermost
    [.rpc 0 0 ⟨1, "echo", []⟩, .event 0 ⟨2, "b", []⟩] idle rfl 1).2 (by decide)
  exact ⟨(calls "echo" 1 0).2 ⟨by decide, rfl, by decide⟩, events⟩

/-- One stream was dispatched, and none was counted. -/
theorem stream_not_counted :
    [Arrival.stream 0 [.ok (some (.stream ⟨7, 0, ⟨0⟩, [1]⟩))] ⟨7, "a", []⟩].countP isStream = 1 ∧
      (after [.stream 0 [.ok (some (.stream ⟨7, 0, ⟨0⟩, [1]⟩))] ⟨7, "a", []⟩]).streamsTotal = 0 :=
  ⟨by decide, (dispatchAll_tallied (fun _ _ => false) metered_outermost _ idle).streams⟩

end EchoStream.Plugins.Metrics
