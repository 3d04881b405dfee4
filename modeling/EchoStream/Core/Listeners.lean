import EchoStream.Foundation.Registrations
import EchoStream.Core.StateMachine

/-! The listeners of the client state machine over a history of registrations and removals
among everything else it does. Its tables are what the history says, so an incoming
message calls the listeners that are registered when it comes. -/

namespace EchoStream.Core.Listeners
open Foundation.Run Foundation.Registrations
open Proto.Messages Proto.Postcard
open StateMachine

inductive Kind where
  | event
  | rpc
  | stream
deriving DecidableEq, Repr

inductive Listening where
  | event (name : String)
  | rpc (name : String) (handler : RpcListener)
  | stream (name : String)

/-- What decides where a message goes: registrations with the id they were given, removals,
and the names of streams as they are opened and forgotten. -/
inductive Change where
  | on (id : ListenerId) (what : Listening)
  | off (kind : Kind) (id : ListenerId)
  | opened (id : UInt64) (name : String)
  | forgotten (id : UInt64)

def on (core : ClientCore) : Listening → ListenerId × ClientCore
  | .event name => core.onEvent name
  | .rpc name handler => core.onRpc name handler
  | .stream name => core.onStream name

def off (core : ClientCore) (id : ListenerId) : Kind → Bool × ClientCore
  | .event => core.offEvent id
  | .rpc => core.offRpc id
  | .stream => core.offStream id

def registration : Label → Option Listening
  | .onEvent name => some (.event name)
  | .onRpc name handler => some (.rpc name handler)
  | .onStream name => some (.stream name)
  | _ => none

def changeOf (core : ClientCore) : Label → Option Change
  | .offEvent id => some (.off .event id)
  | .offRpc id => some (.off .rpc id)
  | .offStream id => some (.off .stream id)
  | .removeStreamState id => some (.forgotten id)
  | .inbound (.streamOpen opened) => some (.opened opened.id opened.name)
  | label => (registration label).map (fun what => .on (on core what).1 what)

def changes (codec : Codec Message) (s : Client) : List Label → List Change
  | [] => []
  | label :: labels =>
      (changeOf s.core label).toList ++
        match step codec s label with
        | some t => changes codec t labels
        | none => []

def eventAct : Change → Option (Act ListenerId String Unit)
  | .on id (.event name) => some (.on id name ())
  | .off .event id => some (.off id)
  | _ => none

def rpcAct : Change → Option (Act ListenerId String RpcListener)
  | .on id (.rpc name handler) => some (.on id name handler)
  | .off .rpc id => some (.off id)
  | _ => none

def streamAct : Change → Option (Act ListenerId String Unit)
  | .on id (.stream name) => some (.on id name ())
  | .off .stream id => some (.off id)
  | _ => none

def nameAct : Change → Option (Act UInt64 UInt64 String)
  | .opened id name => some (.on id id name)
  | .forgotten id => some (.off id)
  | _ => none

def listenersFor (history : List Change) (name : String) : List ListenerId :=
  (listed name (history.filterMap eventAct)).map Prod.fst

def rpcFor (history : List Change) (name : String) : Option (ListenerId × RpcListener) :=
  current name (history.filterMap rpcAct)

def streamFor (history : List Change) (name : String) : Option ListenerId :=
  (current name (history.filterMap streamAct)).map Prod.fst

def nameFor (history : List Change) (id : UInt64) : Option String :=
  (current id (history.filterMap nameAct)).map Prod.snd

def Active (history : List Change) (id : ListenerId) : Kind → Prop
  | .event => ∃ name, id ∈ listenersFor history name
  | .rpc => ∃ name handler, rpcFor history name = some (id, handler)
  | .stream => ∃ name, streamFor history name = some id

structure Mirrors (core : ClientCore) (history : List Change) : Prop where
  events : ∀ name, core.events.lookup name = filled (listenersFor history name)
  rpcs : ∀ name, core.rpcs.lookup name = rpcFor history name
  streams : ∀ name, core.streams.lookup name = streamFor history name
  names : ∀ id, core.streamNames.lookup id = nameFor history id

section Tables

variable {change : Change}

theorem listenersFor_other (unrelated : eventAct change = none) (history : List Change) (name : String) :
    listenersFor (history ++ [change]) name = listenersFor history name := by
  rw [listenersFor, acts_none unrelated, listenersFor]

theorem rpcFor_other (unrelated : rpcAct change = none) (history : List Change) (name : String) :
    rpcFor (history ++ [change]) name = rpcFor history name := by
  rw [rpcFor, acts_none unrelated, rpcFor]

theorem streamFor_other (unrelated : streamAct change = none) (history : List Change) (name : String) :
    streamFor (history ++ [change]) name = streamFor history name := by
  rw [streamFor, acts_none unrelated, streamFor]

theorem nameFor_other (unrelated : nameAct change = none) (history : List Change) (id : UInt64) :
    nameFor (history ++ [change]) id = nameFor history id := by
  rw [nameFor, acts_none unrelated, nameFor]

theorem listenersFor_on (history : List Change) (id : ListenerId) (other name : String) :
    listenersFor (history ++ [.on id (.event other)]) name =
      listenersFor history name ++ if other = name then [id] else [] := by
  have acted : eventAct (.on id (.event other)) = some (.on id other ()) := rfl
  rw [listenersFor, acts_some acted, listed_on, List.map_append, listenersFor]
  split <;> rfl

theorem listenersFor_off (history : List Change) (id : ListenerId) (name : String) :
    listenersFor (history ++ [.off .event id]) name =
      (listenersFor history name).filter (fun other => other ≠ id) := by
  have acted : eventAct (.off .event id) = some (.off id) := rfl
  rw [listenersFor, acts_some acted, listed_off, listenersFor, List.filter_map]
  rfl

theorem rpcFor_on (history : List Change) (id : ListenerId) (other name : String) (handler : RpcListener) :
    rpcFor (history ++ [.on id (.rpc other handler)]) name =
      if other = name then some (id, handler) else rpcFor history name := by
  have acted : rpcAct (.on id (.rpc other handler)) = some (.on id other handler) := rfl
  rw [rpcFor, acts_some acted, current_on, rpcFor]

theorem rpcFor_off (history : List Change) (id : ListenerId) (name : String) :
    rpcFor (history ++ [.off .rpc id]) name = (rpcFor history name).filter (fun entry => entry.1 ≠ id) := by
  have acted : rpcAct (.off .rpc id) = some (.off id) := rfl
  rw [rpcFor, acts_some acted, current_off, rpcFor]

theorem streamFor_on (history : List Change) (id : ListenerId) (other name : String) :
    streamFor (history ++ [.on id (.stream other)]) name =
      if other = name then some id else streamFor history name := by
  have acted : streamAct (.on id (.stream other)) = some (.on id other ()) := rfl
  rw [streamFor, acts_some acted, current_on, streamFor]
  split <;> rfl

theorem streamFor_off (history : List Change) (id : ListenerId) (name : String) :
    streamFor (history ++ [.off .stream id]) name = (streamFor history name).filter (fun other => other ≠ id) := by
  have acted : streamAct (.off .stream id) = some (.off id) := rfl
  rw [streamFor, acts_some acted, current_off, streamFor, Option.filter_map]
  rfl

theorem nameFor_opened (history : List Change) (other id : UInt64) (name : String) :
    nameFor (history ++ [.opened other name]) id = if other = id then some name else nameFor history id := by
  have acted : nameAct (.opened other name) = some (.on other other name) := rfl
  rw [nameFor, acts_some acted, current_on, nameFor]
  split <;> rfl

theorem nameFor_own {history : List Change} {id other : UInt64} {name : String}
    (named : current id (history.filterMap nameAct) = some (other, name)) : other = id := by
  obtain ⟨before, after, acts, -, -⟩ := current_iff.1 named
  have member : Act.on other id name ∈ history.filterMap nameAct := by simp [acts]
  obtain ⟨change, -, acted⟩ := List.mem_filterMap.1 member
  cases change with
  | opened => cases acted; rfl
  | on => cases acted
  | off => cases acted
  | forgotten => cases acted

theorem nameFor_forgotten (history : List Change) (other id : UInt64) :
    nameFor (history ++ [.forgotten other]) id = if id = other then none else nameFor history id := by
  have acted : nameAct (.forgotten other) = some (.off other) := rfl
  rw [nameFor, acts_some acted, current_off, nameFor]
  cases named : current id (history.filterMap nameAct) with
  | none => simp
  | some entry =>
    obtain ⟨key, name⟩ := entry
    have own : key = id := nameFor_own named
    rw [Option.filter_some, own]
    by_cases same : id = other
    · rw [if_pos same, if_neg (by simp [same])]
      rfl
    · rw [if_neg same, if_pos (by simpa using same)]

end Tables

variable {core : ClientCore} {history : List Change}

theorem new_mirrors : Mirrors .new [] := ⟨fun _ => rfl, fun _ => rfl, fun _ => rfl, fun _ => rfl⟩

theorem Mirrors.same (mirrors : Mirrors core history) {after : ClientCore} (events : after.events = core.events)
    (rpcs : after.rpcs = core.rpcs) (streams : after.streams = core.streams)
    (names : after.streamNames = core.streamNames) : Mirrors after history := by
  constructor
  · rw [events]
    exact mirrors.events
  · rw [rpcs]
    exact mirrors.rpcs
  · rw [streams]
    exact mirrors.streams
  · rw [names]
    exact mirrors.names

theorem Mirrors.listeners (mirrors : Mirrors core history) (name : String) :
    (core.events.lookup name).getD [] = listenersFor history name := by
  rw [mirrors.events, filled_getD]

/-! The tables that a change is not about. -/

theorem Mirrors.events_still {change : Change} (mirrors : Mirrors core history) (unrelated : eventAct change = none)
    (name : String) : core.events.lookup name = filled (listenersFor (history ++ [change]) name) := by
  rw [listenersFor_other unrelated, mirrors.events]

theorem Mirrors.rpcs_still {change : Change} (mirrors : Mirrors core history) (unrelated : rpcAct change = none)
    (name : String) : core.rpcs.lookup name = rpcFor (history ++ [change]) name := by
  rw [rpcFor_other unrelated, mirrors.rpcs]

theorem Mirrors.streams_still {change : Change} (mirrors : Mirrors core history) (unrelated : streamAct change = none)
    (name : String) : core.streams.lookup name = streamFor (history ++ [change]) name := by
  rw [streamFor_other unrelated, mirrors.streams]

theorem Mirrors.names_still {change : Change} (mirrors : Mirrors core history) (unrelated : nameAct change = none)
    (id : UInt64) : core.streamNames.lookup id = nameFor (history ++ [change]) id := by
  rw [nameFor_other unrelated, mirrors.names]

theorem on_mirrors (mirrors : Mirrors core history) (what : Listening) :
    Mirrors (on core what).2 (history ++ [.on (on core what).1 what]) := by
  cases what with
  | event other =>
    constructor
    · intro name
      rw [listenersFor_on]
      show (core.events.insert other ((core.events.lookup other).getD [] ++ [core.nextListenerId + 1])).lookup name = _
      rw [lookup_insert_eq, mirrors.listeners]
      by_cases same : other = name
      · rw [if_pos same, if_pos same, filled_append, same]
        rfl
      · rw [if_neg same, if_neg same, List.append_nil, mirrors.events]
    · exact mirrors.rpcs_still rfl
    · exact mirrors.streams_still rfl
    · exact mirrors.names_still rfl
  | rpc other handler =>
    constructor
    · exact mirrors.events_still rfl
    · intro name
      rw [rpcFor_on, ← mirrors.rpcs]
      exact lookup_insert_eq ..
    · exact mirrors.streams_still rfl
    · exact mirrors.names_still rfl
  | stream other =>
    constructor
    · exact mirrors.events_still rfl
    · exact mirrors.rpcs_still rfl
    · intro name
      rw [streamFor_on, ← mirrors.streams]
      exact lookup_insert_eq ..
    · exact mirrors.names_still rfl

theorem off_mirrors (mirrors : Mirrors core history) (kind : Kind) (id : ListenerId) :
    Mirrors (off core id kind).2 (history ++ [.off kind id]) := by
  cases kind with
  | event =>
    constructor
    · intro name
      rw [listenersFor_off, ← filled_filter, ← mirrors.events, ← lookup_mapValues]
      exact lookup_retain ..
    · exact mirrors.rpcs_still rfl
    · exact mirrors.streams_still rfl
    · exact mirrors.names_still rfl
  | rpc =>
    constructor
    · exact mirrors.events_still rfl
    · intro name
      rw [rpcFor_off, ← mirrors.rpcs]
      exact lookup_retain ..
    · exact mirrors.streams_still rfl
    · exact mirrors.names_still rfl
  | stream =>
    constructor
    · exact mirrors.events_still rfl
    · exact mirrors.rpcs_still rfl
    · intro name
      rw [streamFor_off, ← mirrors.streams]
      exact lookup_retain ..
    · exact mirrors.names_still rfl

theorem forget_mirrors (mirrors : Mirrors core history) (id : UInt64) :
    Mirrors (core.removeStreamState id) (history ++ [.forgotten id]) := by
  constructor
  · exact mirrors.events_still rfl
  · exact mirrors.rpcs_still rfl
  · exact mirrors.streams_still rfl
  · intro other
    rw [nameFor_forgotten, ← mirrors.names]
    show (core.streamNames.erase id).lookup other = _
    by_cases same : other = id
    · rw [if_pos same, same, AList.lookup_erase]
    · rw [if_neg same, AList.lookup_erase_ne same]

theorem nothing_changed (core : ClientCore) (label : Label) (history : List Change)
    (unrelated : changeOf core label = none) :
    history ++ (changeOf core label).toList = history := by
  rw [unrelated, Option.toList_none, List.append_nil]

/-- Of what arrives only the opening of a stream changes where messages go. -/
theorem inbound_mirrors (mirrors : Mirrors core history) (msg : Message) :
    Mirrors (core.handleInbound msg).2 (history ++ (changeOf core (.inbound msg)).toList) := by
  cases msg with
  | response resp =>
    rw [nothing_changed core (.inbound (.response resp)) history rfl]
    unfold ClientCore.handleInbound
    dsimp only
    split
    · exact mirrors.same rfl rfl rfl rfl
    · exact mirrors
  | event event =>
    rw [nothing_changed core (.inbound (.event event)) history rfl]
    exact mirrors
  | request req =>
    rw [nothing_changed core (.inbound (.request req)) history rfl]
    unfold ClientCore.handleInbound
    dsimp only
    split <;> exact mirrors
  | streamOpen opened =>
    show Mirrors (core.handleInbound (.streamOpen opened)).2 (history ++ [.opened opened.id opened.name])
    constructor
    · exact mirrors.events_still rfl
    · exact mirrors.rpcs_still rfl
    · exact mirrors.streams_still rfl
    · intro id
      rw [nameFor_opened, ← mirrors.names]
      exact lookup_insert_eq ..
  | stream frame =>
    rw [nothing_changed core (.inbound (.stream frame)) history rfl]
    unfold ClientCore.handleInbound
    dsimp only
    split <;> exact mirrors
  | streamEnd ended =>
    rw [nothing_changed core (.inbound (.streamEnd ended)) history rfl]
    unfold ClientCore.handleInbound
    dsimp only
    split <;> exact mirrors.same rfl rfl rfl rfl

variable {codec : Codec Message} {s t : Client}

theorem step_mirrors {label : Label} (mirrors : Mirrors s.core history) (taken : step codec s label = some t) :
    Mirrors t.core (history ++ (changeOf s.core label).toList) := by
  cases label with
  | onEvent name =>
    cases taken
    exact on_mirrors mirrors (.event name)
  | onRpc name handler =>
    cases taken
    exact on_mirrors mirrors (.rpc name handler)
  | onStream name =>
    cases taken
    exact on_mirrors mirrors (.stream name)
  | offEvent id =>
    cases taken
    exact off_mirrors mirrors .event id
  | offRpc id =>
    cases taken
    exact off_mirrors mirrors .rpc id
  | offStream id =>
    cases taken
    exact off_mirrors mirrors .stream id
  | removeStreamState id =>
    cases taken
    exact forget_mirrors mirrors id
  | inbound msg =>
    cases taken
    exact inbound_mirrors mirrors msg
  | _ =>
    cases taken
    rw [nothing_changed _ _ history rfl]
    exact mirrors.same rfl rfl rfl rfl

theorem run_mirrors {labels : List Label} (mirrors : Mirrors s.core history)
    (ran : run (step codec) s labels = some t) :
    Mirrors t.core (history ++ changes codec s labels) := by
  induction labels generalizing s history with
  | nil =>
    cases ran
    rw [changes, List.append_nil]
    exact mirrors
  | cons label labels ih =>
    obtain ⟨next, taken, ran⟩ := run_cons_some ran
    have more := ih (step_mirrors mirrors taken) ran
    rw [List.append_assoc] at more
    rw [changes, taken]
    exact more

theorem off_active (mirrors : Mirrors core history) (kind : Kind) (id : ListenerId) :
    (off core id kind).1 = true ↔ Active history id kind := by
  cases kind with
  | event =>
    simp only [off, ClientCore.offEvent, anyValue_iff, Active, List.contains_iff_mem, ← mirrors.listeners]
    constructor
    · rintro ⟨name, listeners, found, member⟩
      exact ⟨name, by rwa [found]⟩
    · rintro ⟨name, member⟩
      cases found : core.events.lookup name with
      | none =>
        rw [found] at member
        cases member
      | some listeners =>
        rw [found] at member
        exact ⟨name, listeners, found, member⟩
  | rpc =>
    simp only [off, ClientCore.offRpc, anyValue_iff, Active, decide_eq_true_eq, ← mirrors.rpcs]
    constructor
    · rintro ⟨name, ⟨_, handler⟩, found, rfl⟩
      exact ⟨name, handler, found⟩
    · rintro ⟨name, handler, found⟩
      exact ⟨name, _, found, rfl⟩
  | stream =>
    simp only [off, ClientCore.offStream, anyValue_iff, Active, decide_eq_true_eq, ← mirrors.streams]
    constructor
    · rintro ⟨name, _, found, rfl⟩
      exact ⟨name, found⟩
    · rintro ⟨name, found⟩
      exact ⟨name, _, found, rfl⟩

/-! The ids come from one counter for all kinds. -/

def ids (history : List Change) : List ListenerId :=
  history.filterMap (fun
    | .on id _ => some id
    | _ => none)

def registrations (labels : List Label) : List Listening := labels.filterMap registration

theorem on_counts (core : ClientCore) (what : Listening) :
    (on core what).1 = core.nextListenerId + 1 ∧ (on core what).2.nextListenerId = core.nextListenerId + 1 := by
  cases what <;> exact ⟨rfl, rfl⟩

theorem handleInbound_counts (core : ClientCore) (msg : Message) :
    (core.handleInbound msg).2.nextListenerId = core.nextListenerId := by
  unfold ClientCore.handleInbound
  cases msg with
  | event event => rfl
  | streamOpen opened => rfl
  | _ =>
    dsimp only
    split <;> rfl

theorem step_registers {label : Label} {what : Listening} (registered : registration label = some what)
    (taken : step codec s label = some t) :
    changeOf s.core label = some (.on (on s.core what).1 what) ∧ t.core = (on s.core what).2 := by
  cases label with
  | onEvent name =>
    cases registered
    cases taken
    exact ⟨rfl, rfl⟩
  | onRpc name handler =>
    cases registered
    cases taken
    exact ⟨rfl, rfl⟩
  | onStream name =>
    cases registered
    cases taken
    exact ⟨rfl, rfl⟩
  | _ => cases registered

theorem step_unregistered {label : Label} (unregistered : registration label = none)
    (taken : step codec s label = some t) :
    ids (changeOf s.core label).toList = [] ∧ t.core.nextListenerId = s.core.nextListenerId := by
  cases label with
  | onEvent name => cases unregistered
  | onRpc name handler => cases unregistered
  | onStream name => cases unregistered
  | inbound msg =>
    cases taken
    refine ⟨?_, handleInbound_counts s.core msg⟩
    cases msg <;> rfl
  | _ =>
    cases taken
    exact ⟨rfl, rfl⟩

theorem ids_append (history more : List Change) : ids (history ++ more) = ids history ++ ids more :=
  List.filterMap_append

theorem run_counts {labels : List Label} (ran : run (step codec) s labels = some t) :
    ids (changes codec s labels) = numbered (s.core.nextListenerId + 1) (registrations labels).length := by
  induction labels generalizing s with
  | nil => rfl
  | cons label labels ih =>
    obtain ⟨next, taken, ran⟩ := run_cons_some ran
    have later := ih ran
    rw [changes, taken, ids_append]
    show ids (changeOf s.core label).toList ++ ids (changes codec next labels) = _
    rw [later]
    cases registered : registration label with
    | none =>
      obtain ⟨quiet, kept⟩ := step_unregistered registered taken
      have same : registrations (label :: labels) = registrations labels := List.filterMap_cons_none registered
      rw [quiet, kept, same, List.nil_append]
    | some what =>
      obtain ⟨change, moved⟩ := step_registers registered taken
      have one : registrations (label :: labels) = what :: registrations labels := List.filterMap_cons_some registered
      rw [change, moved, (on_counts s.core what).2, one, List.length_cons, numbered_succ, ← (on_counts s.core what).1]
      rfl

theorem ids_nodup {labels : List Label} (ran : run (step codec) .init labels = some s)
    (few : (registrations labels).length < 2 ^ 64) : (ids (changes codec .init labels)).Nodup := by
  rw [run_counts ran]
  exact numbered_nodup _ (Nat.le_of_lt few)

theorem given_sublist (history : List Change) : (given (history.filterMap eventAct)).Sublist (ids history) := by
  induction history with
  | nil => exact List.Sublist.refl _
  | cons change history ih =>
    cases change with
    | on id what =>
      cases what with
      | event name => exact ih.cons_cons id
      | rpc name handler => exact ih.cons id
      | stream name => exact ih.cons id
    | off kind id => cases kind <;> exact ih
    | opened id name => exact ih
    | forgotten id => exact ih

theorem listenersFor_sublist (history : List Change) (name : String) :
    (listenersFor history name).Sublist (ids history) :=
  (listed_sublist name _).trans (given_sublist history)

/-- Where the frames of a stream go: the listener registered under the stream's name. -/
def routeOf (history : List Change) (id : UInt64) : Option (String × ListenerId) :=
  (nameFor history id).bind (fun name => (streamFor history name).map (fun listener => (name, listener)))

theorem Mirrors.route (mirrors : Mirrors core history) (id : UInt64) : core.streamListener id = routeOf history id := by
  rw [ClientCore.streamListener, routeOf, mirrors.names]
  cases nameFor history id with
  | none => rfl
  | some name => exact congrArg (Option.map (fun listener => (name, listener))) (mirrors.streams name)

/-- Whether the removal of an id of a kind leaves a registration. -/
def left (removed : Kind) (id : ListenerId) (kind : Kind) (other : ListenerId) : Bool :=
  !(kind = removed ∧ other = id : Bool)

theorem left_other {removed kind : Kind} (apart : kind ≠ removed) (id other : ListenerId) :
    left removed id kind other = true := by
  simp [left, apart]

theorem left_same (kind : Kind) (id : ListenerId) : left kind id kind = fun other => decide (other ≠ id) := by
  funext other
  simp [left]

theorem filter_all {α : Type} {keep : α → Bool} (all : ∀ value, keep value = true) (entry : Option α) :
    entry.filter keep = entry := by
  cases entry with
  | none => rfl
  | some value => rw [Option.filter_some, if_pos (all value)]

theorem listenersFor_left (history : List Change) (kind : Kind) (id : ListenerId) (name : String) :
    listenersFor (history ++ [.off kind id]) name = (listenersFor history name).filter (left kind id .event) := by
  cases kind with
  | event => rw [listenersFor_off, left_same]
  | _ => rw [listenersFor_other rfl, List.filter_eq_self.2 (fun other _ => left_other (by simp) id other)]

theorem rpcFor_left (history : List Change) (kind : Kind) (id : ListenerId) (name : String) :
    rpcFor (history ++ [.off kind id]) name =
      (rpcFor history name).filter (fun entry => left kind id .rpc entry.1) := by
  cases kind with
  | rpc => rw [rpcFor_off, left_same]
  | _ =>
    refine (rpcFor_other rfl history name).trans (filter_all (fun entry : ListenerId × RpcListener => ?_) _).symm
    exact left_other (by simp) id entry.1

theorem streamFor_left (history : List Change) (kind : Kind) (id : ListenerId) (name : String) :
    streamFor (history ++ [.off kind id]) name = (streamFor history name).filter (left kind id .stream) := by
  cases kind with
  | stream => rw [streamFor_off, left_same]
  | _ => rw [streamFor_other rfl, filter_all (fun other => left_other (by simp) id other)]

/-- An event calls the listeners of its name that were not removed, each once and as they
were registered. Requests and the frames of a stream go to the last registration of the
name, unless it was removed. A removal finds an active registration or nothing, and all
others are left. -/
theorem listeners_mirror_history {labels : List Label} (ran : run (step codec) .init labels = some s) :
    (∀ event, (s.core.handleInbound (.event event)).1 =
      ((listenersFor (changes codec .init labels) event.name).map (fun listener => .event listener event.name event.data), none)) ∧
    (∀ name, (listenersFor (changes codec .init labels) name).Sublist (ids (changes codec .init labels))) ∧
    ((registrations labels).length < 2 ^ 64 → (ids (changes codec .init labels)).Nodup) ∧
    (∀ req, (s.core.handleInbound (.request req)).1 =
      (rpcFor (changes codec .init labels) req.name).elim ([], some (ClientCore.buildErrorResponse req.id "handler not found"))
        (fun entry => ([.rpc entry.1 req.id req.data], (entry.2 req.id req.data).map (ClientCore.buildResponse req.id)))) ∧
    (∀ frame, (s.core.handleInbound (.stream frame)).1 =
      ((routeOf (changes codec .init labels) frame.id).toList.map (fun route => .stream route.1 route.2 (some frame)), none)) ∧
    (∀ ended, (s.core.handleInbound (.streamEnd ended)).1 =
      ((routeOf (changes codec .init labels) ended.id).toList.map (fun route => .stream route.1 route.2 none), none)) ∧
    ∀ kind id, ((off s.core id kind).1 = true ↔ Active (changes codec .init labels) id kind) ∧
      (∀ name, ((off s.core id kind).2.events.lookup name).getD [] =
        (listenersFor (changes codec .init labels) name).filter (left kind id .event)) ∧
      (∀ name, (off s.core id kind).2.rpcs.lookup name =
        (rpcFor (changes codec .init labels) name).filter (fun entry => left kind id .rpc entry.1)) ∧
      (∀ name, (off s.core id kind).2.streams.lookup name =
        (streamFor (changes codec .init labels) name).filter (left kind id .stream)) ∧
      ∀ stream, (off s.core id kind).2.streamNames.lookup stream = nameFor (changes codec .init labels) stream := by
  have mirrors : Mirrors s.core (changes codec .init labels) := run_mirrors new_mirrors ran
  refine ⟨?_, listenersFor_sublist _, ids_nodup ran, ?_, ?_, ?_, ?_⟩
  · intro event
    rw [← mirrors.listeners]
    rfl
  · intro req
    rw [← mirrors.rpcs]
    unfold ClientCore.handleInbound
    dsimp only
    cases s.core.rpcs.lookup req.name <;> rfl
  · intro frame
    rw [← mirrors.route]
    unfold ClientCore.handleInbound
    dsimp only
    cases s.core.streamListener frame.id <;> rfl
  · intro ended
    rw [← mirrors.route]
    unfold ClientCore.handleInbound
    dsimp only
    rw [show ({ s.core with streamEnds := s.core.streamEnds.insert ended.id ended } : ClientCore).streamListener ended.id =
      s.core.streamListener ended.id from rfl]
    cases s.core.streamListener ended.id <;> rfl
  · intro kind id
    have after : Mirrors (off s.core id kind).2 (changes codec .init labels ++ [.off kind id]) := off_mirrors mirrors kind id
    refine ⟨off_active mirrors kind id, ?_, ?_, ?_, ?_⟩
    · intro name
      rw [after.listeners]
      exact listenersFor_left ..
    · intro name
      rw [after.rpcs]
      exact rpcFor_left ..
    · intro name
      rw [after.streams]
      exact streamFor_left ..
    · intro stream
      rw [after.names]
      exact nameFor_other rfl ..

/-- Two listeners of one event and two handlers of one request, some of them removed. -/
private def registering : List Label :=
  [.onEvent "moved", .onEvent "moved", .onRpc "ping" (fun _ _ => none), .onRpc "ping" (fun _ data => some data),
    .offEvent 1, .offRpc 3, .onStream "chat", .inbound (.streamOpen ⟨7, "chat", []⟩)]

theorem listeners_mirror_history_registering :
    ∃ s, run (step wire) .init registering = some s ∧
      (s.core.handleInbound (.event ⟨1, "moved", [9]⟩)).1 = ([.event 2 "moved" [9]], none) ∧
      (s.core.handleInbound (.request ⟨4, "ping", [5]⟩)).1 = ([.rpc 4 4 [5]], some (ClientCore.buildResponse 4 [5])) ∧
      (s.core.handleInbound (.stream ⟨7, 0, ⟨0⟩, [6]⟩)).1 = ([.stream "chat" 5 (some ⟨7, 0, ⟨0⟩, [6]⟩)], none) ∧
      (off s.core 4 .rpc).1 = true ∧ (ids (changes wire .init registering)).Nodup := by
  obtain ⟨s, ran⟩ : ∃ s, run (step wire) .init registering = some s := ⟨_, rfl⟩
  obtain ⟨events, -, distinct, requests, frames, -, offs⟩ := listeners_mirror_history ran
  refine ⟨s, ran, events _, requests _, frames _, ?_, distinct (by decide)⟩
  exact (offs .rpc 4).1.2 ⟨"ping", _, rfl⟩

end EchoStream.Core.Listeners
