import EchoStream.Foundation.Run
import EchoStream.Foundation.Registrations
import EchoStream.Web.OnRpc

/-! RPC handlers in the browser that are registered and unregistered. The handlers are kept
by their names, and the state machine keeps a closure for each name by its id. What undoes a
registration removes the closure of the id, but it also removes whatever handler the name
has by then. -/

namespace EchoStream.Web.Unregister
open Foundation.Run Foundation.Registrations
open Proto.Messages Proto.Postcard Core.StateMachine
open Handle OnRpc

variable {V E : Type}

def off (name : String) (id : UInt32) (s : Rpcs V E) : Rpcs V E :=
  let unregister := fun core : ClientCore =>
    ((.ok (core.offRpc id.toUInt64).1 : Except Thrown Bool), ([] : List Call), (core.offRpc id.toUInt64).2)
  ⟨(s.handle.use unregister).2, s.handlers.erase name⟩

/-- The handler that is called for a request: the state machine calls the closure, and the
closure looks for the handler that the name has now. -/
def handlerFor (s : Rpcs V E) (req : RequestMsg) : Option (RpcHandler V E) :=
  match (s.handle.core.handleInbound (.request req)).1.1 with
  | [] => none
  | _ :: _ => s.handlers.lookup req.name

structure Sdk (V E : Type) where
  rpcs : Rpcs V E
  offs : List (String × UInt32)

def Sdk.init : Sdk V E := ⟨⟨.new, ∅⟩, []⟩

/-- The functions are numbered in the order in which they were returned. -/
inductive Operation (V E : Type) where
  | onRpc (name : String) (handler : RpcHandler V E)
  | off (i : Nat)

/-- The module's ids are 32 bits wide. A call that throws returns no function. -/
def Sdk.onRpc (codec : Codec Message) (platform : Platform V E) (name : String) (handler : RpcHandler V E) (s : Sdk V E) :
    Sdk V E :=
  let (id, _) := s.rpcs.handle.core.onRpc name (listener codec platform (s.rpcs.handlers.insert name handler) name)
  ⟨s.rpcs.onRpc codec platform name handler, if s.rpcs.handle.borrowed then s.offs else s.offs ++ [(name, id.toUInt32)]⟩

def step (codec : Codec Message) (platform : Platform V E) : Step (Sdk V E) (Operation V E)
  | s, .onRpc name handler => some (s.onRpc codec platform name handler)
  | s, .off i => (s.offs[i]?).map (fun captured => { s with rpcs := off captured.1 captured.2 s.rpcs })

inductive Event (V E : Type) where
  | registered (i : Nat) (name : String) (handler : RpcHandler V E)
  | unregistered (i : Nat) (name : String)

def eventOf (s : Sdk V E) : Operation V E → Option (Event V E)
  | .onRpc name handler => some (.registered s.offs.length name handler)
  | .off i => (s.offs[i]?).map (fun captured => .unregistered i captured.1)

def events (codec : Codec Message) (platform : Platform V E) (s : Sdk V E) : List (Operation V E) → List (Event V E)
  | [] => []
  | operation :: operations =>
      (eventOf s operation).toList ++
        match step codec platform s operation with
        | some t => events codec platform t operations
        | none => []

def act : Event V E → Act Nat String (RpcHandler V E)
  | .registered i name handler => .on i name handler
  | .unregistered i _ => .off i

/-- The last registration of the name, unless it was undone. -/
def latest (events : List (Event V E)) (name : String) : Option (Nat × RpcHandler V E) := current name (events.map act)

/-- The last one of the registrations of the name that were not undone. -/
def latestLeft (events : List (Event V E)) (name : String) : Option (Nat × RpcHandler V E) :=
  (listed name (events.map act)).getLast?

def idOf (i : Nat) : UInt64 := UInt64.ofNat (i + 1)

def offId (i : Nat) : UInt64 := (idOf i).toUInt32.toUInt64

/-- After the last registration of the name no function is called that was returned for the
name, or that removes the id of this registration. -/
def Spared (events : List (Event V E)) (name : String) : Prop :=
  ∀ before i handler after, events = before ++ .registered i name handler :: after →
    (∀ j other, .registered j name other ∉ after) →
    ∀ j called, .unregistered j called ∈ after → called ≠ name ∧ offId j ≠ idOf i

def handlerAct : Event V E → Act String String (RpcHandler V E)
  | .registered _ name handler => .on name name handler
  | .unregistered _ name => .off name

def closureAct : Event V E → Act UInt64 String Unit
  | .registered i name _ => .on (idOf i) name ()
  | .unregistered i _ => .off (offId i)

structure Mirrors (s : Sdk V E) (events : List (Event V E)) : Prop where
  free : s.rpcs.handle.borrowed = false
  handlers : ∀ name, s.rpcs.handlers.lookup name = (current name (events.map handlerAct)).map Prod.snd
  closures : ∀ name, (s.rpcs.handle.core.rpcs.lookup name).map Prod.fst = (current name (events.map closureAct)).map Prod.fst
  counter : s.rpcs.handle.core.nextListenerId = UInt64.ofNat s.offs.length
  captured : ∀ i name id, s.offs[i]? = some (name, id) → id = (idOf i).toUInt32
  registered : ∀ i name handler, .registered i name handler ∈ events → ∃ id, s.offs[i]? = some (name, id)
  unregistered : ∀ i name, .unregistered i name ∈ events → ∃ id, s.offs[i]? = some (name, id)

variable {codec : Codec Message} {platform : Platform V E} {s t : Sdk V E} {history : List (Event V E)}

theorem init_mirrors : Mirrors (.init : Sdk V E) [] := by
  constructor
  · rfl
  · exact fun name => rfl
  · exact fun name => rfl
  · rfl
  · intro i name id captured
    cases captured
  · exact fun i name handler member => absurd member List.not_mem_nil
  · exact fun i name member => absurd member List.not_mem_nil

theorem idOf_next (count : Nat) : UInt64.ofNat count + 1 = idOf count := by
  rw [idOf, UInt64.ofNat_add]
  rfl

theorem onRpc_free (codec : Codec Message) (platform : Platform V E) (free : s.rpcs.handle.borrowed = false) (name : String)
    (handler : RpcHandler V E) :
    (s.onRpc codec platform name handler).rpcs.handle.borrowed = false ∧
    (s.onRpc codec platform name handler).rpcs.handlers = s.rpcs.handlers.insert name handler ∧
    (s.onRpc codec platform name handler).rpcs.handle.core =
      (s.rpcs.handle.core.onRpc name (listener codec platform (s.rpcs.handlers.insert name handler) name)).2 ∧
    (s.onRpc codec platform name handler).offs = s.offs ++ [(name, (s.rpcs.handle.core.nextListenerId + 1).toUInt32)] := by
  simp [Sdk.onRpc, Rpcs.onRpc, ClientCoreHandle.use, free, trapped, ClientCore.onRpc, ClientCore.takeNextListener]

theorem getElem?_snoc {α : Type} {entries : List α} {entry found : α} {i : Nat}
    (there : (entries ++ [entry])[i]? = some found) : entries[i]? = some found ∨ (i = entries.length ∧ found = entry) := by
  rcases Nat.lt_or_ge i entries.length with below | beyond
  · rw [List.getElem?_append_left below] at there
    exact Or.inl there
  · rw [List.getElem?_append_right beyond] at there
    obtain ⟨zero, same⟩ := List.getElem?_eq_some_iff.1 there
    have last : i - entries.length = 0 := Nat.lt_one_iff.1 zero
    refine Or.inr ⟨by omega, ?_⟩
    rw [← same]
    simp [last]

theorem onRpc_mirrors (mirrors : Mirrors s history) (name : String) (handler : RpcHandler V E) :
    Mirrors (s.onRpc codec platform name handler) (history ++ [.registered s.offs.length name handler]) := by
  obtain ⟨free, handlers, core, offs⟩ := onRpc_free codec platform mirrors.free name handler
  have next : s.rpcs.handle.core.nextListenerId + 1 = idOf s.offs.length := by
    rw [mirrors.counter]
    exact idOf_next _
  have older : ∀ {i : Nat} {entry : String × UInt32}, s.offs[i]? = some entry →
      (s.offs ++ [(name, (idOf s.offs.length).toUInt32)])[i]? = some entry := by
    intro i entry there
    rw [List.getElem?_append_left (List.getElem?_eq_some_iff.1 there).1]
    exact there
  have newest : (s.offs ++ [(name, (idOf s.offs.length).toUInt32)])[s.offs.length]? = some (name, (idOf s.offs.length).toUInt32) :=
    List.getElem?_concat_length
  rw [next] at offs
  constructor
  · exact free
  · intro other
    rw [handlers, lookup_insert_eq, List.map_append]
    show _ = (current other (history.map handlerAct ++ [.on name name handler])).map Prod.snd
    rw [current_on, mirrors.handlers]
    split <;> rfl
  · intro other
    rw [core, List.map_append]
    show ((s.rpcs.handle.core.rpcs.insert name _).lookup other).map Prod.fst =
      (current other (history.map closureAct ++ [.on (idOf s.offs.length) name ()])).map Prod.fst
    rw [lookup_insert_eq, current_on, ← next]
    split
    · rfl
    · exact mirrors.closures other
  · rw [core, offs, List.length_append]
    exact next
  · intro i called id there
    rw [offs] at there
    rcases getElem?_snoc there with old | ⟨rfl, new⟩
    · exact mirrors.captured i called id old
    · cases new
      rfl
  · intro i called what member
    rw [offs]
    rcases List.mem_append.1 member with old | new
    · obtain ⟨id, there⟩ := mirrors.registered i called what old
      exact ⟨id, older there⟩
    · cases List.mem_singleton.1 new
      exact ⟨_, newest⟩
  · intro i called member
    rw [offs]
    rcases List.mem_append.1 member with old | new
    · obtain ⟨id, there⟩ := mirrors.unregistered i called old
      exact ⟨id, older there⟩
    · cases List.mem_singleton.1 new

theorem off_free (free : s.rpcs.handle.borrowed = false) (name : String) (id : UInt32) :
    (off name id s.rpcs).handle.borrowed = false ∧ (off name id s.rpcs).handlers = s.rpcs.handlers.erase name ∧
    (off name id s.rpcs).handle.core = (s.rpcs.handle.core.offRpc id.toUInt64).2 := by
  simp [off, ClientCoreHandle.use, free, trapped]

theorem handler_own {name other : String} {handler : RpcHandler V E}
    (found : current name (history.map handlerAct) = some (other, handler)) : other = name := by
  obtain ⟨before, after, acts, -, -⟩ := current_iff.1 found
  have member : Act.on other name handler ∈ history.map handlerAct := by simp [acts]
  obtain ⟨event, -, acted⟩ := List.mem_map.1 member
  cases event with
  | registered i called what =>
    cases acted
    rfl
  | unregistered i called => cases acted

theorem off_mirrors (mirrors : Mirrors s history) {i : Nat} {name : String} {id : UInt32} (captured : s.offs[i]? = some (name, id)) :
    Mirrors { s with rpcs := off name id s.rpcs } (history ++ [.unregistered i name]) := by
  obtain ⟨free, handlers, core⟩ := off_free mirrors.free name id
  constructor
  · exact free
  · intro other
    rw [handlers, List.map_append]
    show _ = (current other (history.map handlerAct ++ [.off name])).map Prod.snd
    rw [current_off]
    have before := mirrors.handlers other
    cases found : current other (history.map handlerAct) with
    | none =>
      rw [found] at before
      by_cases same : other = name
      · rw [same, AList.lookup_erase]
        rfl
      · rw [AList.lookup_erase_ne same, before]
        rfl
    | some entry =>
      obtain ⟨key, handler⟩ := entry
      rw [found] at before
      have own : key = other := handler_own found
      rw [Option.filter_some, own]
      by_cases same : other = name
      · rw [same, AList.lookup_erase, if_neg (by simp)]
        rfl
      · rw [AList.lookup_erase_ne same, before, if_pos (by simpa using same)]
        rfl
  · intro other
    rw [core, List.map_append]
    show ((retain (fun entry => entry.1 ≠ id.toUInt64) s.rpcs.handle.core.rpcs).lookup other).map Prod.fst =
      (current other (history.map closureAct ++ [.off (offId i)])).map Prod.fst
    have its : id.toUInt64 = offId i := by rw [mirrors.captured i name id captured]; rfl
    have kept := congrArg (Option.filter (fun key => decide (key ≠ offId i))) (mirrors.closures other)
    rw [Option.filter_map, Option.filter_map] at kept
    rw [lookup_retain, current_off, its]
    exact kept
  · rw [core]
    exact mirrors.counter
  · exact mirrors.captured
  · intro j called what member
    rcases List.mem_append.1 member with old | new
    · exact mirrors.registered j called what old
    · cases List.mem_singleton.1 new
  · intro j called member
    rcases List.mem_append.1 member with old | new
    · exact mirrors.unregistered j called old
    · cases List.mem_singleton.1 new
      exact ⟨id, captured⟩

theorem step_mirrors {operation : Operation V E} (mirrors : Mirrors s history)
    (taken : step codec platform s operation = some t) :
    Mirrors t (history ++ (eventOf s operation).toList) := by
  cases operation with
  | onRpc name handler =>
    cases taken
    exact onRpc_mirrors mirrors name handler
  | off i =>
    obtain ⟨⟨name, id⟩, captured, rfl⟩ := Option.map_eq_some_iff.1 taken
    rw [eventOf, captured]
    exact off_mirrors mirrors captured

theorem run_mirrors {operations : List (Operation V E)} (mirrors : Mirrors s history)
    (ran : run (step codec platform) s operations = some t) : Mirrors t (history ++ events codec platform s operations) := by
  induction operations generalizing s history with
  | nil =>
    cases ran
    rw [events, List.append_nil]
    exact mirrors
  | cons operation operations ih =>
    obtain ⟨next, taken, ran⟩ := run_cons_some ran
    have more := ih (step_mirrors mirrors taken) ran
    rw [List.append_assoc] at more
    rw [events, taken]
    exact more

theorem handlerFor_eq (s : Rpcs V E) (req : RequestMsg) :
    handlerFor s req = (s.handle.core.rpcs.lookup req.name).bind (fun _ => s.handlers.lookup req.name) := by
  simp only [handlerFor, ClientCore.handleInbound]
  cases s.handle.core.rpcs.lookup req.name <;> rfl

section Last

variable {name : String} {i : Nat} {handler : RpcHandler V E} {before after : List (Event V E)}

theorem last_event (name : String) (history : List (Event V E)) :
    (∀ i handler, .registered i name handler ∉ history) ∨
      ∃ before i handler after, history = before ++ .registered i name handler :: after ∧
        ∀ j other, .registered j name other ∉ after := by
  have registered : ∀ later : List (Event V E), registers name (later.map act) = false →
      ∀ j other, .registered j name other ∉ later := by
    intro later never j other member
    rw [registers_map.2 ⟨_, member, j, other, rfl⟩] at never
    cases never
  rcases last_or_never name (history.map act) with never | ⟨first, i, handler, rest, parts, last⟩
  · exact Or.inl (registered history never)
  · obtain ⟨before, tail, rfl, -, rest'⟩ := List.map_eq_append_iff.1 parts
    obtain ⟨event, after, rfl, acted, rfl⟩ := List.map_eq_cons_iff.1 rest'
    cases event with
    | registered j called what =>
      cases acted
      exact Or.inr ⟨before, i, handler, after, rfl, registered after last⟩
    | unregistered j called => cases acted

theorem unregistered_map {ι β : Type} (total : Event V E → Act ι String β) (never : ∀ j other, .registered j name other ∉ history)
    (named : ∀ j called what, ∃ id value, total (.registered j called what) = .on id called value)
    (undone : ∀ j called, ∃ id, total (.unregistered j called) = .off id) : registers name (history.map total) = false := by
  rw [Bool.eq_false_iff, ne_eq, registers_map]
  rintro ⟨event, member, id, value, acted⟩
  cases event with
  | registered j called what =>
    obtain ⟨id', value', same⟩ := named j called what
    rw [same] at acted
    cases acted
    exact never j what member
  | unregistered j called =>
    obtain ⟨id', same⟩ := undone j called
    rw [same] at acted
    cases acted

theorem current_map {ι β : Type} [DecidableEq ι] (total : Event V E → Act ι String β) {id : ι} {value : β}
    (last : ∀ j other, .registered j name other ∉ after) (acted : total (.registered i name handler) = .on id name value)
    (named : ∀ j called what, ∃ id value, total (.registered j called what) = .on id called value)
    (undone : ∀ j called, ∃ id, total (.unregistered j called) = .off id) :
    current name ((before ++ .registered i name handler :: after).map total) =
      if removes id (after.map total) then none else some (id, value) := by
  rw [List.map_append, List.map_cons, acted]
  exact current_last _ (unregistered_map total last named undone)

theorem latest_last (before : List (Event V E)) (last : ∀ j other, .registered j name other ∉ after) :
    latest (before ++ .registered i name handler :: after) name =
      if removes i (after.map act) then none else some (i, handler) :=
  current_map act last rfl (fun _ _ _ => ⟨_, _, rfl⟩) (fun _ _ => ⟨_, rfl⟩)

theorem handlers_last (mirrors : Mirrors s (before ++ .registered i name handler :: after))
    (last : ∀ j other, .registered j name other ∉ after) :
    s.rpcs.handlers.lookup name = if removes name (after.map handlerAct) then none else some handler := by
  rw [mirrors.handlers, current_map handlerAct last rfl (fun _ _ _ => ⟨_, _, rfl⟩) (fun _ _ => ⟨_, rfl⟩)]
  split <;> rfl

theorem closures_last (mirrors : Mirrors s (before ++ .registered i name handler :: after))
    (last : ∀ j other, .registered j name other ∉ after) :
    (s.rpcs.handle.core.rpcs.lookup name).map Prod.fst =
      if removes (idOf i) (after.map closureAct) then none else some (idOf i) := by
  rw [mirrors.closures, current_map closureAct last rfl (fun _ _ _ => ⟨_, _, rfl⟩) (fun _ _ => ⟨_, rfl⟩)]
  split <;> rfl

theorem removes_handlerAct : removes name (after.map handlerAct) = true ↔ ∃ j, .unregistered j name ∈ after := by
  rw [removes_map]
  constructor
  · rintro ⟨event, member, acted⟩
    cases event with
    | registered j called what => cases acted
    | unregistered j called =>
      cases acted
      exact ⟨j, member⟩
  · rintro ⟨j, member⟩
    exact ⟨_, member, rfl⟩

theorem removes_closureAct :
    removes (idOf i) (after.map closureAct) = true ↔ ∃ j called, .unregistered j called ∈ after ∧ offId j = idOf i := by
  rw [removes_map]
  constructor
  · rintro ⟨event, member, acted⟩
    cases event with
    | registered j called what => cases acted
    | unregistered j called => exact ⟨j, called, member, Act.off.inj acted⟩
  · rintro ⟨j, called, member, same⟩
    exact ⟨_, member, congrArg Act.off same⟩

theorem removes_act : removes i (after.map act) = true ↔ ∃ called, .unregistered i called ∈ after := by
  rw [removes_map]
  constructor
  · rintro ⟨event, member, acted⟩
    cases event with
    | registered j called what => cases acted
    | unregistered j called =>
      cases acted
      exact ⟨called, member⟩
  · rintro ⟨called, member⟩
    exact ⟨_, member, rfl⟩

end Last

theorem Mirrors.named (mirrors : Mirrors s history) {i : Nat} {name called : String} {handler : RpcHandler V E}
    (registered : .registered i name handler ∈ history) (unregistered : .unregistered i called ∈ history) : called = name := by
  obtain ⟨id, one⟩ := mirrors.registered i name handler registered
  obtain ⟨id', two⟩ := mirrors.unregistered i called unregistered
  rw [one] at two
  exact (congrArg Prod.fst (Option.some.inj two)).symm

/-- The handler of a name that was spared is the one of the last registration, -/
theorem handlerFor_spared (mirrors : Mirrors s history) {req : RequestMsg} (spared : Spared history req.name) :
    handlerFor s.rpcs req = (latest history req.name).map Prod.snd ∧ latestLeft history req.name = latest history req.name := by
  rw [handlerFor_eq]
  rcases last_event req.name history with never | ⟨before, i, handler, after, rfl, last⟩
  · have unasked := unregistered_map act never (fun _ _ _ => ⟨_, _, rfl⟩) (fun _ _ => ⟨_, rfl⟩)
    have unhandled := unregistered_map handlerAct never (fun _ _ _ => ⟨_, _, rfl⟩) (fun _ _ => ⟨_, rfl⟩)
    rw [latest, latestLeft, mirrors.handlers, current_unregistered unasked, current_unregistered unhandled,
      listed_unregistered unasked]
    cases s.rpcs.handle.core.rpcs.lookup req.name <;> exact ⟨rfl, rfl⟩
  · have clear := spared before i handler after rfl last
    have kept : removes i (after.map act) = false := by
      rw [Bool.eq_false_iff, ne_eq, removes_act]
      rintro ⟨called, member⟩
      have own := mirrors.named (List.mem_append_right _ List.mem_cons_self)
        (List.mem_append_right before (List.mem_cons_of_mem _ member))
      exact (clear i called member).1 own
    have handled : removes req.name (after.map handlerAct) = false := by
      rw [Bool.eq_false_iff, ne_eq, removes_handlerAct]
      rintro ⟨j, member⟩
      exact (clear j _ member).1 rfl
    have closed : removes (idOf i) (after.map closureAct) = false := by
      rw [Bool.eq_false_iff, ne_eq, removes_closureAct]
      rintro ⟨j, called, member, same⟩
      exact (clear j called member).2 same
    have closure := closures_last mirrors last
    rw [closed, if_neg (by decide), Option.map_eq_some_iff] at closure
    obtain ⟨entry, found, -⟩ := closure
    rw [found, handlers_last mirrors last, handled, latest_last before last, kept, latestLeft]
    refine ⟨rfl, ?_⟩
    rw [List.map_append, List.map_cons]
    exact listed_last _ (unregistered_map act last (fun _ _ _ => ⟨_, _, rfl⟩) (fun _ _ => ⟨_, rfl⟩)) kept

/-- and otherwise there is none. -/
theorem handlerFor_disturbed (mirrors : Mirrors s history) {req : RequestMsg} (disturbed : ¬ Spared history req.name) :
    handlerFor s.rpcs req = none := by
  rw [handlerFor_eq]
  simp only [Spared, not_forall] at disturbed
  obtain ⟨before, i, handler, after, rfl, last, j, called, member, hit⟩ := disturbed
  rw [not_and_or, not_not, not_not] at hit
  rcases hit with rfl | removed
  · rw [handlers_last mirrors last, if_pos (removes_handlerAct.2 ⟨j, member⟩)]
    cases s.rpcs.handle.core.rpcs.lookup req.name <;> rfl
  · have gone := closures_last mirrors last
    rw [if_pos (removes_closureAct.2 ⟨j, called, member, removed⟩), Option.map_eq_none_iff] at gone
    rw [gone]
    rfl

theorem tables_of_runs (mirrors : Mirrors s history) {req : RequestMsg} {i : Nat} {handler : RpcHandler V E}
    (runs : handlerFor s.rpcs req = some handler) (last : latest history req.name = some (i, handler)) :
    ∃ closure, s.rpcs.handle.core.rpcs.lookup req.name = some (idOf i, closure) ∧
      s.rpcs.handlers.lookup req.name = some handler := by
  rw [handlerFor_eq, Option.bind_eq_some_iff] at runs
  obtain ⟨⟨id, closure⟩, found, handles⟩ := runs
  refine ⟨closure, ?_, handles⟩
  rcases last_event req.name history with never | ⟨before, j, other, after, rfl, alone⟩
  · have unasked := unregistered_map act never (fun _ _ _ => ⟨_, _, rfl⟩) (fun _ _ => ⟨_, rfl⟩)
    rw [latest, current_unregistered unasked] at last
    cases last
  · have closed := closures_last mirrors alone
    rw [found] at closed
    rw [latest_last before alone] at last
    split at last
    · cases last
    · cases last
      split at closed
      · cases closed
      · have own : id = idOf i := Option.some.inj closed
        rw [found, own]

theorem off_runs (mirrors : Mirrors s history) {req : RequestMsg} {i j : Nat} {handler : RpcHandler V E} {called : String}
    {id : UInt32} (captured : s.offs[j]? = some (called, id)) (runs : handlerFor s.rpcs req = some handler)
    (last : latest history req.name = some (i, handler)) :
    handlerFor (off called id s.rpcs) req = some handler ↔ called ≠ req.name ∧ offId j ≠ idOf i := by
  obtain ⟨closure, found, handles⟩ := tables_of_runs mirrors runs last
  obtain ⟨-, handlers, core⟩ := off_free mirrors.free called id
  have its : id.toUInt64 = offId j := by rw [mirrors.captured j called id captured]; rfl
  have closures : (off called id s.rpcs).handle.core.rpcs.lookup req.name =
      (some (idOf i, closure)).filter (fun entry => entry.1 ≠ offId j) := by
    rw [core, ← found, ← its]
    exact lookup_retain ..
  rw [handlerFor_eq, closures, handlers, Option.filter_some]
  by_cases removed : offId j = idOf i
  · rw [if_neg (by simp [removed])]
    exact iff_of_false (by rintro ⟨⟩) (fun both => both.2 removed)
  · have apart : idOf i ≠ offId j := fun same => removed same.symm
    rw [if_pos (by simpa using apart)]
    by_cases same : called = req.name
    · subst same
      rw [Option.bind_some, AList.lookup_erase]
      exact iff_of_false (by rintro ⟨⟩) (fun both => both.1 rfl)
    · rw [Option.bind_some, AList.lookup_erase_ne (Ne.symm same), handles]
      exact iff_of_true rfl ⟨same, removed⟩

/-- Which handler runs for a request after any registrations and calls of the functions that
undo them, against the last registration unless it was undone, and against the last of those
left. The call of one function takes away the handler of another registration where it has
its name, or where its cut id is the other's. -/
theorem latest_runs_iff {operations : List (Operation V E)} (ran : run (step codec platform) .init operations = some s)
    (req : RequestMsg) :
    (handlerFor s.rpcs req = (latest (events codec platform .init operations) req.name).map Prod.snd ↔
      latest (events codec platform .init operations) req.name = none ∨
        Spared (events codec platform .init operations) req.name) ∧
    (handlerFor s.rpcs req = (latestLeft (events codec platform .init operations) req.name).map Prod.snd ↔
      latestLeft (events codec platform .init operations) req.name = none ∨
        Spared (events codec platform .init operations) req.name) ∧
    ∀ i j called id handler, s.offs[j]? = some (called, id) → handlerFor s.rpcs req = some handler →
      latest (events codec platform .init operations) req.name = some (i, handler) →
      (handlerFor (off called id s.rpcs) req = some handler ↔ called ≠ req.name ∧ offId j ≠ idOf i) := by
  have mirrors : Mirrors s (events codec platform .init operations) := run_mirrors init_mirrors ran
  refine ⟨?_, ?_, fun i j called id handler captured runs last => off_runs mirrors captured runs last⟩
  · by_cases spared : Spared (events codec platform .init operations) req.name
    · exact iff_of_true (handlerFor_spared mirrors spared).1 (Or.inr spared)
    · rw [handlerFor_disturbed mirrors spared, eq_comm, Option.map_eq_none_iff]
      exact (or_iff_left spared).symm
  · by_cases spared : Spared (events codec platform .init operations) req.name
    · obtain ⟨runs, left⟩ := handlerFor_spared mirrors spared
      exact iff_of_true (left ▸ runs) (Or.inr spared)
    · rw [handlerFor_disturbed mirrors spared, eq_comm, Option.map_eq_none_iff]
      exact (or_iff_left spared).symm

private def bytesOnly : Platform Bytes String := ⟨fun value => .ok (value.getD [0]), fun data => .ok [data], id, fun _ => "TypeError"⟩

private def older : RpcHandler Bytes String := fun _ => .ok (.value [1])

private def newer : RpcHandler Bytes String := fun _ => .ok (.value [2])

/-- A name is registered again before the first registration is undone. -/
private def renewing : List (Operation Bytes String) := [.onRpc "ping" older, .onRpc "ping" newer, .off 0]

theorem latest_runs_iff_renewing : ∃ s, run (step wire bytesOnly) .init renewing = some s ∧
    latest (events wire bytesOnly .init renewing) "ping" = some (1, newer) ∧
    ¬ Spared (events wire bytesOnly .init renewing) "ping" := by
  obtain ⟨s, ran⟩ : ∃ s, run (step wire bytesOnly) .init renewing = some s := ⟨_, rfl⟩
  have last : latest (events wire bytesOnly .init renewing) "ping" = some (1, newer) := rfl
  obtain ⟨runs, -, -⟩ := latest_runs_iff ran ⟨3, "ping", []⟩
  refine ⟨s, ran, last, fun spared => ?_⟩
  have called := runs.2 (Or.inr spared)
  rw [last] at called
  cases ran
  cases called

/-- The second handler is registered and was not undone, and none runs. -/
theorem older_function_disables : ∃ s, run (step wire bytesOnly) .init renewing = some s ∧
    latest (events wire bytesOnly .init renewing) "ping" = some (1, newer) ∧
    latestLeft (events wire bytesOnly .init renewing) "ping" = some (1, newer) ∧
    handlerFor s.rpcs ⟨3, "ping", []⟩ = none := ⟨_, rfl, rfl, rfl, rfl⟩

end EchoStream.Web.Unregister
