import EchoStream.Foundation.Linearization
import EchoStream.Core.Registry

/-! Registrations and removals of many tasks at once on one router, section by section.
A registration takes its token before it locks the table. Listeners and middlewares are
looked for and removed under one lock, RPC handlers and streams are looked for under one
lock and removed under another, and what the first one found is returned. -/

namespace EchoStream.Core.RegistryRaces
open Foundation.Run Foundation.Trace Foundation.Linearization Foundation.Registrations
open Handler Chain Dispatch Registry
open StateMachine (retain lookup_insert_eq lookup_retain lookup_mapValues)

variable {ω : Type}

inductive Request (ω : Type) where
  | add (entry : Entry ω)
  | remove (table : Table) (token : Token)

inductive Answer where
  | token (token : Token)
  | removed (found : Bool)
deriving DecidableEq

/-- Where a call is: before it takes its token or looks, or between its sections. -/
inductive Stage (ω : Type) where
  | adding (entry : Entry ω)
  | inserting (entry : Entry ω) (token : Token)
  | removing (table : Table) (token : Token)
  | dropping (table : Table) (token : Token) (found : Bool)
  | returned

structure State (ω : Type) where
  router : Router ω
  taken : Nat
  threads : List (Stage ω)
  history : List (Event Nat (Request ω) Answer)

def State.init : State ω := ⟨.new, 0, [], []⟩

inductive Label (ω : Type) where
  | call (request : Request ω)
  | advance (thread : Nat)

def insert (router : Router ω) (token : Token) : Entry ω → Router ω
  | .rpc handler => { router with rpc := router.rpc.insert handler.name (token, handler) }
  | .event handler =>
      { router with event := router.event.insert handler.name (router.listeners handler.name ++ [(token, handler)]) }
  | .stream handler => { router with stream := router.stream.insert handler.name (token, handler) }
  | .middleware mw => { router with middlewares := router.middlewares ++ [(token, mw)] }

/-- Whether looking and removing are two sections. -/
def apart : Table → Bool
  | .rpc => true
  | .event => false
  | .stream => true
  | .middleware => false

def start : Request ω → Stage ω
  | .add entry => .adding entry
  | .remove table token => .removing table token

namespace State

def move (s : State ω) (i : Nat) (stage : Stage ω) : State ω := { s with threads := s.threads.set i stage }

def answer (s : State ω) (i : Nat) (result : Answer) : State ω :=
  { s with threads := s.threads.set i .returned, history := s.history ++ [.ret i result] }

end State

def call (s : State ω) (request : Request ω) : State ω :=
  { s with threads := s.threads ++ [start request], history := s.history ++ [.call s.threads.length request] }

def takeToken (s : State ω) (i : Nat) (entry : Entry ω) : State ω :=
  let token := s.router.nextToken
  { s with router := { s.router with nextToken := token + 1 }, taken := s.taken + 1 }.move i (.inserting entry token)

def insertEntry (s : State ω) (i : Nat) (entry : Entry ω) (token : Token) : State ω :=
  { s with router := insert s.router token entry }.answer i (.token token)

def look (s : State ω) (i : Nat) (table : Table) (token : Token) : State ω :=
  s.move i (.dropping table token (remove s.router token table).1)

def drop (s : State ω) (i : Nat) (table : Table) (token : Token) (found : Bool) : State ω :=
  { s with router := (remove s.router token table).2 }.answer i (.removed found)

def step : Step (State ω) (Label ω)
  | s, .call request => some (call s request)
  | s, .advance i =>
      match s.threads[i]? with
      | some (.adding entry) => some (takeToken s i entry)
      | some (.inserting entry token) => some (insertEntry s i entry token)
      | some (.removing table token) =>
          if apart table then some (look s i table token)
          else some (drop s i table token (remove s.router token table).1)
      | some (.dropping table token found) => some (drop s i table token found)
      | some .returned => none
      | none => none

/-- The sections of a registration, nothing between them. -/
example (router : Router ω) (entry : Entry ω) :
    add router entry = (insert { router with nextToken := router.nextToken + 1 } router.nextToken entry, router.nextToken) := by
  cases entry <;> rfl

/-! The sequential specification. A token that is handed out is a new one, and a removal is
told whether its token denotes something active. -/

abbrev Happened (ω : Type) := Effect Nat (Request ω) Answer

def happening : Happened ω → Option (Happening ω)
  | ⟨_, .add entry, .token token⟩ => some (.added token entry)
  | ⟨_, .remove table token, _⟩ => some (.removed table token)
  | _ => none

def happenings (order : List (Happened ω)) : List (Happening ω) := order.filterMap happening

def Allowed (before : List (Happened ω)) : Happened ω → Prop
  | ⟨_, .add _, .token token⟩ => ∀ earlier ∈ before, earlier.result ≠ .token token
  | ⟨_, .remove table token, .removed found⟩ => found = true ↔ Active (happenings before) token table
  | _ => False

/-- No two removals of a token were told that they found it. -/
def Once (history : List (Event Nat (Request ω) Answer)) : Prop :=
  ∀ i j table other token, .call i (.remove table token) ∈ history → .ret i (.removed true) ∈ history →
    .call j (.remove other token) ∈ history → .ret j (.removed true) ∈ history → i = j

/-- A removal that found the token has not removed it yet. -/
def Condemned (threads : List (Stage ω)) (table : Table) (token : Token) : Prop :=
  ∃ i : Nat, threads[i]? = some (.dropping table token true)

/-- Tokens do not run out. No removal looks at what another one has found and not yet
removed, and none that found nothing removes what was registered since. -/
def Careful (s : State ω) : Label ω → Prop
  | .call _ => True
  | .advance i =>
      match s.threads[i]? with
      | some (.adding _) => s.taken < 2 ^ 64
      | some (.removing table token) => Holds s.router token table → ¬ Condemned s.threads table token
      | some (.dropping table token false) => ¬ Holds s.router token table
      | _ => True

/-! What a table holds, apart from what is condemned, is what is active. -/

def Hides {η : Type} (hidden : Token → Prop) (there shown : Option (Token × η)) : Prop :=
  ∀ token value, shown = some (token, value) ↔ there = some (token, value) ∧ ¬ hidden token

section Hiding

variable {η : Type} {hidden hides : Token → Prop} {there shown : Option (Token × η)} {token : Token}

theorem Hides.congr (before : Hides hidden there shown) (same : ∀ token, hides token ↔ hidden token) :
    Hides hides there shown := by
  intro token value
  rw [before, same]

theorem Hides.kept {later : Option (Token × η)} (before : Hides hidden there shown) (same : later = shown) :
    Hides hidden there later := by
  rw [same]
  exact before

theorem Hides.inserted (before : Hides hidden there shown) (free : ¬ hidden token) (named : Prop) [Decidable named]
    (value : η) :
    Hides hidden (if named then some (token, value) else there) (if named then some (token, value) else shown) := by
  intro other kept
  by_cases here : named
  · rw [if_pos here, if_pos here]
    constructor
    · intro same
      cases same
      exact ⟨rfl, free⟩
    · exact And.left
  · rw [if_neg here, if_neg here]
    exact before other kept

theorem filter_eq_some {found : Option (Token × η)} {other : Token} {value : η} :
    found.filter (fun entry => entry.1 ≠ token) = some (other, value) ↔ found = some (other, value) ∧ other ≠ token := by
  rw [Option.filter_eq_some_iff]
  simp

/-- A removal has its effect when it looks. -/
theorem Hides.looked (before : Hides hidden there shown) (grows : ∀ token, hidden token → hides token)
    (only : ∀ other, hides other → hidden other ∨ other = token) (itself : (∃ value, there = some (token, value)) → hides token) :
    Hides hides there (shown.filter (fun entry => entry.1 ≠ token)) := by
  intro other value
  rw [filter_eq_some, before]
  constructor
  · rintro ⟨⟨found, unhidden⟩, another⟩
    exact ⟨found, fun gone => (only other gone).elim unhidden another⟩
  · rintro ⟨found, unhidden⟩
    refine ⟨⟨found, fun gone => unhidden (grows other gone)⟩, ?_⟩
    rintro rfl
    exact unhidden (itself ⟨value, found⟩)

theorem Hides.dropped (before : Hides hidden there shown) (shrinks : ∀ token, hides token → hidden token)
    (only : ∀ other, hidden other → hides other ∨ other = token) (gone : ∀ value, shown ≠ some (token, value)) :
    Hides hides (there.filter (fun entry => entry.1 ≠ token)) shown := by
  intro other value
  rw [filter_eq_some]
  constructor
  · intro found
    obtain ⟨inside, unhidden⟩ := (before other value).1 found
    refine ⟨⟨inside, ?_⟩, fun hid => unhidden (shrinks other hid)⟩
    rintro rfl
    exact gone value found
  · rintro ⟨⟨found, another⟩, unhidden⟩
    exact (before other value).2 ⟨found, fun hid => (only other hid).elim unhidden another⟩

end Hiding

structure Shadows (router : Router ω) (condemned : Table → Token → Prop) (history : List (Happening ω)) : Prop where
  rpc : ∀ name, Hides (condemned .rpc) (router.getRpc name) (rpcFor history name)
  event : ∀ name, router.event.lookup name = filled (listenersFor history name)
  stream : ∀ name, Hides (condemned .stream) (router.stream.lookup name) (streamFor history name)
  middlewares : router.middlewares = middlewaresFor history

section Shadowing

variable {router : Router ω} {condemned after : Table → Token → Prop} {history : List (Happening ω)} {table : Table} {token : Token}

theorem Shadows.congr (shadows : Shadows router condemned history) (same : ∀ table token, after table token ↔ condemned table token) :
    Shadows router after history :=
  ⟨fun name => (shadows.rpc name).congr (same .rpc), shadows.event, fun name => (shadows.stream name).congr (same .stream),
    shadows.middlewares⟩

theorem Shadows.listeners (shadows : Shadows router condemned history) (name : String) :
    router.listeners name = listenersFor history name := by
  rw [Router.listeners, shadows.event, filled_getD]

theorem Shadows.active (shadows : Shadows router condemned history) (table : Table) (token : Token) :
    Active history token table ↔ Holds router token table ∧ (apart table = true → ¬ condemned table token) := by
  cases table with
  | rpc =>
    constructor
    · rintro ⟨name, handler, found⟩
      obtain ⟨inside, unhidden⟩ := (shadows.rpc name token handler).1 found
      exact ⟨⟨name, handler, inside⟩, fun _ => unhidden⟩
    · rintro ⟨⟨name, handler, inside⟩, unhidden⟩
      exact ⟨name, handler, (shadows.rpc name token handler).2 ⟨inside, unhidden rfl⟩⟩
  | event => simp only [Active, Holds, shadows.listeners, apart, Bool.false_eq_true, false_implies, and_true]
  | stream =>
    constructor
    · rintro ⟨name, handler, found⟩
      obtain ⟨inside, unhidden⟩ := (shadows.stream name token handler).1 found
      exact ⟨⟨name, handler, inside⟩, fun _ => unhidden⟩
    · rintro ⟨⟨name, handler, inside⟩, unhidden⟩
      exact ⟨name, handler, (shadows.stream name token handler).2 ⟨inside, unhidden rfl⟩⟩
  | middleware => simp only [Active, Holds, shadows.middlewares, apart, Bool.false_eq_true, false_implies, and_true]

/-! The tables that what happens is not about. -/

theorem Shadows.rpc_still {happening : Happening ω} (shadows : Shadows router condemned history)
    (unrelated : rpcAct happening = none) (name : String) :
    Hides (condemned .rpc) (router.getRpc name) (rpcFor (history ++ [happening]) name) :=
  (shadows.rpc name).kept (rpcFor_other unrelated history name)

theorem Shadows.event_still {happening : Happening ω} (shadows : Shadows router condemned history)
    (unrelated : eventAct happening = none) (name : String) :
    router.event.lookup name = filled (listenersFor (history ++ [happening]) name) := by
  rw [listenersFor_other unrelated, shadows.event]

theorem Shadows.stream_still {happening : Happening ω} (shadows : Shadows router condemned history)
    (unrelated : streamAct happening = none) (name : String) :
    Hides (condemned .stream) (router.stream.lookup name) (streamFor (history ++ [happening]) name) :=
  (shadows.stream name).kept (streamFor_other unrelated history name)

theorem Shadows.middlewares_still {happening : Happening ω} (shadows : Shadows router condemned history)
    (unrelated : middlewareAct happening = none) : router.middlewares = middlewaresFor (history ++ [happening]) := by
  rw [middlewaresFor_other unrelated, shadows.middlewares]

theorem Shadows.insert (shadows : Shadows router condemned history) (free : ∀ table, ¬ condemned table token) (entry : Entry ω) :
    Shadows (insert router token entry) condemned (history ++ [.added token entry]) := by
  cases entry with
  | rpc handler =>
    constructor
    · intro name
      rw [rpcFor_added]
      show Hides _ ((router.rpc.insert handler.name (token, handler)).lookup name) _
      rw [lookup_insert_eq]
      exact (shadows.rpc name).inserted (free .rpc) _ handler
    · exact shadows.event_still rfl
    · exact shadows.stream_still rfl
    · exact shadows.middlewares_still rfl
  | event handler =>
    constructor
    · exact shadows.rpc_still rfl
    · intro name
      rw [listenersFor_added]
      show (router.event.insert handler.name (router.listeners handler.name ++ [(token, handler)])).lookup name = _
      rw [lookup_insert_eq, shadows.listeners]
      by_cases same : handler.name = name
      · rw [if_pos same, if_pos same, filled_append, same]
      · rw [if_neg same, if_neg same, List.append_nil, shadows.event]
    · exact shadows.stream_still rfl
    · exact shadows.middlewares_still rfl
  | stream handler =>
    constructor
    · exact shadows.rpc_still rfl
    · exact shadows.event_still rfl
    · intro name
      rw [streamFor_added]
      show Hides _ ((router.stream.insert handler.name (token, handler)).lookup name) _
      rw [lookup_insert_eq]
      exact (shadows.stream name).inserted (free .stream) _ handler
    · exact shadows.middlewares_still rfl
  | middleware mw =>
    constructor
    · exact shadows.rpc_still rfl
    · exact shadows.event_still rfl
    · exact shadows.stream_still rfl
    · rw [middlewaresFor_added, ← shadows.middlewares]
      rfl

theorem Shadows.look (shadows : Shadows router condemned history) (two : apart table = true)
    (grows : ∀ other token, condemned other token → after other token)
    (only : ∀ other kept, after other kept → condemned other kept ∨ (other = table ∧ kept = token))
    (itself : Holds router token table → after table token) : Shadows router after (history ++ [.removed table token]) := by
  have unmoved : ∀ other, other ≠ table → ∀ kept, after other kept ↔ condemned other kept := by
    intro other another kept
    exact ⟨fun gone => (only other kept gone).resolve_right (fun both => another both.1), grows other kept⟩
  cases table with
  | rpc =>
    constructor
    · intro name
      rw [rpcFor_removed]
      refine (shadows.rpc name).looked (grows .rpc) (fun kept gone => (only .rpc kept gone).imp_right And.right) ?_
      rintro ⟨handler, found⟩
      exact itself ⟨name, handler, found⟩
    · exact shadows.event_still rfl
    · exact fun name => (shadows.stream_still rfl name).congr (unmoved .stream (by decide))
    · exact shadows.middlewares_still rfl
  | event => cases two
  | stream =>
    constructor
    · exact fun name => (shadows.rpc_still rfl name).congr (unmoved .rpc (by decide))
    · exact shadows.event_still rfl
    · intro name
      rw [streamFor_removed]
      refine (shadows.stream name).looked (grows .stream) (fun kept gone => (only .stream kept gone).imp_right And.right) ?_
      rintro ⟨handler, found⟩
      exact itself ⟨name, handler, found⟩
    · exact shadows.middlewares_still rfl
  | middleware => cases two

theorem Shadows.drop (shadows : Shadows router condemned history) (two : apart table = true)
    (shrinks : ∀ other token, after other token → condemned other token)
    (only : ∀ other kept, condemned other kept → after other kept ∨ (other = table ∧ kept = token))
    (gone : ¬ Active history token table) : Shadows (remove router token table).2 after history := by
  have unmoved : ∀ other, other ≠ table → ∀ kept, after other kept ↔ condemned other kept := by
    intro other another kept
    exact ⟨shrinks other kept, fun hid => (only other kept hid).resolve_right (fun both => another both.1)⟩
  cases table with
  | rpc =>
    constructor
    · intro name
      show Hides _ ((retain (fun entry => entry.1 ≠ token) router.rpc).lookup name) _
      rw [lookup_retain]
      exact (shadows.rpc name).dropped (shrinks .rpc) (fun kept hid => (only .rpc kept hid).imp_right And.right)
        (fun handler found => gone ⟨name, handler, found⟩)
    · exact shadows.event
    · exact fun name => (shadows.stream name).congr (unmoved .stream (by decide))
    · exact shadows.middlewares
  | event => cases two
  | stream =>
    constructor
    · exact fun name => (shadows.rpc name).congr (unmoved .rpc (by decide))
    · exact shadows.event
    · intro name
      show Hides _ ((retain (fun entry => entry.1 ≠ token) router.stream).lookup name) _
      rw [lookup_retain]
      exact (shadows.stream name).dropped (shrinks .stream) (fun kept hid => (only .stream kept hid).imp_right And.right)
        (fun handler found => gone ⟨name, handler, found⟩)
    · exact shadows.middlewares
  | middleware => cases two

theorem Shadows.remove (shadows : Shadows router condemned history) (one : apart table = false) (token : Token) :
    Shadows (remove router token table).2 condemned (history ++ [.removed table token]) := by
  cases table with
  | rpc => cases one
  | event =>
    constructor
    · exact shadows.rpc_still rfl
    · intro name
      rw [listenersFor_removed, ← filled_filter, ← shadows.event, ← lookup_mapValues]
      exact lookup_retain ..
    · exact shadows.stream_still rfl
    · exact shadows.middlewares_still rfl
  | stream => cases one
  | middleware =>
    constructor
    · exact shadows.rpc_still rfl
    · exact shadows.event_still rfl
    · exact shadows.stream_still rfl
    · rw [middlewaresFor_removed, ← shadows.middlewares]
      rfl

end Shadowing

/-! The order in which calls have their effects. -/

section Orders

variable {order : List (Happened ω)}

theorem happenings_append (order more : List (Happened ω)) : happenings (order ++ more) = happenings order ++ happenings more :=
  List.filterMap_append

def tableOf : Entry ω → Table
  | .rpc _ => .rpc
  | .event _ => .event
  | .stream _ => .stream
  | .middleware _ => .middleware

/-- An act that registers comes from a happening that adds, and none after it removes the
token from the table if no later act does. -/
theorem split_of_acts {α β : Type} {act : Happening ω → Option (Act Token α β)} {table : Table} {history : List (Happening ω)}
    {before after : List (Act Token α β)} {token : Token} {name : α} {value : β}
    (adds : ∀ happening, act happening = some (.on token name value) →
      ∃ entry, happening = .added token entry ∧ tableOf entry = table)
    (removal : act (.removed table token) = some (.off token))
    (parts : history.filterMap act = before ++ .on token name value :: after) (kept : removes token after = false) :
    ∃ first entry rest, history = first ++ .added token entry :: rest ∧ tableOf entry = table ∧ .removed table token ∉ rest := by
  obtain ⟨first, more, rfl, -, later⟩ := List.filterMap_eq_append_iff.1 parts
  obtain ⟨skipped, happening, rest, rfl, -, acted, rfl⟩ := List.filterMap_eq_cons_iff.1 later
  obtain ⟨entry, rfl, its⟩ := adds happening acted
  refine ⟨first ++ skipped, entry, rest, by rw [List.append_assoc], its, fun member => ?_⟩
  rw [removes_iff.2 (List.mem_filterMap.2 ⟨_, member, removal⟩)] at kept
  cases kept

theorem active_split {history : List (Happening ω)} {token : Token} {table : Table} (active : Active history token table) :
    ∃ first entry rest, history = first ++ .added token entry :: rest ∧ tableOf entry = table ∧ .removed table token ∉ rest := by
  cases table with
  | rpc =>
    obtain ⟨name, handler, found⟩ := active
    obtain ⟨before, after, parts, -, kept⟩ := current_iff.1 found
    refine split_of_acts ?_ rfl parts kept
    intro happening acted
    cases happening with
    | added other entry =>
      cases entry <;> cases acted
      exact ⟨_, rfl, rfl⟩
    | removed other gone => cases other <;> cases acted
  | event =>
    obtain ⟨name, handler, member⟩ := active
    obtain ⟨before, after, parts, kept⟩ := mem_listed.1 member
    refine split_of_acts ?_ rfl parts kept
    intro happening acted
    cases happening with
    | added other entry =>
      cases entry <;> cases acted
      exact ⟨_, rfl, rfl⟩
    | removed other gone => cases other <;> cases acted
  | stream =>
    obtain ⟨name, handler, found⟩ := active
    obtain ⟨before, after, parts, -, kept⟩ := current_iff.1 found
    refine split_of_acts ?_ rfl parts kept
    intro happening acted
    cases happening with
    | added other entry =>
      cases entry <;> cases acted
      exact ⟨_, rfl, rfl⟩
    | removed other gone => cases other <;> cases acted
  | middleware =>
    obtain ⟨mw, member⟩ := active
    obtain ⟨before, after, parts, kept⟩ := mem_listed.1 member
    refine split_of_acts ?_ rfl parts kept
    intro happening acted
    cases happening with
    | added other entry =>
      cases entry <;> cases acted
      exact ⟨_, rfl, rfl⟩
    | removed other gone => cases other <;> cases acted

def tokenAdded : Happening ω → Option Token
  | .added token _ => some token
  | .removed _ _ => none

theorem happening_token {effect : Happened ω} {token : Token}
    (adds : (happening effect).bind tokenAdded = some token) : effect.result = .token token := by
  obtain ⟨process, operation, result⟩ := effect
  cases operation with
  | add entry =>
    cases result with
    | token other =>
      cases adds
      rfl
    | removed found => cases adds
  | remove table other => cases adds

theorem tokens_nodup (legal : Ordered Allowed order) : ((happenings order).filterMap tokenAdded).Nodup := by
  induction order using List.reverseRecOn with
  | nil => exact List.nodup_nil
  | append_singleton order last ih =>
    have earlier : Ordered Allowed order := by
      intro before effect after same
      exact legal before effect (after ++ [last]) (by rw [same, List.append_assoc]; rfl)
    have allows : Allowed order last := legal order last [] rfl
    have fresh := ih earlier
    rw [happenings, List.filterMap_filterMap] at fresh ⊢
    rw [List.filterMap_append, List.nodup_append]
    obtain ⟨process, operation, result⟩ := last
    cases operation with
    | remove table token => exact ⟨fresh, List.nodup_nil, fun _ _ _ there => by cases there⟩
    | add entry =>
      cases result with
      | removed found => exact allows.elim
      | token token =>
        refine ⟨fresh, List.nodup_singleton token, ?_⟩
        rintro other member _ last rfl
        obtain ⟨effect, there, adds⟩ := List.mem_filterMap.1 member
        rw [List.mem_singleton.1 last] at adds
        exact allows effect there (happening_token adds)

theorem added_unique {history first other rest more : List (Happening ω)} {token : Token} {entry another : Entry ω}
    (distinct : (history.filterMap tokenAdded).Nodup) (one : history = first ++ .added token entry :: rest)
    (two : history = other ++ .added token another :: more) : entry = another ∧ rest = more := by
  have absent : ∀ {before after : List (Happening ω)} {entry : Entry ω}, history = before ++ .added token entry :: after →
      ∀ entry, .added token entry ∉ before ∧ .added token entry ∉ after := by
    intro before after kept split entry
    have adds : tokenAdded (.added token kept) = some token := rfl
    rw [split, List.filterMap_append, List.filterMap_cons_some adds, List.nodup_append, List.nodup_cons] at distinct
    constructor
    · intro member
      exact distinct.2.2 token (List.mem_filterMap.2 ⟨_, member, rfl⟩) token List.mem_cons_self rfl
    · intro member
      exact distinct.2.1.1 (List.mem_filterMap.2 ⟨_, member, rfl⟩)
  rcases List.append_eq_append_iff.1 (one.symm.trans two) with ⟨between, same, later⟩ | ⟨between, same, later⟩
  · cases between with
    | nil =>
      cases later
      exact ⟨rfl, rfl⟩
    | cons happening between =>
      cases later
      exact absurd (same ▸ List.mem_append_right _ List.mem_cons_self) (absent two entry).1
  · cases between with
    | nil =>
      cases later
      exact ⟨rfl, rfl⟩
    | cons happening between =>
      cases later
      exact absurd (same ▸ List.mem_append_right _ List.mem_cons_self) (absent one another).1

/-- A token is not found again after a removal that found it. -/
theorem found_once (legal : Ordered Allowed order) {before between after : List (Happened ω)} {i j : Nat} {table other : Table}
    {token : Token} (split : order = before ++ ⟨i, .remove table token, .removed true⟩ ::
      (between ++ ⟨j, .remove other token, .removed true⟩ :: after)) : False := by
  have first : Active (happenings before) token table := (legal before _ _ split).1 rfl
  have whole : order = (before ++ ⟨i, .remove table token, .removed true⟩ :: between) ++
      ⟨j, .remove other token, .removed true⟩ :: after := by
    rw [split, List.append_assoc]
    rfl
  have second : Active (happenings (before ++ ⟨i, .remove table token, .removed true⟩ :: between)) token other :=
    (legal _ _ _ whole).1 rfl
  have distinct : ((happenings (before ++ ⟨i, .remove table token, .removed true⟩ :: between)).filterMap tokenAdded).Nodup := by
    apply tokens_nodup
    intro earlier effect later same
    have longer : order = earlier ++ effect :: (later ++ ⟨j, .remove other token, .removed true⟩ :: after) := by
      rw [whole, same, List.append_assoc]
      rfl
    exact legal earlier effect _ longer
  obtain ⟨start, entry, rest, parts, its, -⟩ := active_split first
  obtain ⟨start', entry', rest', parts', its', unremoved⟩ := active_split second
  have also : happenings (before ++ ⟨i, .remove table token, .removed true⟩ :: between) =
      start ++ .added token entry :: (rest ++ .removed table token :: happenings between) := by
    rw [happenings_append, parts, List.append_assoc]
    rfl
  obtain ⟨rfl, rfl⟩ := added_unique distinct also parts'
  rw [← its', its] at unremoved
  exact unremoved (List.mem_append_right _ List.mem_cons_self)

theorem found_process (legal : Ordered Allowed order) {i j : Nat} {table other : Table} {token : Token}
    (one : ⟨i, .remove table token, .removed true⟩ ∈ order) (two : ⟨j, .remove other token, .removed true⟩ ∈ order) : i = j := by
  obtain ⟨before, after, split⟩ := List.append_of_mem one
  rw [split, List.mem_append, List.mem_cons] at two
  rcases two with earlier | same | later
  · obtain ⟨first, between, rfl⟩ := List.append_of_mem earlier
    rw [List.append_assoc] at split
    exact (found_once legal split).elim
  · exact (Effect.mk.inj same).1.symm
  · obtain ⟨between, last, rfl⟩ := List.append_of_mem later
    exact (found_once legal split).elim

theorem active_token {token : Token} {table : Table} (active : Active (happenings order) token table) :
    ∃ effect ∈ order, effect.result = .token token := by
  obtain ⟨first, entry, rest, parts, -, -⟩ := active_split active
  have member : .added token entry ∈ happenings order := parts ▸ List.mem_append_right _ List.mem_cons_self
  obtain ⟨effect, there, made⟩ := List.mem_filterMap.1 member
  exact ⟨effect, there, happening_token (by rw [made]; rfl)⟩

end Orders

/-! Every step keeps an order of the effects. -/

section Steps

/-- The call was made and has had no effect. -/
def Waiting (s : State ω) (order : List (Happened ω)) (i : Nat) (request : Request ω) : Prop :=
  .call i request ∈ s.history ∧ ∀ effect ∈ order, effect.process ≠ i

def Numbered (taken : Nat) (token : Token) : Prop := ∃ k < taken, token = UInt64.ofNat k

def Placed (s : State ω) (order : List (Happened ω)) (i : Nat) : Stage ω → Prop
  | .adding entry => Waiting s order i (.add entry)
  | .inserting entry token =>
      Waiting s order i (.add entry) ∧ Numbered s.taken token ∧ ∀ effect ∈ order, effect.result ≠ .token token
  | .removing table token => Waiting s order i (.remove table token)
  | .dropping table token found => apart table = true ∧ ⟨i, .remove table token, .removed found⟩ ∈ order
  | .returned => True

structure Sound (s : State ω) (order : List (Happened ω)) : Prop where
  linear : Linearizes Allowed s.history order
  shadows : Shadows s.router (Condemned s.threads) (happenings order)
  known : ∀ effect ∈ order, effect.process < s.threads.length
  calls : ∀ i request, .call i request ∈ s.history → i < s.threads.length
  single : ∀ i request other, .call i request ∈ s.history → .call i other ∈ s.history → request = other
  placed : ∀ i stage, s.threads[i]? = some stage → Placed s order i stage
  next : s.router.nextToken = UInt64.ofNat s.taken
  few : s.taken ≤ 2 ^ 64
  used : ∀ effect ∈ order, ∀ token, effect.result = .token token → Numbered s.taken token
  distinct : ∀ (i j : Nat) entry other token, s.threads[i]? = some (.inserting entry token) →
    s.threads[j]? = some (.inserting other token) → i = j

variable {s : State ω} {order : List (Happened ω)} {i : Nat}

theorem stage_set {threads : List (Stage ω)} {old : Stage ω} (there : threads[i]? = some old) (new : Stage ω) (j : Nat)
    (stage : Stage ω) : (threads.set i new)[j]? = some stage ↔ (j = i ∧ new = stage) ∨ (j ≠ i ∧ threads[j]? = some stage) := by
  have inside : i < threads.length := (List.getElem?_eq_some_iff.1 there).1
  rw [List.getElem?_set]
  by_cases same : i = j
  · subst same
    rw [if_pos rfl, if_pos inside]
    simp
  · rw [if_neg same]
    simp [Ne.symm same]

theorem condemned_set {threads : List (Stage ω)} {old : Stage ω} (there : threads[i]? = some old) (new : Stage ω) (table : Table)
    (token : Token) : Condemned (threads.set i new) table token ↔
      new = .dropping table token true ∨ ∃ j, j ≠ i ∧ threads[j]? = some (.dropping table token true) := by
  constructor
  · rintro ⟨j, found⟩
    rcases (stage_set there new j _).1 found with ⟨-, same⟩ | others
    · exact Or.inl same
    · exact Or.inr ⟨j, others⟩
  · rintro (same | ⟨j, others⟩)
    · exact ⟨i, (stage_set there new i _).2 (Or.inl ⟨rfl, same⟩)⟩
    · exact ⟨j, (stage_set there new j _).2 (Or.inr others)⟩

theorem condemned_same {threads : List (Stage ω)} {old : Stage ω} (there : threads[i]? = some old) (new : Stage ω)
    (before : ∀ table token, old ≠ .dropping table token true) (after : ∀ table token, new ≠ .dropping table token true)
    (table : Table) (token : Token) : Condemned (threads.set i new) table token ↔ Condemned threads table token := by
  rw [condemned_set there]
  constructor
  · rintro (same | ⟨j, -, found⟩)
    · exact absurd same (after table token)
    · exact ⟨j, found⟩
  · rintro ⟨j, found⟩
    refine Or.inr ⟨j, ?_, found⟩
    rintro rfl
    rw [there] at found
    exact before table token (Option.some_inj.1 found)

theorem Sound.uncondemned (sound : Sound s order) {token : Token} (unused : ∀ effect ∈ order, effect.result ≠ .token token)
    (table : Table) : ¬ Condemned s.threads table token := by
  rintro ⟨j, found⟩
  obtain ⟨-, member⟩ := sound.placed j _ found
  obtain ⟨before, after, split⟩ := List.append_of_mem member
  obtain ⟨effect, there, its⟩ := active_token ((sound.linear.legal before _ after split).1 rfl)
  exact unused effect (split ▸ List.mem_append_left _ there) its

theorem Placed.other {t : State ω} {more : List (Happened ω)} {j : Nat} {stage : Stage ω} (placed : Placed s order j stage)
    (longer : ∀ event ∈ s.history, event ∈ t.history) (taken : s.taken ≤ t.taken) (grows : ∀ effect ∈ order, effect ∈ more)
    (foreign : ∀ effect ∈ more, effect ∈ order ∨ (effect.process ≠ j ∧
      ∀ entry token, stage = .inserting entry token → effect.result ≠ .token token)) : Placed t more j stage := by
  have waits : ∀ {request : Request ω}, Waiting s order j request → Waiting t more j request := by
    rintro request ⟨called, none⟩
    exact ⟨longer _ called, fun effect member => (foreign effect member).elim (none effect) And.left⟩
  cases stage with
  | adding entry => exact waits placed
  | inserting entry token =>
    obtain ⟨waiting, ⟨k, below, number⟩, unused⟩ := placed
    refine ⟨waits waiting, ⟨k, Nat.lt_of_lt_of_le below taken, number⟩, fun effect member => ?_⟩
    exact (foreign effect member).elim (unused effect) (fun apart => apart.2 entry token rfl)
  | removing table token => exact waits placed
  | dropping table token found => exact ⟨placed.1, grows _ placed.2⟩
  | returned => trivial

theorem init_sound : Sound (.init : State ω) [] where
  linear := linearizes_nil
  shadows := by
    have empty : ∀ {η : Type} {hidden : Token → Prop}, Hides hidden (none : Option (Token × η)) none := by
      intro η hidden token value
      constructor
      · intro found
        cases found
      · rintro ⟨found, -⟩
        cases found
    exact ⟨fun _ => empty, fun _ => rfl, fun _ => empty, rfl⟩
  known := List.forall_mem_nil _
  calls _ _ member := absurd member List.not_mem_nil
  single _ _ _ member := absurd member List.not_mem_nil
  placed _ _ found := by cases found
  next := rfl
  few := Nat.zero_le _
  used := List.forall_mem_nil _
  distinct _ _ _ _ _ found := by cases found

theorem call_sound (sound : Sound s order) (request : Request ω) : Sound (call s request) order := by
  have fresh : ∀ effect ∈ order, effect.process ≠ s.threads.length := fun effect member => Nat.ne_of_lt (sound.known effect member)
  have stages : ∀ {j : Nat} {stage : Stage ω}, (s.threads ++ [start request])[j]? = some stage →
      s.threads[j]? = some stage ∨ (j = s.threads.length ∧ stage = start request) := by
    intro j stage found
    rcases Nat.lt_trichotomy j s.threads.length with below | same | above
    · rw [List.getElem?_append_left below] at found
      exact Or.inl found
    · subst same
      rw [List.getElem?_concat_length] at found
      exact Or.inr ⟨rfl, (Option.some_inj.1 found).symm⟩
    · rw [List.getElem?_eq_none (by rw [List.length_append]; exact above)] at found
      cases found
  have old : ∀ {j : Nat} {stage : Stage ω}, s.threads[j]? = some stage → (s.threads ++ [start request])[j]? = some stage := by
    intro j stage found
    rw [List.getElem?_append_left (List.getElem?_eq_some_iff.1 found).1]
    exact found
  have started : ∀ table token, start request ≠ .dropping table token true := by
    intro table token same
    cases request <;> cases same
  have condemned : ∀ table token, Condemned (s.threads ++ [start request]) table token ↔ Condemned s.threads table token := by
    intro table token
    constructor
    · rintro ⟨j, found⟩
      rcases stages found with there | ⟨-, same⟩
      · exact ⟨j, there⟩
      · exact absurd same.symm (started table token)
    · rintro ⟨j, found⟩
      exact ⟨j, old found⟩
  constructor
  · exact sound.linear.call fresh request
  · exact sound.shadows.congr condemned
  · intro effect member
    show effect.process < (s.threads ++ [start request]).length
    rw [List.length_append]
    exact Nat.lt_succ_of_lt (sound.known effect member)
  · intro j other member
    show j < (s.threads ++ [start request]).length
    rw [List.length_append]
    rcases List.mem_append.1 member with there | new
    · exact Nat.lt_succ_of_lt (sound.calls j other there)
    · cases List.mem_singleton.1 new
      exact Nat.lt_succ_self _
  · intro j first second one two
    rcases List.mem_append.1 one with there | new <;> rcases List.mem_append.1 two with also | last
    · exact sound.single j first second there also
    · cases List.mem_singleton.1 last
      exact absurd (sound.calls _ _ there) (Nat.lt_irrefl _)
    · cases List.mem_singleton.1 new
      exact absurd (sound.calls _ _ also) (Nat.lt_irrefl _)
    · cases List.mem_singleton.1 new
      cases List.mem_singleton.1 last
      rfl
  · intro j stage found
    rcases stages found with there | ⟨rfl, rfl⟩
    · exact (sound.placed j stage there).other (fun event member => List.mem_append_left _ member) (Nat.le_refl _)
        (fun _ member => member) (fun _ member => Or.inl member)
    · have waiting : Waiting (call s request) order s.threads.length request :=
        ⟨List.mem_append_right _ List.mem_cons_self, fresh⟩
      cases request <;> exact waiting
  · exact sound.next
  · exact sound.few
  · exact sound.used
  · intro j k entry other token one two
    have inserting : ∀ {j : Nat} {entry : Entry ω}, (s.threads ++ [start request])[j]? = some (.inserting entry token) →
        s.threads[j]? = some (.inserting entry token) := by
      intro j entry found
      rcases stages found with there | ⟨-, same⟩
      · exact there
      · cases request <;> cases same
    exact sound.distinct j k entry other token (inserting one) (inserting two)

theorem Numbered.ne_next {taken : Nat} {token : Token} (numbered : Numbered taken token) (few : taken < 2 ^ 64) :
    token ≠ UInt64.ofNat taken := by
  obtain ⟨k, below, rfl⟩ := numbered
  intro same
  have equal := congrArg UInt64.toNat same
  rw [UInt64.toNat_ofNat', UInt64.toNat_ofNat'] at equal
  omega

theorem Numbered.succ {taken : Nat} {token : Token} (numbered : Numbered taken token) : Numbered (taken + 1) token := by
  obtain ⟨k, below, same⟩ := numbered
  exact ⟨k, Nat.lt_succ_of_lt below, same⟩

theorem takeToken_sound (sound : Sound s order) {entry : Entry ω} (there : s.threads[i]? = some (.adding entry))
    (few : s.taken < 2 ^ 64) : Sound (takeToken s i entry) order := by
  have set := stage_set there (.inserting entry s.router.nextToken)
  have fresh : ∀ {token}, Numbered s.taken token → token ≠ s.router.nextToken := by
    intro token numbered
    rw [sound.next]
    exact numbered.ne_next few
  constructor
  · exact sound.linear
  · have same := condemned_same there (.inserting entry s.router.nextToken) (fun _ _ same => by cases same)
      (fun _ _ same => by cases same)
    exact ⟨(sound.shadows.congr same).rpc, sound.shadows.event, (sound.shadows.congr same).stream, sound.shadows.middlewares⟩
  · intro effect member
    show effect.process < (s.threads.set i _).length
    rw [List.length_set]
    exact sound.known effect member
  · intro j request member
    show j < (s.threads.set i _).length
    rw [List.length_set]
    exact sound.calls j request member
  · exact sound.single
  · intro j stage found
    rcases (set j stage).1 found with ⟨rfl, rfl⟩ | ⟨-, old⟩
    · refine ⟨sound.placed j _ there, ⟨s.taken, Nat.lt_succ_self _, sound.next⟩, fun effect member same => ?_⟩
      exact fresh (sound.used effect member _ same) rfl
    · exact (sound.placed j stage old).other (fun _ member => member) (Nat.le_succ _) (fun _ member => member)
        (fun _ member => Or.inl member)
  · show s.router.nextToken + 1 = UInt64.ofNat (s.taken + 1)
    rw [sound.next, UInt64.ofNat_add]
    rfl
  · exact few
  · exact fun effect member token same => (sound.used effect member token same).succ
  · intro j k first second token one two
    rcases (set j _).1 one with ⟨rfl, same⟩ | ⟨-, old⟩ <;> rcases (set k _).1 two with ⟨rfl, also⟩ | ⟨-, other⟩
    · rfl
    · cases same
      exact absurd rfl (fresh (sound.placed k _ other).2.1)
    · cases also
      exact absurd rfl (fresh (sound.placed j _ old).2.1)
    · exact sound.distinct j k first second token old other

/-- A thread takes a section that hands out no token, with effects of its own and with
returns only. -/
theorem Sound.advance {t : State ω} {old new : Stage ω} {effects : List (Happened ω)}
    {returns : List (Event Nat (Request ω) Answer)} (sound : Sound s order) (there : s.threads[i]? = some old)
    (threads : t.threads = s.threads.set i new) (history : t.history = s.history ++ returns)
    (uncalled : ∀ j request, .call j request ∉ returns) (linear : Linearizes Allowed t.history (order ++ effects))
    (shadows : Shadows t.router (Condemned t.threads) (happenings (order ++ effects)))
    (own : ∀ effect ∈ effects, effect.process = i)
    (tokens : ∀ effect ∈ effects, ∀ token, effect.result = .token token → ∃ entry, old = .inserting entry token)
    (place : Placed t (order ++ effects) i new) (settled : ∀ entry token, new ≠ .inserting entry token)
    (next : t.router.nextToken = s.router.nextToken) (taken : t.taken = s.taken) : Sound t (order ++ effects) := by
  have inside : i < s.threads.length := (List.getElem?_eq_some_iff.1 there).1
  have set := stage_set there new
  have called : ∀ {j request}, .call j request ∈ t.history → .call j request ∈ s.history := by
    intro j request member
    rw [history] at member
    exact (List.mem_append.1 member).resolve_right (uncalled j request)
  constructor
  · exact linear
  · exact shadows
  · intro effect member
    rw [threads, List.length_set]
    rcases List.mem_append.1 member with earlier | new
    · exact sound.known effect earlier
    · rw [own effect new]
      exact inside
  · intro j request member
    rw [threads, List.length_set]
    exact sound.calls j request (called member)
  · exact fun j first second one two => sound.single j first second (called one) (called two)
  · intro j stage found
    rw [threads] at found
    rcases (set j stage).1 found with ⟨rfl, rfl⟩ | ⟨apart, other⟩
    · exact place
    · refine (sound.placed j stage other).other (fun event member => history ▸ List.mem_append_left _ member)
        (Nat.le_of_eq taken.symm) (fun effect member => List.mem_append_left _ member) (fun effect member => ?_)
      rcases List.mem_append.1 member with earlier | new
      · exact Or.inl earlier
      · refine Or.inr ⟨fun same => apart (same.symm.trans (own effect new)), ?_⟩
        rintro entry token rfl same
        obtain ⟨kept, rfl⟩ := tokens effect new token same
        exact apart (sound.distinct j i entry kept token other there)
  · rw [next, taken]
    exact sound.next
  · rw [taken]
    exact sound.few
  · intro effect member token same
    rw [taken]
    rcases List.mem_append.1 member with earlier | new
    · exact sound.used effect earlier token same
    · obtain ⟨entry, rfl⟩ := tokens effect new token same
      exact (sound.placed i _ there).2.1
  · intro j k first second token one two
    rw [threads] at one two
    rcases (set j _).1 one with ⟨-, same⟩ | ⟨-, here⟩
    · exact absurd same (settled first token)
    · rcases (set k _).1 two with ⟨-, same⟩ | ⟨-, also⟩
      · exact absurd same (settled second token)
      · exact sound.distinct j k first second token here also

theorem insertEntry_sound (sound : Sound s order) {entry : Entry ω} {token : Token}
    (there : s.threads[i]? = some (.inserting entry token)) :
    Sound (insertEntry s i entry token) (order ++ [⟨i, .add entry, .token token⟩]) := by
  obtain ⟨⟨called, fresh⟩, -, unused⟩ := sound.placed i _ there
  have allows : Allowed order ⟨i, .add entry, .token token⟩ := unused
  have same := condemned_same there .returned (fun _ _ same => by cases same) (fun _ _ same => by cases same)
  refine sound.advance there rfl rfl (fun _ _ member => ?_)
    ((sound.linear.effect fresh called allows).ret (List.mem_append_right _ List.mem_cons_self)) ?_ ?_ ?_ trivial
    (fun _ _ same => by cases same) ?_ rfl
  · cases List.mem_singleton.1 member
  · rw [happenings_append]
    exact (sound.shadows.insert (sound.uncondemned unused) entry).congr same
  · intro effect member
    rw [List.mem_singleton.1 member]
  · intro effect member other its
    rw [List.mem_singleton.1 member] at its
    cases its
    exact ⟨entry, rfl⟩
  · cases entry <;> rfl

theorem look_sound (sound : Sound s order) {table : Table} {token : Token} (there : s.threads[i]? = some (.removing table token))
    (two : apart table = true) (careful : Holds s.router token table → ¬ Condemned s.threads table token) :
    Sound (look s i table token) (order ++ [⟨i, .remove table token, .removed (remove s.router token table).1⟩]) := by
  obtain ⟨called, fresh⟩ := sound.placed i _ there
  have set := condemned_set there (.dropping table token (remove s.router token table).1)
  have allows : Allowed order ⟨i, .remove table token, .removed (remove s.router token table).1⟩ := by
    show (remove s.router token table).1 = true ↔ _
    rw [remove_holds, sound.shadows.active]
    exact ⟨fun held => ⟨held, fun _ => careful held⟩, And.left⟩
  refine sound.advance there rfl (List.append_nil _).symm (fun _ _ => List.not_mem_nil) (sound.linear.effect fresh called allows)
    ?_ ?_ ?_ ⟨two, List.mem_append_right _ List.mem_cons_self⟩ (fun _ _ same => by cases same) rfl rfl
  · rw [happenings_append]
    refine sound.shadows.look two ?_ ?_ ?_
    · rintro other kept ⟨j, found⟩
      refine (set other kept).2 (Or.inr ⟨j, ?_, found⟩)
      rintro rfl
      rw [there] at found
      cases found
    · intro other kept gone
      rcases (set other kept).1 gone with same | ⟨j, -, found⟩
      · exact Or.inr ⟨(Stage.dropping.inj same).1.symm, (Stage.dropping.inj same).2.1.symm⟩
      · exact Or.inl ⟨j, found⟩
    · intro held
      rw [← remove_holds] at held
      exact (set table token).2 (Or.inl (by rw [held]))
  · intro effect member
    rw [List.mem_singleton.1 member]
  · intro effect member other its
    rw [List.mem_singleton.1 member] at its
    cases its

theorem remove_nextToken (router : Router ω) (token : Token) (table : Table) :
    (remove router token table).2.nextToken = router.nextToken := by
  cases table <;> rfl

theorem remove_sound (sound : Sound s order) {table : Table} {token : Token} (there : s.threads[i]? = some (.removing table token))
    (one : apart table = false) : Sound (drop s i table token (remove s.router token table).1)
      (order ++ [⟨i, .remove table token, .removed (remove s.router token table).1⟩]) := by
  obtain ⟨called, fresh⟩ := sound.placed i _ there
  have allows : Allowed order ⟨i, .remove table token, .removed (remove s.router token table).1⟩ := by
    show (remove s.router token table).1 = true ↔ _
    rw [remove_holds, sound.shadows.active, one]
    exact ⟨fun held => ⟨held, fun impossible => by cases impossible⟩, And.left⟩
  have same := condemned_same there .returned (fun _ _ same => by cases same) (fun _ _ same => by cases same)
  refine sound.advance there rfl rfl (fun _ _ member => ?_)
    ((sound.linear.effect fresh called allows).ret (List.mem_append_right _ List.mem_cons_self)) ?_ ?_ ?_ trivial
    (fun _ _ same => by cases same) (remove_nextToken ..) rfl
  · cases List.mem_singleton.1 member
  · rw [happenings_append]
    exact (sound.shadows.remove one token).congr same
  · intro effect member
    rw [List.mem_singleton.1 member]
  · intro effect member other its
    rw [List.mem_singleton.1 member] at its
    cases its

theorem drop_sound (sound : Sound s order) {table : Table} {token : Token} {found : Bool}
    (there : s.threads[i]? = some (.dropping table token found)) (careful : found = false → ¬ Holds s.router token table) :
    Sound (drop s i table token found) order := by
  obtain ⟨two, had⟩ := sound.placed i _ there
  have set := condemned_set there .returned
  have gone : ¬ Active (happenings order) token table := by
    rw [sound.shadows.active]
    rintro ⟨held, unhidden⟩
    cases found with
    | true => exact unhidden two ⟨i, there⟩
    | false => exact careful rfl held
  have moved : Sound (drop s i table token found) (order ++ []) := by
    refine sound.advance there rfl rfl (fun _ _ member => ?_) ?_ ?_ (List.forall_mem_nil _) (List.forall_mem_nil _) trivial
      (fun _ _ same => by cases same) (remove_nextToken ..) rfl
    · cases List.mem_singleton.1 member
    · rw [List.append_nil]
      exact sound.linear.ret had
    · rw [List.append_nil]
      refine sound.shadows.drop two ?_ ?_ gone
      · intro other kept condemned
        rcases (set other kept).1 condemned with same | ⟨j, -, found⟩
        · cases same
        · exact ⟨j, found⟩
      · rintro other kept ⟨j, condemned⟩
        by_cases same : j = i
        · subst same
          rw [there] at condemned
          cases condemned
          exact Or.inr ⟨rfl, rfl⟩
        · exact Or.inl ((set other kept).2 (Or.inr ⟨j, same, condemned⟩))
  rw [List.append_nil] at moved
  exact moved

theorem step_sound (s : State ω) (label : Label ω) (t : State ω) (sound : ∃ order, Sound s order) (careful : Careful s label)
    (stepped : step s label = some t) : ∃ order, Sound t order := by
  obtain ⟨order, sound⟩ := sound
  cases label with
  | call request =>
    cases stepped
    exact ⟨order, call_sound sound request⟩
  | advance i =>
    simp only [step] at stepped
    simp only [Careful] at careful
    cases there : s.threads[i]? with
    | none =>
      rw [there] at stepped
      cases stepped
    | some stage =>
      rw [there] at stepped careful
      cases stage with
      | adding entry =>
        cases stepped
        exact ⟨order, takeToken_sound sound there careful⟩
      | inserting entry token =>
        cases stepped
        exact ⟨_, insertEntry_sound sound there⟩
      | removing table token =>
        dsimp only at stepped
        by_cases two : apart table = true
        · rw [if_pos two] at stepped
          cases stepped
          exact ⟨_, look_sound sound there two careful⟩
        · rw [if_neg two] at stepped
          cases stepped
          exact ⟨_, remove_sound sound there (Bool.eq_false_of_not_eq_true two)⟩
      | dropping table token found =>
        cases stepped
        cases found with
        | true => exact ⟨order, drop_sound sound there (fun impossible => by cases impossible)⟩
        | false => exact ⟨order, drop_sound sound there (fun _ => careful)⟩
      | returned => cases stepped

theorem Sound.once (sound : Sound s order) : Once s.history := by
  have effect : ∀ {i : Nat} {table : Table} {token : Token}, .call i (.remove table token) ∈ s.history →
      .ret i (.removed true) ∈ s.history → ⟨i, .remove table token, .removed true⟩ ∈ order := by
    intro i table token called returned
    obtain ⟨⟨process, operation, result⟩, member, its, told⟩ := sound.linear.returned _ _ returned
    dsimp only at its told
    subst its told
    have same := sound.single _ _ _ called (sound.linear.called _ member)
    dsimp only at same
    rw [same]
    exact member
  intro i j table other token called returned also again
  exact found_process sound.linear.legal (effect called returned) (effect also again)

end Steps

/-- Where all steps are careful, the calls have their effects in one order that the
sequential specification allows, and no token is found twice. -/
theorem linear_of_careful (labels : List (Label ω)) (careful : Guarded step Careful .init labels) :
    Always step (fun s : State ω => Linearizable Allowed s.history ∧ Once s.history) .init labels := by
  have sound : Always step (fun s : State ω => ∃ order, Sound s order) .init labels :=
    guarded_always step_sound ⟨[], init_sound⟩ careful
  refine sound.mono ?_
  rintro s ⟨order, sound⟩
  exact ⟨⟨order, sound.linear⟩, sound.once⟩

private def ping : RpcHandler Unit := ⟨"ping", fun _ data => pure (.ok data)⟩

private def removing : List (Label Unit) :=
  [.call (.add (.rpc ping)), .call (.remove .rpc 0), .advance 0, .advance 0, .advance 1, .advance 1]

theorem linear_of_careful_removing :
    Always step (fun s : State Unit => Linearizable Allowed s.history ∧ Once s.history) .init removing := by
  apply linear_of_careful
  refine Guarded.cons rfl trivial (Guarded.cons rfl trivial (Guarded.cons rfl (Nat.two_pow_pos 64) (Guarded.cons rfl trivial
    (Guarded.cons rfl ?_ (Guarded.cons rfl trivial trivial)))))
  rintro - ⟨i, found⟩
  rcases i with _ | _ | i <;> cases found

/-- Both removals look before either removes. -/
private def racing : List (Label Unit) :=
  [.call (.add (.rpc ping)), .advance 0, .advance 0, .call (.remove .rpc 0), .call (.remove .rpc 0),
    .advance 1, .advance 2, .advance 1, .advance 2]

theorem found_twice :
    ¬ ∀ labels, Always step (fun s : State Unit => Linearizable Allowed s.history ∧ Once s.history) .init labels := by
  intro all
  obtain ⟨s, ran⟩ : ∃ s, run step (.init : State Unit) racing = some s := ⟨_, rfl⟩
  have once := ((all racing).last ran).2
  have history : s.history = [.call 0 (.add (.rpc ping)), .ret 0 (.token 0), .call 1 (.remove .rpc 0), .call 2 (.remove .rpc 0),
      .ret 1 (.removed true), .ret 2 (.removed true)] := by
    cases ran
    rfl
  rw [history] at once
  have same : 1 = 2 := once 1 2 .rpc .rpc 0 (List.mem_of_getElem? (i := 2) rfl) (List.mem_of_getElem? (i := 4) rfl)
    (List.mem_of_getElem? (i := 3) rfl) (List.mem_of_getElem? (i := 5) rfl)
  cases same

end EchoStream.Core.RegistryRaces
