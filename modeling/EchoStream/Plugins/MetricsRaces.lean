import EchoStream.Plugins.Metrics

/-! The metrics of messages that are dispatched all at once. Each dispatch is a task of its
own, and the sections of all of them run in any order. Before the middleware records it, a
task leaves the registry as it is, and afterwards, too, so that the registry always tells
of the tasks that are past that section. -/

namespace EchoStream.Plugins.MetricsRaces
open Foundation.Run Foundation.Tasks
open Proto.Messages Proto.Postcard
open Core.Handler Core.Chain Core.Dispatch
open Metrics

variable {ρ : Type} {micros : App (Metered ρ) → Nat} {router : Router (Metered ρ)} {inner : List (Middleware (Metered ρ))}
variable {clock : Clock (Metered ρ)} {session : SessionId}

def Leaves (update : World (Metered ρ) → World (Metered ρ)) : Prop := Spared update ∧ Silent update

theorem leaves_of {α : Type} {task : Task (World (Metered ρ)) α} (spares : task.Obeys Spared) (silent : task.Obeys Silent) :
    task.Obeys Leaves := by
  induction task with
  | done value => trivial
  | step update next ih => exact ⟨⟨spares.1, silent.1⟩, fun world => ih world (spares.2 world) (silent.2 world)⟩

theorem onApp_silent {ω α : Type} (task : Task (App ω) α) : (onApp task).Obeys Silent :=
  (Task.Obeys.any task).zoom (fun _ _ _ => rfl)

theorem handleEvent_silent {ω : Type} (session : SessionId) (event : EventMsg) (entries : List (Token × EventHandler ω)) :
    (handleEvent session event entries).Obeys Silent := by
  induction entries with
  | nil => trivial
  | cons entry rest ih => exact (note_silent _).bind (fun _ => (onApp_silent _).bind (fun _ => ih))

theorem eventTerminal_silent {ω : Type} (router : Router ω) (session : SessionId) (msg : Message) :
    (eventTerminal router session msg).Obeys Silent := by
  apply Task.Obeys.bind (note_silent _)
  intro _
  cases msg with
  | event e => exact (handleEvent_silent session e _).bind (fun _ => trivial)
  | _ => trivial

theorem streamTerminal_silent {ω : Type} (router : Router ω) (session : SessionId) (slot : Nat) (first : StreamMsg)
    (msg : Message) : (streamTerminal router session slot first msg).Obeys Silent := by
  apply Task.Obeys.bind (note_silent _)
  intro _
  cases msg with
  | streamOpen opened =>
    have takes : (takeReceiver slot : Task (World ω) (Option FrameIo)).Obeys Silent := ⟨fun _ => rfl, fun _ => trivial⟩
    apply Task.Obeys.bind takes
    intro taken
    cases taken with
    | none => trivial
    | some recv =>
      cases router.stream.lookup opened.name with
      | none => trivial
      | some entry =>
        refine Task.Obeys.bind ((note_silent _).bind (fun _ => onApp_silent _)) ?_
        intro result
        cases result <;> trivial
  | _ => trivial

theorem inner_leaves (outermost : Outermost micros router inner) {terminal : Callee (Metered ρ)}
    (ends : ∀ msg, (terminal msg).Obeys Leaves) (msg : Message) : (onion clock session inner terminal msg).Obeys Leaves := by
  refine onion_keeps (fun update keeps => ⟨fun world => keeps world.app, fun _ => rfl⟩) ?_ ends
    (fun mw member => outermost.others mw member session) msg
  intro limit update leaves
  constructor
  · intro world
    change (if clock limit world = true then world else update world).app.rest.registry = _
    split
    · rfl
    · exact leaves.1 world
  · intro world
    change (if clock limit world = true then world else update world).written = _
    split
    · rfl
    · exact leaves.2 world

/-- The section in which the middleware records a message. -/
def recording (micros : App (Metered ρ) → Nat) (msg : Message) (start : Nat) (result : Outcome)
    (world : World (Metered ρ)) : World (Metered ρ) :=
  world.setApp (setRegistry (record msg (micros world.app - start) result) world.app)

/-- The task records the message once, whatever others do in between, and then goes on with
what `close` says of the result. -/
def Counting (micros : App (Metered ρ) → Nat) (msg : Message) (close : Outcome → Task (World (Metered ρ)) Unit) :
    Task (World (Metered ρ)) Unit → Prop
  | .done _ => False
  | .step update next => (Leaves update ∧ ∀ world, Counting micros msg close (next world)) ∨
      ∃ start result, update = recording micros msg start result ∧ ∀ world, next world = close result

variable {msg : Message} {close : Outcome → Task (World (Metered ρ)) Unit}

theorem counting_bind {task : Task (World (Metered ρ)) Outcome} (leaves : task.Obeys Leaves)
    {rest : Outcome → Task (World (Metered ρ)) Unit} (counts : ∀ result, Counting micros msg close (rest result)) :
    Counting micros msg close (task >>= rest) := by
  induction task with
  | done result => exact counts result
  | step update next ih => exact Or.inl ⟨leaves.1, fun world => ih world (leaves.2 world)⟩

theorem chain_counting (outermost : Outermost micros router inner) {terminal : Callee (Metered ρ)}
    (ends : ∀ msg, (terminal msg).Obeys Leaves) :
    Counting micros msg close (runChain clock router session msg terminal >>= close) := by
  rw [runChain_eq_onion, outermost.middlewares, onion_cons]
  refine Or.inl ⟨⟨fun _ => rfl, fun _ => rfl⟩, fun world => ?_⟩
  change Counting micros msg close ((onion clock session inner terminal msg >>= fun result =>
    Task.step (recording micros msg (micros world.app) result) (fun _ => .done result)) >>= close)
  rw [bind_assoc]
  exact counting_bind (inner_leaves outermost ends msg) (fun result => Or.inr ⟨_, result, rfl, fun _ => rfl⟩)

def messageOf : Arrival → Option Message
  | .rpc _ _ msg => some (.request msg)
  | .event _ msg => some (.event msg)
  | .datagram _ (.event msg) => some (.event msg)
  | _ => .none

/-- The rest of a dispatch when the chain has returned. -/
def closing : Arrival → Outcome → Task (World (Metered ρ)) Unit
  | .rpc _ stream msg, result => .act (World.write stream (.response (responseOf msg.id result)))
  | _, _ => .done ()

theorem dispatch_counting (outermost : Outermost micros router inner) {arrival : Arrival} (counted : messageOf arrival = some msg) :
    Counting micros msg (closing arrival) (dispatch clock router arrival) := by
  have requests : ∀ session msg, (rpcTerminal router session msg).Obeys Leaves :=
    fun session msg => leaves_of (rpcTerminal_spares outermost session msg) (rpcTerminal_silent router session msg)
  have events : ∀ session msg, (eventTerminal router session msg).Obeys Leaves :=
    fun session msg => leaves_of (eventTerminal_spares outermost session msg) (eventTerminal_silent router session msg)
  cases arrival with
  | rpc session stream req =>
    cases counted
    exact chain_counting outermost (requests session)
  | event session event =>
    cases counted
    exact chain_counting outermost (events session)
  | stream session recv opened => cases counted
  | datagram session msg =>
    cases msg with
    | event event =>
      cases counted
      exact chain_counting outermost (events session)
    | _ => cases counted

theorem still : Leaves (fun world : World (Metered ρ) => world) := ⟨fun _ => rfl, fun _ => rfl⟩

theorem firstFrame_leaves (id : UInt64) (recv : FrameIo) : (firstFrame id recv).Obeys (Leaves (ρ := ρ)) := by
  induction recv with
  | nil => trivial
  | cons result recv ih =>
    refine ⟨still, fun world => ?_⟩
    rcases result with e | msg
    · trivial
    · cases msg with
      | none => trivial
      | some msg =>
        cases msg with
        | stream frame =>
          show Task.Obeys Leaves (if frame.id = id then _ else _)
          split
          · trivial
          · exact ih
        | streamEnd ended =>
          show Task.Obeys Leaves (if ended.id = id then _ else _)
          split
          · trivial
          · exact ih
        | _ => exact ih

theorem dispatchStream_leaves (outermost : Outermost micros router inner) (recv : FrameIo) (opened : StreamOpenMsg) :
    (dispatchStream clock router session recv opened).Obeys Leaves := by
  apply Task.Obeys.bind (firstFrame_leaves opened.id recv)
  intro found
  cases found with
  | none => trivial
  | some found =>
    obtain ⟨first, rest⟩ := found
    have keeps : (keepReceiver rest : Task (World (Metered ρ)) Nat).Obeys Leaves := ⟨⟨fun _ => rfl, fun _ => rfl⟩, fun _ => trivial⟩
    apply Task.Obeys.bind keeps
    intro slot
    refine Task.Obeys.bind ?_ (fun _ => trivial)
    have ends : ∀ msg, (streamTerminal router session slot first msg).Obeys Leaves :=
      fun msg => leaves_of (streamTerminal_spares outermost session slot first msg) (streamTerminal_silent router session slot first msg)
    rw [runChain_eq_onion, outermost.middlewares, onion_cons]
    refine ⟨⟨fun _ => rfl, fun _ => rfl⟩, fun world => ?_⟩
    refine Task.Obeys.bind (inner_leaves outermost ends (.streamOpen opened)) (fun result => ?_)
    exact ⟨⟨fun _ => rfl, fun _ => rfl⟩, fun _ => trivial⟩

theorem dispatch_leaves (outermost : Outermost micros router inner) {arrival : Arrival} (uncounted : messageOf arrival = .none) :
    (dispatch clock router arrival).Obeys Leaves := by
  cases arrival with
  | rpc session stream req => cases uncounted
  | event session event => cases uncounted
  | stream session recv opened => exact dispatchStream_leaves outermost recv opened
  | datagram session msg =>
    cases msg with
    | event event => cases uncounted
    | _ => trivial

/-! The books: for each task what it was launched for, and what it has recorded. -/

abbrev Book := Arrival × Option Outcome

def called (name : String) (book : Book) : Bool := isRequest name book.1 && book.2.isSome

def failed (name : String) (book : Book) : Bool := isRequest name book.1 && book.2.any isErr

def heard (book : Book) : Bool := isEvent book.1 && book.2.isSome

def answerOf : Arrival → Outcome → List (Nat × Message)
  | .rpc _ stream msg, result => [(stream, .response (responseOf msg.id result))]
  | _, _ => []

inductive Stage (micros : App (Metered ρ) → Nat) (written : List (Nat × Message)) :
    Book → Task (World (Metered ρ)) Unit → Prop where
  | idle {arrival : Arrival} {task : Task (World (Metered ρ)) Unit} : messageOf arrival = .none → task.Obeys Leaves →
      Stage micros written (arrival, .none) task
  | before {arrival : Arrival} {msg : Message} {task : Task (World (Metered ρ)) Unit} : messageOf arrival = some msg →
      Counting micros msg (closing arrival) task → Stage micros written (arrival, .none) task
  | after {arrival : Arrival} {result : Outcome} {task : Task (World (Metered ρ)) Unit} : task = closing arrival result →
      Stage micros written (arrival, some result) task
  | told {arrival : Arrival} {result : Outcome} : answerOf arrival result ⊆ written →
      Stage micros written (arrival, some result) (.done ())

theorem Stage.later {written later : List (Nat × Message)} (grown : written ⊆ later) {book : Book}
    {task : Task (World (Metered ρ)) Unit} (stage : Stage micros written book task) : Stage micros later book task := by
  cases stage with
  | idle uncounted leaves => exact .idle uncounted leaves
  | before counted counting => exact .before counted counting
  | after closes => exact .after closes
  | told there => exact .told (fun _ member => grown (there member))

structure Agrees (registry : MetricsRegistry) (books : List Book) : Prop where
  calls : ∀ name, registry.callsOf name = books.countP (called name)
  errors : ∀ name, registry.errorsOf name = books.countP (failed name)
  events : registry.eventsTotal = books.countP heard
  tight : registry.Tight

structure Kept (micros : App (Metered ρ) → Nat) (pool : Pool (World (Metered ρ))) (books : List Book) : Prop where
  length : pool.tasks.length = books.length
  stages : ∀ (i : Nat) task book, pool.tasks[i]? = some task → books[i]? = some book →
    Stage micros pool.shared.written book task
  agrees : Agrees pool.shared.app.rest.registry books

theorem start_stage (outermost : Outermost micros router inner) (arrival : Arrival) (written : List (Nat × Message)) :
    Stage micros written (arrival, .none) (dispatch clock router arrival) := by
  cases counted : messageOf arrival with
  | none => exact .idle counted (dispatch_leaves outermost counted)
  | some msg => exact .before counted (dispatch_counting outermost counted)

theorem record_counted {arrival : Arrival} (counted : messageOf arrival = some msg) (elapsed : Nat) (result : Outcome)
    (registry : MetricsRegistry) : Counted registry (record msg elapsed result registry) arrival (isErr result) := by
  cases arrival with
  | rpc session stream req =>
    cases counted
    have named : ∀ name, (isRequest name (.rpc session stream req) = true) = (name = req.name) := by
      intro name
      rw [isRequest, beq_iff_eq]
      exact propext eq_comm
    refine ⟨fun name => ?_, fun name => ?_, rfl, rfl, fun tight => MetricsRegistry.call_tight tight _ _ _⟩
    · rw [record, MetricsRegistry.callsOf_call]
      simp only [named]
    · rw [record, MetricsRegistry.errorsOf_call]
      simp only [named]
  | event session event =>
    cases counted
    exact counted_event (fun _ => rfl) rfl
  | stream session recv opened => cases counted
  | datagram session inside =>
    cases inside with
    | event event =>
      cases counted
      exact counted_event (fun _ => rfl) rfl
    | _ => cases counted

theorem countP_fill {holds : Book → Bool} {books : List Book} {i : Nat} {arrival : Arrival} (here : books[i]? = some (arrival, .none))
    (unheld : holds (arrival, .none) = false) (result : Outcome) :
    (books.set i (arrival, some result)).countP holds =
      books.countP holds + if holds (arrival, some result) = true then 1 else 0 := by
  obtain ⟨within, there⟩ := List.getElem?_eq_some_iff.1 here
  rw [List.countP_set within, there, unheld, if_neg Bool.false_ne_true, Nat.sub_zero]

theorem Agrees.fill {registry : MetricsRegistry} {books : List Book} (agrees : Agrees registry books) {i : Nat} {arrival : Arrival}
    (here : books[i]? = some (arrival, .none)) (counted : messageOf arrival = some msg) (elapsed : Nat) (result : Outcome) :
    Agrees (record msg elapsed result registry) (books.set i (arrival, some result)) := by
  have one := record_counted counted elapsed result registry
  refine ⟨fun name => ?_, fun name => ?_, ?_, one.tight agrees.tight⟩
  · rw [one.calls, agrees.calls, countP_fill here (Bool.and_false _)]
    simp [called]
  · rw [one.errors, agrees.errors, countP_fill here (Bool.and_false _)]
    simp [failed]
  · rw [one.events, agrees.events, countP_fill here (Bool.and_false _)]
    simp [heard]

variable {pool next : Pool (World (Metered ρ))} {books : List Book}

theorem Kept.advance (kept : Kept micros pool books) (i : Nat) {shared : World (Metered ρ)} {task : Task (World (Metered ρ)) Unit}
    {book : Book} (grown : pool.shared.written ⊆ shared.written) (stage : Stage micros shared.written book task)
    (agrees : Agrees shared.app.rest.registry (books.set i book)) :
    Kept micros ⟨shared, pool.tasks.set i task⟩ (books.set i book) := by
  refine ⟨by rw [List.length_set, List.length_set, kept.length], fun j other at_j found there => ?_, agrees⟩
  by_cases same : i = j
  · subst same
    obtain ⟨within, rfl⟩ := List.getElem?_eq_some_iff.1 found
    obtain ⟨inside, rfl⟩ := List.getElem?_eq_some_iff.1 there
    rw [List.getElem_set_self, List.getElem_set_self]
    exact stage
  · rw [List.getElem?_set_ne same] at found there
    exact (kept.stages j other at_j found there).later grown

theorem set_self {α : Type} {entries : List α} {i : Nat} {entry : α} (here : entries[i]? = some entry) :
    entries.set i entry = entries := by
  obtain ⟨within, rfl⟩ := List.getElem?_eq_some_iff.1 here
  exact List.set_getElem_self within

theorem set_arrivals {i : Nat} {arrival : Arrival} {result : Option Outcome} (here : books[i]? = some (arrival, result))
    (later : Option Outcome) : (books.set i (arrival, later)).map Prod.fst = books.map Prod.fst := by
  have there : (books.map Prod.fst)[i]? = some arrival := by
    rw [List.getElem?_map, here]
    rfl
  rw [List.map_set, set_self there]

theorem Kept.stays (kept : Kept micros pool books) {i : Nat} {book : Book} (here : books[i]? = some book)
    {update : World (Metered ρ) → World (Metered ρ)} (leaves : Leaves update) {task : Task (World (Metered ρ)) Unit}
    (stage : Stage micros pool.shared.written book task) : Kept micros ⟨update pool.shared, pool.tasks.set i task⟩ books := by
  have agrees : Agrees (update pool.shared).app.rest.registry (books.set i book) := by
    rw [leaves.1, set_self here]
    exact kept.agrees
  have same : (update pool.shared).written = pool.shared.written := leaves.2 _
  have advanced := kept.advance i (fun _ member => same ▸ member) (stage.later (fun _ member => same ▸ member)) agrees
  rwa [set_self here] at advanced

def launchedBy : Move Arrival → List Arrival
  | .launch arrival => [arrival]
  | .advance _ => []

theorem move_kept (outermost : Outermost micros router inner) (kept : Kept micros pool books) {label : Move Arrival}
    (moved : move (dispatch clock router) pool label = some next) :
    ∃ later, Kept micros next later ∧ later.map Prod.fst = books.map Prod.fst ++ launchedBy label := by
  cases label with
  | launch arrival =>
    cases moved
    refine ⟨books ++ [(arrival, .none)], ⟨?_, ?_, ?_⟩, List.map_append⟩
    · simp [kept.length]
    · intro i task book found there
      rw [List.getElem?_append, kept.length] at found
      rw [List.getElem?_append] at there
      split at found
      · rename_i within
        rw [if_pos within] at there
        exact kept.stages i task book found there
      · rename_i beyond
        rw [if_neg beyond] at there
        have first : i - books.length = 0 := by
          obtain ⟨bound, -⟩ := List.getElem?_eq_some_iff.1 found
          simpa using bound
        rw [first] at found there
        cases found
        cases there
        exact start_stage outermost arrival _
    · refine ⟨fun name => ?_, fun name => ?_, ?_, kept.agrees.tight⟩
      · rw [kept.agrees.calls, List.countP_append]
        simp [called]
      · rw [kept.agrees.errors, List.countP_append]
        simp [failed]
      · rw [kept.agrees.events, List.countP_append]
        simp [heard]
  | advance i =>
    simp only [move] at moved
    split at moved
    · rename_i update rest found
      cases moved
      obtain ⟨within, -⟩ := List.getElem?_eq_some_iff.1 found
      rw [kept.length] at within
      have there : books[i]? = some books[i] := List.getElem?_eq_getElem within
      have stage := kept.stages i _ _ found there
      generalize books[i] = book at there stage
      cases stage with
      | idle uncounted leaves =>
        exact ⟨books, kept.stays there leaves.1 (.idle uncounted (leaves.2 _)), (List.append_nil _).symm⟩
      | @before arrival msg _ counted counting =>
        rcases counting with ⟨leaves, later⟩ | ⟨start, result, rfl, ends⟩
        · exact ⟨books, kept.stays there leaves (.before counted (later _)), (List.append_nil _).symm⟩
        · refine ⟨books.set i (arrival, some result), ?_, (set_arrivals there _).trans (List.append_nil _).symm⟩
          exact kept.advance i (fun _ member => member) (.after (ends _)) (kept.agrees.fill there counted _ result)
      | @after arrival result _ closes =>
        cases arrival with
        | rpc session stream msg =>
          cases closes
          refine ⟨books, ?_, (List.append_nil _).symm⟩
          have told : answerOf (.rpc session stream msg) result ⊆
              (World.write stream (.response (responseOf msg.id result)) pool.shared).written := by
            intro answer member
            exact List.mem_append_right _ member
          have advanced := kept.advance i (fun _ member => List.mem_append_left _ member) (.told told)
            (by rw [set_self there]; exact kept.agrees)
          rwa [set_self there] at advanced
        | _ => cases closes
    · cases moved

def launched (labels : List (Move Arrival)) : List Arrival := labels.flatMap launchedBy

theorem run_kept (outermost : Outermost micros router inner) {labels : List (Move Arrival)} {last : Pool (World (Metered ρ))}
    (kept : Kept micros pool books) (ran : run (move (dispatch clock router)) pool labels = some last) :
    ∃ later, Kept micros last later ∧ later.map Prod.fst = books.map Prod.fst ++ launched labels := by
  induction labels generalizing pool books with
  | nil =>
    cases ran
    exact ⟨books, kept, (List.append_nil _).symm⟩
  | cons label rest ih =>
    obtain ⟨next, moved, ran⟩ := run_cons_some ran
    obtain ⟨mid, kept, first⟩ := move_kept outermost kept moved
    obtain ⟨later, kept, others⟩ := ih kept ran
    refine ⟨later, kept, ?_⟩
    rw [others, first, List.append_assoc, launched, launched, List.flatMap_cons]

theorem Stage.finished {written : List (Nat × Message)} {arrival : Arrival} {result : Option Outcome}
    (stage : Stage micros written (arrival, result) (.done ())) (counted : (messageOf arrival).isSome = true) :
    ∃ outcome, result = some outcome ∧ answerOf arrival outcome ⊆ written := by
  cases stage with
  | idle uncounted leaves =>
    rw [uncounted] at counted
    cases counted
  | before _ counting => exact counting.elim
  | @after _ outcome _ closes =>
    refine ⟨outcome, rfl, ?_⟩
    cases arrival with
    | rpc session stream msg => cases closes
    | _ => exact List.nil_subset _
  | told there => exact ⟨_, rfl, there⟩

theorem isSome_of_request {name : String} {arrival : Arrival} (request : isRequest name arrival = true) :
    (messageOf arrival).isSome = true := by
  cases arrival with
  | rpc session stream msg => rfl
  | _ => cases request

theorem isSome_of_event {arrival : Arrival} (event : isEvent arrival = true) : (messageOf arrival).isSome = true := by
  cases arrival with
  | event session msg => rfl
  | datagram session msg =>
    cases msg with
    | event e => rfl
    | _ => cases event
  | _ => cases event

/-- Where all of a kind have recorded, the books have as many of them as there are. -/
theorem countP_full {holds : Arrival → Bool} (full : ∀ book ∈ books, holds book.1 = true → book.2.isSome = true) :
    books.countP (fun book => holds book.1 && book.2.isSome) = (books.map Prod.fst).countP holds := by
  rw [List.countP_map]
  refine List.countP_congr (fun book member => ?_)
  rw [Bool.and_eq_true_iff, Function.comp_apply]
  exact ⟨fun both => both.1, fun held => ⟨held, full book member held⟩⟩

/-- The counts in any order: for each message there is at most one record, the snapshot tells of
the records, and a message that was answered has its record. -/
theorem counts_any_order (clock : Clock (Metered ρ)) (outermost : Outermost micros router inner) {world : World (Metered ρ)}
    (fresh : world.app.rest.registry = .new) {labels : List (Move Arrival)}
    (ran : run (move (dispatch clock router)) ⟨world, []⟩ labels = some pool) :
    ∃ books : List Book, books.map Prod.fst = launched labels ∧
      (∀ activeSessions name calls errors,
        (∃ latency, (name, ⟨calls, errors, latency⟩) ∈ (pool.shared.app.rest.registry.snapshot activeSessions).rpc) ↔
          calls = books.countP (called name) ∧ errors = books.countP (failed name) ∧ calls ≠ 0) ∧
      pool.shared.app.rest.registry.eventsTotal = books.countP heard ∧
      (∀ (i : Nat) arrival result, books[i]? = some (arrival, result) → pool.tasks[i]? = some (.done ()) →
        (messageOf arrival).isSome = true → ∃ outcome, result = some outcome ∧ answerOf arrival outcome ⊆ pool.shared.written) ∧
      ((∀ task ∈ pool.tasks, task = .done ()) →
        (∀ name, books.countP (called name) = (launched labels).countP (isRequest name)) ∧
          books.countP heard = (launched labels).countP isEvent) := by
  have start : Kept micros ⟨world, []⟩ [] := by
    refine ⟨rfl, fun i task book found _ => (by cases found), ?_⟩
    rw [fresh]
    exact ⟨fun _ => rfl, fun _ => rfl, rfl, fun name stats there => (by cases there)⟩
  obtain ⟨books, kept, arrivals⟩ := run_kept outermost start ran
  have finished : ∀ (i : Nat) arrival result, books[i]? = some (arrival, result) → pool.tasks[i]? = some (.done ()) →
      (messageOf arrival).isSome = true → ∃ outcome, result = some outcome ∧ answerOf arrival outcome ⊆ pool.shared.written :=
    fun i arrival result there done counted => (kept.stages i _ _ done there).finished counted
  refine ⟨books, arrivals, fun activeSessions name calls errors => ?_, kept.agrees.events, finished, fun done => ?_⟩
  · simp only [MetricsRegistry.mem_snapshot]
    rw [MetricsRegistry.lookup_iff kept.agrees.tight, kept.agrees.calls, kept.agrees.errors]
  · have full : ∀ book ∈ books, (messageOf book.1).isSome = true → book.2.isSome = true := by
      intro book member counted
      obtain ⟨i, there⟩ := List.mem_iff_getElem?.1 member
      obtain ⟨within, -⟩ := List.getElem?_eq_some_iff.1 there
      rw [← kept.length] at within
      have at_end : pool.tasks[i]? = some (.done ()) := by
        rw [List.getElem?_eq_getElem within, done _ (List.getElem_mem within)]
      obtain ⟨outcome, same, -⟩ := finished i book.1 book.2 there at_end counted
      rw [same, Option.isSome_some]
    have same : books.map Prod.fst = launched labels := arrivals
    rw [← same]
    exact ⟨fun name => countP_full (fun book member held => full book member (isSome_of_request held)),
      countP_full (fun book member held => full book member (isSome_of_event held))⟩

private def silentCodec : Codec Unit := ⟨fun _ => .ok [], fun _ => .ok ()⟩

private def blankSnapshot : Codec MetricsSnapshot := ⟨fun _ => .ok [], fun _ => .error ""⟩

private def racing : Router (Metered Unit) :=
  install (fun _ => 0) "metrics.snapshot" silentCodec blankSnapshot (fun _ => 1)
    (Router.new.addRpc ⟨"echo", fun _ payload => pure (.ok payload)⟩).1

private theorem racing_outermost : Outermost (fun _ => 0) racing [] := by
  refine install_outermost (fun _ => 0) "metrics.snapshot" silentCodec blankSnapshot (fun _ => 1) rfl ?_ ?_ ?_
  · intro name entry found
    change ((∅ : AList (fun _ : String => Token × RpcHandler (Metered Unit))).insert "echo" _).lookup name = some entry at found
    by_cases same : name = "echo"
    · rw [same, AList.lookup_insert] at found
      cases found
      exact fun _ _ => trivial
    · rw [AList.lookup_insert_ne same] at found
      cases found
  · exact fun name entry member => (by cases member)
  · exact fun name entry found => (by cases found)

private def quiet : World (Metered Unit) := ⟨⟨fun _ _ => .none, ⟨.new, ()⟩⟩, [], [], []⟩

private def turns : List (Move Arrival) :=
  [.launch (.rpc 0 0 ⟨1, "echo", []⟩), .launch (.rpc 0 1 ⟨2, "echo", []⟩),
    .advance 0, .advance 1, .advance 1, .advance 0, .advance 0, .advance 1, .advance 0, .advance 1,
    .advance 1, .advance 0]

private theorem racing_rpc (session : SessionId) (stream : Nat) (msg : RequestMsg) :
    dispatch (fun _ _ => false) racing (.rpc session stream msg) =
      onion (fun _ _ => false) session (racing.middlewares.map Prod.snd) (rpcTerminal racing session) (.request msg) >>=
        closing (.rpc session stream msg) := by
  rw [← runChain_eq_onion]
  rfl

theorem counts_any_order_two : ∃ pool,
    run (move (dispatch (fun _ _ => false) racing)) ⟨quiet, []⟩ turns = some pool ∧
      ∃ errors latency, ("echo", ⟨2, errors, latency⟩) ∈ (pool.shared.app.rest.registry.snapshot 1).rpc := by
  obtain ⟨pool, ran, finished⟩ : ∃ pool, run (move (dispatch (fun _ _ => false) racing)) ⟨quiet, []⟩ turns = some pool ∧
      pool.tasks = [.done (), .done ()] := by
    simp only [turns, run_cons, move, Option.bind_some, racing_rpc, List.nil_append, List.cons_append]
    exact ⟨_, rfl, rfl⟩
  obtain ⟨books, -, told, -, -, full⟩ := counts_any_order (fun _ _ => false) racing_outermost rfl ran
  have done : ∀ task ∈ pool.tasks, task = .done () := by
    intro task member
    rw [finished, List.mem_cons, List.mem_singleton] at member
    exact member.elim id id
  have two : books.countP (called "echo") = 2 := (full done).1 "echo"
  obtain ⟨latency, member⟩ := (told 1 "echo" 2 (books.countP (failed "echo"))).2 ⟨two.symm, rfl, by decide⟩
  exact ⟨pool, ran, _, latency, member⟩

end EchoStream.Plugins.MetricsRaces
