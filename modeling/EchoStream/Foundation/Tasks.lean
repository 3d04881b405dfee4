import EchoStream.Foundation.Run

/-! Asynchronous programs over a shared state. A task is a tree of atomic
sections: each one reads the state, replaces it, and picks the rest of the task
from what it read. Tasks run to their end one after the other, or as a pool in
which the sections of all tasks interleave in any order. For pools there is a
rely-guarantee rule: when each task keeps a contract from the moment it starts,
whatever the others do within the same contract, the pool keeps the contract's
invariant. Waiting is not a section of its own, since the pool may leave a task
unscheduled between any two sections for as long as it likes; where it matters whether
a task gets on, a predicate says before which sections it has to wait. -/

namespace EchoStream.Foundation.Tasks
open Run

variable {σ τ α β κ ρ ν : Type}

inductive Task (σ α : Type) where
  | done (value : α)
  | step (update : σ → σ) (next : σ → Task σ α)

namespace Task

def bind : Task σ α → (α → Task σ β) → Task σ β
  | done value, rest => rest value
  | step update next, rest => step update (fun state => (next state).bind rest)

instance : Monad (Task σ) where
  pure := done
  bind := bind

@[simp] theorem step_bind (update : σ → σ) (next : σ → Task σ α) (rest : α → Task σ β) :
    step update next >>= rest = step update (fun state => next state >>= rest) := rfl

theorem bind_done_right (task : Task σ α) : task.bind done = task := by
  induction task with
  | done value => rfl
  | step update next ih => exact congrArg (step update) (funext ih)

theorem bind_bind (task : Task σ α) (first : α → Task σ β) (second : β → Task σ ν) :
    (task.bind first).bind second = task.bind (fun value => (first value).bind second) := by
  induction task with
  | done value => rfl
  | step update next ih => exact congrArg (step update) (funext ih)

instance : LawfulMonad (Task σ) :=
  LawfulMonad.mk' (Task σ) bind_done_right (fun _ _ => rfl) bind_bind

def act (update : σ → σ) : Task σ Unit := step update (fun _ => done ())

def read (view : σ → α) : Task σ α := step id (fun state => done (view state))

def eval : Task σ α → σ → α × σ
  | done value, state => (value, state)
  | step update next, state => (next state).eval (update state)

@[simp] theorem eval_done (value : α) (state : σ) :
    (done value : Task σ α).eval state = (value, state) := rfl

@[simp] theorem eval_pure (value : α) (state : σ) :
    (pure value : Task σ α).eval state = (value, state) := rfl

@[simp] theorem eval_step (update : σ → σ) (next : σ → Task σ α) (state : σ) :
    (step update next).eval state = (next state).eval (update state) := rfl

@[simp] theorem eval_act (update : σ → σ) (state : σ) : (act update).eval state = ((), update state) := rfl

@[simp] theorem eval_bind (task : Task σ α) (rest : α → Task σ β) (state : σ) :
    (task >>= rest).eval state = (rest (task.eval state).1).eval (task.eval state).2 := by
  induction task generalizing state with
  | done value => rfl
  | step update next ih => exact ih state (update state)

/-- With nothing in between the task gets to its end, and before no section does it have to
wait. -/
def Finishes (waits : Task σ α → σ → Bool) : Task σ α → σ → Prop
  | done _, _ => True
  | step update next, state => waits (step update next) state = false ∧ (next state).Finishes waits (update state)

theorem Finishes.unhindered {waits : Task σ α → σ → Bool} (free : ∀ task state, waits task state = false)
    (task : Task σ α) (state : σ) : task.Finishes waits state := by
  induction task generalizing state with
  | done value => trivial
  | step update next ih => exact ⟨free _ state, ih state (update state)⟩

/-- A task over a part of the state, as a task over the whole. -/
def zoom (get : τ → σ) (set : σ → τ → τ) : Task σ α → Task τ α
  | done value => done value
  | step update next =>
      step (fun whole => set (update (get whole)) whole) (fun whole => (next (get whole)).zoom get set)

theorem eval_zoom {get : τ → σ} {set : σ → τ → τ} (get_set : ∀ part whole, get (set part whole) = part)
    (set_set : ∀ first second whole, set second (set first whole) = set second whole)
    (set_get : ∀ whole, set (get whole) whole = whole) (task : Task σ α) (whole : τ) :
    (task.zoom get set).eval whole =
      ((task.eval (get whole)).1, set (task.eval (get whole)).2 whole) := by
  induction task generalizing whole with
  | done value => simp [zoom, set_get]
  | step update next ih => simp [zoom, ih, get_set, set_set]

/-- The task under a deadline: between any two sections it may be given up,
which leaves what its earlier sections did in place. -/
def cut (expired : σ → Bool) : Task σ α → Task σ (Option α)
  | done value => done (some value)
  | step update next =>
      step (fun state => if expired state then state else update state)
        (fun state => if expired state then done none else (next state).cut expired)

/-- Every section of the task changes the state in an allowed way. -/
def Obeys (allowed : (σ → σ) → Prop) : Task σ α → Prop
  | done _ => True
  | step update next => allowed update ∧ ∀ state, (next state).Obeys allowed

theorem Obeys.bind {allowed : (σ → σ) → Prop} {task : Task σ α} {rest : α → Task σ β}
    (first : task.Obeys allowed) (second : ∀ value, (rest value).Obeys allowed) :
    (task >>= rest).Obeys allowed := by
  induction task with
  | done value => exact second value
  | step update next ih => exact ⟨first.1, fun state => ih state (first.2 state)⟩

theorem Obeys.cut {allowed : (σ → σ) → Prop} {task : Task σ α} (expired : σ → Bool)
    (obeys : task.Obeys allowed)
    (stays : ∀ update, allowed update → allowed (fun state => if expired state then state else update state)) :
    (task.cut expired).Obeys allowed := by
  induction task with
  | done value => trivial
  | step update next ih =>
    refine ⟨stays update obeys.1, fun state => ?_⟩
    change Obeys allowed (if expired state = true then done none else (next state).cut expired)
    by_cases past : expired state = true
    · rw [if_pos past]
      trivial
    · rw [if_neg past]
      exact ih state (obeys.2 state)

theorem Obeys.any (task : Task σ α) : task.Obeys (fun _ => True) := by
  induction task with
  | done value => trivial
  | step update next ih => exact ⟨trivial, ih⟩

theorem Obeys.zoom {within : (σ → σ) → Prop} {allowed : (τ → τ) → Prop} {get : τ → σ} {set : σ → τ → τ}
    {task : Task σ α} (obeys : task.Obeys within)
    (sets : ∀ update, within update → allowed (fun whole => set (update (get whole)) whole)) :
    (task.zoom get set).Obeys allowed := by
  induction task with
  | done value => trivial
  | step update next ih => exact ⟨sets update obeys.1, fun whole => ih (get whole) (obeys.2 (get whole))⟩

theorem Obeys.eval_keeps {view : σ → τ} {task : Task σ α}
    (obeys : task.Obeys (fun update => ∀ state, view (update state) = view state)) (state : σ) :
    view (task.eval state).2 = view state := by
  induction task generalizing state with
  | done value => rfl
  | step update next ih =>
    rw [eval_step, ih state (obeys.2 state)]
    exact obeys.1 state

/-- The result has the property, whatever state each section finds. -/
def Gives (post : α → Prop) : Task σ α → Prop
  | done value => post value
  | step _ next => ∀ state, (next state).Gives post

theorem Gives.bind {mid : α → Prop} {post : β → Prop} {task : Task σ α} {rest : α → Task σ β} (first : task.Gives mid)
    (second : ∀ value, mid value → (rest value).Gives post) : (task >>= rest).Gives post := by
  induction task with
  | done value => exact second value first
  | step update next ih => exact fun state => ih state (first state)

theorem Gives.cut {post : α → Prop} {task : Task σ α} (expired : σ → Bool) (gives : task.Gives post) :
    (task.cut expired).Gives (fun result => ∀ value, result = some value → post value) := by
  induction task with
  | done value =>
    intro found same
    rw [← Option.some.inj same]
    exact gives
  | step update next ih =>
    intro state
    change Gives _ (if expired state = true then done none else (next state).cut expired)
    by_cases past : expired state = true
    · rw [if_pos past]
      rintro _ ⟨⟩
    · rw [if_neg past]
      exact ih state (gives state)

theorem Gives.any (task : Task σ α) : task.Gives (fun _ => True) := by
  induction task with
  | done value => trivial
  | step update next ih => exact ih

end Task

/-- A program that, besides its own sections, calls a continuation it was given,
with or without a time limit, and goes on with what the call returned (`none`
when the limit passed first). -/
inductive Script (σ κ ρ α : Type) where
  | done (value : α)
  | step (update : σ → σ) (next : σ → Script σ κ ρ α)
  | call (argument : κ) (resume : ρ → Script σ κ ρ α)
  | within (limit : Nat) (argument : κ) (resume : Option ρ → Script σ κ ρ α)

namespace Script

/-- The script with its calls carried out by `callee`. Its own sections act on
the part of the state that `get` and `set` select. -/
def link (get : τ → σ) (set : σ → τ → τ) (expired : Nat → τ → Bool) (callee : κ → Task τ ρ) :
    Script σ κ ρ α → Task τ α
  | done value => .done value
  | step update next =>
      .step (fun whole => set (update (get whole)) whole)
        (fun whole => (next (get whole)).link get set expired callee)
  | call argument resume =>
      callee argument >>= fun result => (resume result).link get set expired callee
  | within limit argument resume =>
      (callee argument).cut (expired limit) >>= fun result =>
        (resume result).link get set expired callee

/-- Every call is at an argument in `may`, every section of its own is allowed. -/
def Obeys (may : κ → Prop) (allowed : (σ → σ) → Prop) : Script σ κ ρ α → Prop
  | done _ => True
  | step update next => allowed update ∧ ∀ state, (next state).Obeys may allowed
  | call argument resume => may argument ∧ ∀ result, (resume result).Obeys may allowed
  | within _ argument resume => may argument ∧ ∀ result, (resume result).Obeys may allowed

theorem Obeys.any (script : Script σ κ ρ α) : script.Obeys (fun _ => True) (fun _ => True) := by
  induction script with
  | done value => trivial
  | step update next ih => exact ⟨trivial, ih⟩
  | call argument resume ih => exact ⟨trivial, ih⟩
  | within limit argument resume ih => exact ⟨trivial, ih⟩

/-- A linked script keeps to what is allowed where its own sections and what it calls do. -/
theorem link_keeps {may : κ → Prop} {within : (σ → σ) → Prop} {allowed : (τ → τ) → Prop} {get : τ → σ} {set : σ → τ → τ}
    {expired : Nat → τ → Bool} {callee : κ → Task τ ρ} {script : Script σ κ ρ α} (obeys : script.Obeys may within)
    (sets : ∀ update, within update → allowed (fun whole => set (update (get whole)) whole))
    (stays : ∀ limit update, allowed update → allowed (fun whole => if expired limit whole then whole else update whole))
    (called : ∀ argument, may argument → (callee argument).Obeys allowed) :
    (script.link get set expired callee).Obeys allowed := by
  induction script with
  | done value => trivial
  | step update next ih => exact ⟨sets update obeys.1, fun whole => ih (get whole) (obeys.2 (get whole))⟩
  | call argument resume ih => exact (called argument obeys.1).bind (fun result => ih result (obeys.2 result))
  | within limit argument resume ih =>
    exact ((called argument obeys.1).cut (expired limit) (stays limit)).bind (fun result => ih result (obeys.2 result))

/-- Every call is at an argument in `may`, and if the calls return results in `returns`, the
result has the property. -/
def Gives (may : κ → Prop) (returns : ρ → Prop) (post : α → Prop) : Script σ κ ρ α → Prop
  | done value => post value
  | step _ next => ∀ state, (next state).Gives may returns post
  | call argument resume => may argument ∧ ∀ result, returns result → (resume result).Gives may returns post
  | within _ argument resume =>
      may argument ∧ ∀ result, (∀ value, result = some value → returns value) → (resume result).Gives may returns post

theorem link_gives {may : κ → Prop} {returns : ρ → Prop} {post : α → Prop} {get : τ → σ} {set : σ → τ → τ}
    {expired : Nat → τ → Bool} {callee : κ → Task τ ρ} {script : Script σ κ ρ α} (gives : script.Gives may returns post)
    (called : ∀ argument, may argument → (callee argument).Gives returns) :
    (script.link get set expired callee).Gives post := by
  induction script with
  | done value => exact gives
  | step update next ih => exact fun whole => ih (get whole) (gives (get whole))
  | call argument resume ih =>
    exact (called argument gives.1).bind (fun result returned => ih result (gives.2 result returned))
  | within limit argument resume ih =>
    exact ((called argument gives.1).cut (expired limit)).bind (fun result returned => ih result (gives.2 result returned))

def Quiet : Script σ κ ρ α → Prop
  | done _ => True
  | step _ next => ∀ state, (next state).Quiet
  | call _ _ => False
  | within _ _ _ => False

/-- The script makes one call, whatever its sections read and the call returns. -/
def Passes : Script σ κ ρ α → Prop
  | done _ => False
  | step _ next => ∀ state, (next state).Passes
  | call _ resume => ∀ result, (resume result).Quiet
  | within _ _ _ => False

/-- The script makes one call, at the argument, whatever its sections read and the call returns. -/
def Forwards (argument : κ) : Script σ κ ρ α → Prop
  | done _ => False
  | step _ next => ∀ state, (next state).Forwards argument
  | call passed resume => passed = argument ∧ ∀ result, (resume result).Quiet
  | within _ _ _ => False

/-- Allowed sections, and then the value. -/
def Returns (allowed : (σ → σ) → Prop) (value : α) : Script σ κ ρ α → Prop
  | done other => other = value
  | step update next => allowed update ∧ ∀ state, (next state).Returns allowed value
  | call _ _ => False
  | within _ _ _ => False

/-- The script makes one call, at the argument, and returns what the call returns; its
sections around it are allowed ones. -/
def Relays (allowed : (σ → σ) → Prop) (argument : κ) : Script σ κ ρ ρ → Prop
  | done _ => False
  | step update next => allowed update ∧ ∀ state, (next state).Relays allowed argument
  | call passed resume => passed = argument ∧ ∀ result, (resume result).Returns allowed result
  | within _ _ _ => False

section Forwarding

variable {get : τ → σ} {set : σ → τ → τ} {expired : Nat → τ → Bool} {callee : κ → Task τ ρ}
variable (set_set : ∀ first second whole, set second (set first whole) = set second whole)
variable (set_get : ∀ whole, set (get whole) whole = whole)
include set_set set_get

theorem Quiet.eval {script : Script σ κ ρ α} (quiet : script.Quiet) (whole : τ) :
    ∃ last, ((script.link get set expired callee).eval whole).2 = set last whole := by
  induction script generalizing whole with
  | done value => exact ⟨get whole, (set_get whole).symm⟩
  | step update next ih =>
    obtain ⟨last, same⟩ := ih (get whole) (quiet (get whole)) (set (update (get whole)) whole)
    exact ⟨last, same.trans (set_set ..)⟩
  | call => exact quiet.elim
  | within => exact quiet.elim

theorem Passes.eval {script : Script σ κ ρ α} (passes : script.Passes) (whole : τ) :
    ∃ argument part last, ((script.link get set expired callee).eval whole).2 =
      set last ((callee argument).eval (set part whole)).2 := by
  induction script generalizing whole with
  | done => exact passes.elim
  | step update next ih =>
    obtain ⟨argument, part, last, same⟩ := ih (get whole) (passes (get whole)) (set (update (get whole)) whole)
    rw [set_set] at same
    exact ⟨argument, part, last, same⟩
  | call passed resume =>
    refine ⟨passed, get whole, ?_⟩
    rw [set_get, link, Task.eval_bind]
    exact (passes _).eval set_set set_get _
  | within => exact passes.elim

theorem Forwards.eval {argument : κ} {script : Script σ κ ρ α} (forwards : script.Forwards argument) (whole : τ) :
    ∃ part last, ((script.link get set expired callee).eval whole).2 =
      set last ((callee argument).eval (set part whole)).2 := by
  induction script generalizing whole with
  | done => exact forwards.elim
  | step update next ih =>
    obtain ⟨part, last, same⟩ := ih (get whole) (forwards (get whole)) (set (update (get whole)) whole)
    rw [set_set] at same
    exact ⟨part, last, same⟩
  | call passed resume =>
    obtain ⟨rfl, quiet⟩ := forwards
    refine ⟨get whole, ?_⟩
    rw [set_get, link, Task.eval_bind]
    exact (quiet _).eval set_set set_get _
  | within => exact forwards.elim

theorem Returns.eval {allowed : (σ → σ) → Prop} {value : α} {script : Script σ κ ρ α} (returns : script.Returns allowed value)
    (whole : τ) : ∃ last, (script.link get set expired callee).eval whole = (value, set last whole) := by
  induction script generalizing whole with
  | done other =>
    refine ⟨get whole, ?_⟩
    rw [set_get]
    exact congrArg (·, whole) returns
  | step update next ih =>
    obtain ⟨last, same⟩ := ih (get whole) (returns.2 (get whole)) (set (update (get whole)) whole)
    exact ⟨last, same.trans (congrArg (value, ·) (set_set ..))⟩
  | call => exact returns.elim
  | within => exact returns.elim

/-- A relaying script is what it calls, but for what it does to its own part of the state,
and the call finds a part that looks the same. -/
theorem Relays.eval {γ : Type} {look : σ → γ} (get_set : ∀ part whole, get (set part whole) = part) {argument : κ}
    {script : Script σ κ ρ ρ} (relays : script.Relays (fun update => ∀ state, look (update state) = look state) argument)
    (whole : τ) : ∃ part last, look part = look (get whole) ∧ (script.link get set expired callee).eval whole =
      (((callee argument).eval (set part whole)).1, set last ((callee argument).eval (set part whole)).2) := by
  induction script generalizing whole with
  | done => exact relays.elim
  | step update next ih =>
    obtain ⟨part, last, looks, same⟩ := ih (get whole) (relays.2 (get whole)) (set (update (get whole)) whole)
    rw [set_set] at same
    rw [get_set, relays.1] at looks
    exact ⟨part, last, looks, same⟩
  | call passed resume =>
    obtain ⟨rfl, returns⟩ := relays
    obtain ⟨last, same⟩ := (returns ((callee passed).eval whole).1).eval set_set set_get ((callee passed).eval whole).2
    refine ⟨get whole, last, rfl, ?_⟩
    rw [set_get, link, Task.eval_bind]
    exact same
  | within => exact relays.elim

end Forwarding

end Script

/-- What the tasks of a pool owe each other: `inv` holds between any two
sections, and every section moves the state along `grows`. -/
structure Contract (σ : Type) where
  inv : σ → Prop
  grows : σ → σ → Prop
  refl : ∀ state, grows state state
  trans : ∀ first second third, grows first second → grows second third → grows first third

/-- From the state on, whatever other tasks do within the contract, each section
of the task keeps the contract, and `post` holds of its result. -/
def Safe (contract : Contract σ) (post : α → σ → Prop) : Task σ α → σ → Prop
  | .done value, state => ∀ later, contract.grows state later → contract.inv later → post value later
  | .step update next, state => ∀ later, contract.grows state later → contract.inv later →
      contract.inv (update later) ∧ contract.grows later (update later) ∧
        Safe contract post (next later) (update later)

variable {contract : Contract σ}

theorem Safe.later {post : α → σ → Prop} {task : Task σ α} {state later : σ}
    (safe : Safe contract post task state) (grown : contract.grows state later) :
    Safe contract post task later := by
  cases task with
  | done value => exact fun last more => safe last (contract.trans _ _ _ grown more)
  | step update next => exact fun last more => safe last (contract.trans _ _ _ grown more)

theorem Safe.of_later {post : α → σ → Prop} {task : Task σ α} {state : σ}
    (safe : ∀ later, contract.grows state later → contract.inv later → Safe contract post task later) :
    Safe contract post task state := by
  cases task with
  | done value => exact fun later grown kept => safe later grown kept later (contract.refl _) kept
  | step update next => exact fun later grown kept => safe later grown kept later (contract.refl _) kept

theorem Safe.bind {mid : α → σ → Prop} {post : β → σ → Prop} {task : Task σ α}
    {rest : α → Task σ β} {state : σ} (safe : Safe contract mid task state)
    (goesOn : ∀ value later, contract.inv later → mid value later →
      Safe contract post (rest value) later) :
    Safe contract post (task >>= rest) state := by
  induction task generalizing state with
  | done value =>
    exact Safe.of_later (fun later grown kept => goesOn value later kept (safe later grown kept))
  | step update next ih =>
    intro later grown kept
    obtain ⟨inv, grew, later_safe⟩ := safe later grown kept
    exact ⟨inv, grew, ih later later_safe⟩

/-- Giving a safe task up at any point is safe. -/
theorem Safe.cut {post : α → σ → Prop} {task : Task σ α} {state : σ} (expired : σ → Bool)
    (safe : Safe contract post task state) : Safe contract (fun _ _ => True) (task.cut expired) state := by
  induction task generalizing state with
  | done value => exact fun _ _ _ => trivial
  | step update next ih =>
    intro later grown kept
    obtain ⟨inv, grew, rest⟩ := safe later grown kept
    by_cases past : expired later = true
    · simp only [past, if_true]
      exact ⟨kept, contract.refl _, fun _ _ _ => trivial⟩
    · simp only [past]
      exact ⟨inv, grew, ih later rest⟩

/-- What the contract's growth preserves still holds at the end of the task. -/
theorem Safe.with {post : α → σ → Prop} {stable : σ → Prop} {task : Task σ α} {state : σ}
    (stays : ∀ state later, contract.grows state later → stable state → stable later)
    (safe : Safe contract post task state) (holds : stable state) :
    Safe contract (fun value later => post value later ∧ stable later) task state := by
  induction task generalizing state with
  | done value => exact fun later grown kept => ⟨safe later grown kept, stays _ _ grown holds⟩
  | step update next ih =>
    intro later grown kept
    obtain ⟨inv, grew, rest⟩ := safe later grown kept
    exact ⟨inv, grew, ih later rest (stays _ _ grew (stays _ _ grown holds))⟩

theorem Safe.of_obeys {stable : σ → Prop} {task : Task σ α} {state : σ}
    (stays : ∀ state later, contract.grows state later → stable state → stable later)
    (obeys : task.Obeys (fun update => ∀ state, stable state → contract.inv state →
      contract.inv (update state) ∧ contract.grows state (update state)))
    (holds : stable state) : Safe contract (fun _ _ => True) task state := by
  induction task generalizing state with
  | done value => exact fun _ _ _ => trivial
  | step update next ih =>
    intro later grown kept
    have there := stays _ _ grown holds
    obtain ⟨inv, grew⟩ := obeys.1 later there kept
    exact ⟨inv, grew, ih _ (obeys.2 _) (stays _ _ grew there)⟩

/-- A linked script is safe where its sections keep the contract and what it
calls is safe at the arguments it may call it with. -/
theorem Script.link_safe {may : κ → Prop} {allowed : (σ → σ) → Prop} {contract : Contract τ} {stable : τ → Prop}
    {get : τ → σ} {set : σ → τ → τ} {expired : Nat → τ → Bool} {callee : κ → Task τ ρ}
    {script : Script σ κ ρ α} {whole : τ}
    (stays : ∀ state later, contract.grows state later → stable state → stable later)
    (sets : ∀ update whole, allowed update → stable whole → contract.inv whole →
      contract.inv (set (update (get whole)) whole) ∧ contract.grows whole (set (update (get whole)) whole))
    (called : ∀ argument whole, may argument → stable whole → contract.inv whole →
      Safe contract (fun _ _ => True) (callee argument) whole)
    (obeys : script.Obeys may allowed) (holds : stable whole) (inv : contract.inv whole) :
    Safe contract (fun _ _ => True) (script.link get set expired callee) whole := by
  induction script generalizing whole with
  | done value => exact fun _ _ _ => trivial
  | step update next ih =>
    intro later grown kept
    have there := stays _ _ grown holds
    obtain ⟨inv, grew⟩ := sets update later obeys.1 there kept
    exact ⟨inv, grew, ih _ (obeys.2 _) (stays _ _ grew there) inv⟩
  | call argument resume ih =>
    have first := (called argument whole obeys.1 holds inv).with stays holds
    exact first.bind (fun result later kept mid => ih result (obeys.2 result) mid.2 kept)
  | within limit argument resume ih =>
    have first := ((called argument whole obeys.1 holds inv).cut (expired limit)).with stays holds
    exact first.bind (fun result later kept mid => ih result (obeys.2 result) mid.2 kept)

/-- A shared state and the tasks that run on it. -/
structure Pool (σ : Type) where
  shared : σ
  tasks : List (Task σ Unit)

inductive Move (ν : Type) where
  | launch (what : ν)
  | advance (index : Nat)

def move (start : ν → Task σ Unit) : Step (Pool σ) (Move ν)
  | pool, .launch what => some { pool with tasks := pool.tasks ++ [start what] }
  | pool, .advance index =>
      match pool.tasks[index]? with
      | some (.step update next) =>
          some { shared := update pool.shared, tasks := pool.tasks.set index (next pool.shared) }
      | _ => none

theorem finish_alone (start : ν → Task σ Unit) (shared : σ) (others : List (Task σ Unit)) (task : Task σ Unit) :
    ∃ labels, run (move start) ⟨shared, others ++ [task]⟩ labels =
      some ⟨(task.eval shared).2, others ++ [.done (task.eval shared).1]⟩ := by
  induction task generalizing shared with
  | done value => exact ⟨[], rfl⟩
  | step update next ih =>
    obtain ⟨labels, ran⟩ := ih shared (update shared)
    refine ⟨.advance others.length :: labels, ?_⟩
    have stepped : move start ⟨shared, others ++ [.step update next]⟩ (.advance others.length) =
        some ⟨update shared, others ++ [next shared]⟩ := by
      simp [move]
    rw [run_cons, stepped, Option.bind_some, ran]
    rfl

/-- One of the ways a pool can go on is to run new tasks one after the other, with those it
has left where they are. -/
theorem reachable_evals {start : ν → Task σ Unit} {init pool : Pool σ}
    (reached : Reachable (move start) init pool) (whats : List ν) :
    ∃ last, Reachable (move start) init last ∧
      last.shared = whats.foldl (fun shared what => ((start what).eval shared).2) pool.shared ∧
      pool.tasks <+: last.tasks := by
  induction whats generalizing pool with
  | nil => exact ⟨pool, reached, rfl, List.prefix_rfl⟩
  | cons what rest ih =>
    obtain ⟨labels, ran⟩ := reached
    obtain ⟨more, finished⟩ := finish_alone start pool.shared pool.tasks (start what)
    have next : Reachable (move start) init ⟨((start what).eval pool.shared).2,
        pool.tasks ++ [.done ((start what).eval pool.shared).1]⟩ := by
      refine ⟨labels ++ .launch what :: more, ?_⟩
      rw [run_append, ran, Option.bind_some, run_cons]
      exact finished
    obtain ⟨last, reached, same, left⟩ := ih next
    exact ⟨last, reached, same, (List.prefix_append _ _).trans left⟩

def Kept (contract : Contract σ) (pool : Pool σ) : Prop :=
  contract.inv pool.shared ∧
    ∀ task ∈ pool.tasks, Safe contract (fun _ _ => True) task pool.shared

theorem move_kept {start : ν → Task σ Unit}
    (starts : ∀ what state, contract.inv state → Safe contract (fun _ _ => True) (start what) state)
    (pool : Pool σ) (label : Move ν) (next : Pool σ) (kept : Kept contract pool)
    (moved : move start pool label = some next) : Kept contract next := by
  cases label with
  | launch what =>
    cases moved
    refine ⟨kept.1, fun task member => ?_⟩
    rcases List.mem_append.mp member with old | new
    · exact kept.2 task old
    · rw [List.mem_singleton] at new
      subst new
      exact starts what _ kept.1
  | advance index =>
    simp only [move] at moved
    cases found : pool.tasks[index]? with
    | none => simp [found] at moved
    | some task =>
      cases task with
      | done value => simp [found] at moved
      | step update rest =>
        simp only [found, Option.some.injEq] at moved
        subst moved
        have safe := kept.2 _ (List.mem_of_getElem? found)
        obtain ⟨inv, grew, restSafe⟩ := safe pool.shared (contract.refl _) kept.1
        refine ⟨inv, fun task member => ?_⟩
        rcases List.mem_or_eq_of_mem_set member with other | same
        · exact (kept.2 task other).later grew
        · subst same
          exact restSafe

/-- A pool of tasks that are safe when they start keeps the contract's invariant
in every state it reaches. -/
theorem pool_invariant {start : ν → Task σ Unit}
    (starts : ∀ what state, contract.inv state → Safe contract (fun _ _ => True) (start what) state)
    {init pool : Pool σ} (idle : init.tasks = []) (holds : contract.inv init.shared)
    (reached : Reachable (move start) init pool) : contract.inv pool.shared := by
  have kept : Kept contract pool := reached.invariant ⟨holds, by simp [idle]⟩ (move_kept starts)
  exact kept.1

end EchoStream.Foundation.Tasks
