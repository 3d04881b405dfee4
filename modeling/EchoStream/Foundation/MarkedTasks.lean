import EchoStream.Foundation.Tasks

/-! Tasks that say where they are. A mark is passive: without its marks a task is what it
was. What a task can pass is said for every state its sections may find, so it holds however
others run in between, and for a task that is given up halfway. -/

namespace EchoStream.Foundation.MarkedTasks
open Tasks

variable {σ τ α β κ ρ μ : Type}

inductive Marked (μ σ α : Type) where
  | done (value : α)
  | step (update : σ → σ) (next : σ → Marked μ σ α)
  | mark (what : μ) (rest : Marked μ σ α)

namespace Marked

def bind : Marked μ σ α → (α → Marked μ σ β) → Marked μ σ β
  | done value, rest => rest value
  | step update next, rest => step update (fun state => (next state).bind rest)
  | mark what first, rest => mark what (first.bind rest)

def erase : Marked μ σ α → Task σ α
  | done value => .done value
  | step update next => .step update (fun state => (next state).erase)
  | mark _ rest => rest.erase

def plain : Task σ α → Marked μ σ α
  | .done value => done value
  | .step update next => step update (fun state => plain (next state))

def cut (expired : σ → Bool) : Marked μ σ α → Marked μ σ (Option α)
  | done value => done (some value)
  | step update next =>
      step (fun state => if expired state then state else update state)
        (fun state => if expired state then done none else (next state).cut expired)
  | mark what rest => mark what (rest.cut expired)

theorem erase_bind (task : Marked μ σ α) (rest : α → Marked μ σ β) :
    (task.bind rest).erase = task.erase >>= fun value => (rest value).erase := by
  induction task with
  | done value => rfl
  | step update next ih => exact congrArg (Task.step update) (funext ih)
  | mark what first ih => exact ih

theorem erase_plain (task : Task σ α) : (plain task : Marked μ σ α).erase = task := by
  induction task with
  | done value => rfl
  | step update next ih => exact congrArg (Task.step update) (funext ih)

theorem erase_cut (expired : σ → Bool) (task : Marked μ σ α) : (task.cut expired).erase = task.erase.cut expired := by
  induction task with
  | done value => rfl
  | step update next ih =>
    refine congrArg (Task.step _) (funext (fun state => ?_))
    by_cases past : expired state = true
    · simp only [past, if_true]
      rfl
    · simp only [past]
      exact ih state
  | mark what rest ih => exact ih

/-- The marks that the task may have passed so far. -/
inductive Passed : Marked μ σ α → List μ → Prop where
  | begun (task : Marked μ σ α) : Passed task []
  | step {update : σ → σ} {next : σ → Marked μ σ α} {marks : List μ} (state : σ) (later : Passed (next state) marks) :
      Passed (.step update next) marks
  | mark {what : μ} {rest : Marked μ σ α} {marks : List μ} (later : Passed rest marks) :
      Passed (.mark what rest) (what :: marks)

inductive Ends : Marked μ σ α → List μ → α → Prop where
  | done (value : α) : Ends (.done value) [] value
  | step {update : σ → σ} {next : σ → Marked μ σ α} {marks : List μ} {value : α} (state : σ)
      (later : Ends (next state) marks value) : Ends (.step update next) marks value
  | mark {what : μ} {rest : Marked μ σ α} {marks : List μ} {value : α} (later : Ends rest marks value) :
      Ends (.mark what rest) (what :: marks) value

variable {task : Marked μ σ α} {marks : List μ}

theorem Ends.passed {value : α} (ends : Ends task marks value) : Passed task marks := by
  induction ends with
  | done value => exact .begun _
  | step state _ ih => exact .step state ih
  | mark _ ih => exact .mark ih

theorem ends_alone (task : Marked μ σ α) (state : σ) : ∃ marks, Ends task marks (task.erase.eval state).1 := by
  induction task generalizing state with
  | done value => exact ⟨[], .done value⟩
  | step update next ih =>
    obtain ⟨marks, ends⟩ := ih state (update state)
    exact ⟨marks, .step state ends⟩
  | mark what rest ih =>
    obtain ⟨marks, ends⟩ := ih state
    exact ⟨what :: marks, .mark ends⟩

theorem passed_done {value : α} (passed : Passed (done value : Marked μ σ α) marks) : marks = [] := by
  cases passed
  rfl

theorem passed_mark {what : μ} (passed : Passed (mark what task) marks) :
    marks = [] ∨ ∃ later, marks = what :: later ∧ Passed task later := by
  cases passed with
  | begun => exact Or.inl rfl
  | mark later => exact Or.inr ⟨_, rfl, later⟩

theorem passed_bind {rest : α → Marked μ σ β} (passed : Passed (task.bind rest) marks) :
    Passed task marks ∨ ∃ first value later, Ends task first value ∧ Passed (rest value) later ∧ marks = first ++ later := by
  induction task generalizing marks with
  | done value => exact Or.inr ⟨[], value, marks, .done value, passed, rfl⟩
  | step update next ih =>
    cases passed with
    | begun => exact Or.inl (.begun _)
    | step state later =>
      rcases ih state later with inside | ⟨first, value, more, ends, beyond, same⟩
      · exact Or.inl (.step state inside)
      · exact Or.inr ⟨first, value, more, .step state ends, beyond, same⟩
  | mark what first ih =>
    cases passed with
    | begun => exact Or.inl (.begun _)
    | mark later =>
      rcases ih later with inside | ⟨front, value, more, ends, beyond, rfl⟩
      · exact Or.inl (.mark inside)
      · exact Or.inr ⟨what :: front, value, more, .mark ends, beyond, rfl⟩

theorem passed_cut {expired : σ → Bool} (passed : Passed (task.cut expired) marks) : Passed task marks := by
  induction task generalizing marks with
  | done value => exact passed_done passed ▸ .begun _
  | step update next ih =>
    cases passed with
    | begun => exact .begun _
    | step state later =>
      by_cases past : expired state = true
      · simp only [past, if_true] at later
        exact passed_done later ▸ .begun _
      · simp only [past] at later
        exact .step state (ih state later)
  | mark what rest ih =>
    cases passed with
    | begun => exact .begun _
    | mark later => exact .mark (ih later)

theorem passed_plain {plainly : Task σ α} (passed : Passed (plain plainly : Marked μ σ α) marks) : marks = [] := by
  induction plainly generalizing marks with
  | done value => exact passed_done passed
  | step update next ih =>
    cases passed with
    | begun => rfl
    | step state later => exact ih state later

end Marked

open Marked

/-- The script with its calls carried out by tasks that have marks. -/
def linkMarked (get : τ → σ) (set : σ → τ → τ) (expired : Nat → τ → Bool) (callee : κ → Marked μ τ ρ) :
    Script σ κ ρ α → Marked μ τ α
  | .done value => .done value
  | .step update next =>
      .step (fun whole => set (update (get whole)) whole) (fun whole => linkMarked get set expired callee (next (get whole)))
  | .call argument resume => (callee argument).bind (fun result => linkMarked get set expired callee (resume result))
  | .within limit argument resume =>
      ((callee argument).cut (expired limit)).bind (fun result => linkMarked get set expired callee (resume result))

section Linking

variable {get : τ → σ} {set : σ → τ → τ} {expired : Nat → τ → Bool} {callee : κ → Marked μ τ ρ} {script : Script σ κ ρ α}
variable {marks : List μ}

theorem erase_link (script : Script σ κ ρ α) : (linkMarked get set expired callee script).erase =
    script.link get set expired (fun argument => (callee argument).erase) := by
  induction script with
  | done value => rfl
  | step update next ih => exact congrArg (Task.step _) (funext (fun whole => ih (get whole)))
  | call argument resume ih =>
    rw [linkMarked, erase_bind, Script.link]
    exact congrArg _ (funext ih)
  | within limit argument resume ih =>
    rw [linkMarked, erase_bind, erase_cut, Script.link]
    exact congrArg _ (funext ih)

theorem passed_link (passed : Passed (linkMarked get set expired callee script) marks) :
    ∃ calls : List (List μ), marks = calls.flatten ∧ ∀ call ∈ calls, ∃ argument, Passed (callee argument) call := by
  induction script generalizing marks with
  | done value => exact ⟨[], passed_done passed, List.forall_mem_nil _⟩
  | step update next ih =>
    cases passed with
    | begun => exact ⟨[], rfl, List.forall_mem_nil _⟩
    | step state later => exact ih (get state) later
  | call argument resume ih =>
    rcases passed_bind passed with inside | ⟨first, result, later, ends, beyond, rfl⟩
    · exact ⟨[marks], (List.append_nil marks).symm, List.forall_mem_singleton.2 ⟨argument, inside⟩⟩
    · obtain ⟨calls, rfl, all⟩ := ih result beyond
      exact ⟨first :: calls, rfl, List.forall_mem_cons.2 ⟨⟨argument, ends.passed⟩, all⟩⟩
  | within limit argument resume ih =>
    rcases passed_bind passed with inside | ⟨first, result, later, ends, beyond, rfl⟩
    · exact ⟨[marks], (List.append_nil marks).symm, List.forall_mem_singleton.2 ⟨argument, passed_cut inside⟩⟩
    · obtain ⟨calls, rfl, all⟩ := ih result beyond
      exact ⟨first :: calls, rfl, List.forall_mem_cons.2 ⟨⟨argument, passed_cut ends.passed⟩, all⟩⟩

/-- The script makes one call or none, whatever its sections read. -/
def CallsOnce : Script σ κ ρ α → Prop
  | .done _ => True
  | .step _ next => ∀ state, CallsOnce (next state)
  | .call _ resume => ∀ result, (resume result).Quiet
  | .within _ _ resume => ∀ result, (resume result).Quiet

theorem passed_quiet (quiet : script.Quiet) (passed : Passed (linkMarked get set expired callee script) marks) : marks = [] := by
  induction script generalizing marks with
  | done value => exact passed_done passed
  | step update next ih =>
    cases passed with
    | begun => rfl
    | step state later => exact ih (get state) (quiet _) later
  | call => exact quiet.elim
  | within => exact quiet.elim

theorem passed_once (once : CallsOnce script) (passed : Passed (linkMarked get set expired callee script) marks) :
    marks = [] ∨ ∃ argument, Passed (callee argument) marks := by
  induction script generalizing marks with
  | done value => exact Or.inl (passed_done passed)
  | step update next ih =>
    cases passed with
    | begun => exact Or.inl rfl
    | step state later => exact ih (get state) (once _) later
  | call argument resume ih =>
    rcases passed_bind passed with inside | ⟨first, result, later, ends, beyond, rfl⟩
    · exact Or.inr ⟨argument, inside⟩
    · rw [passed_quiet (once result) beyond, List.append_nil]
      exact Or.inr ⟨argument, ends.passed⟩
  | within limit argument resume ih =>
    rcases passed_bind passed with inside | ⟨first, result, later, ends, beyond, rfl⟩
    · exact Or.inr ⟨argument, passed_cut inside⟩
    · rw [passed_quiet (once result) beyond, List.append_nil]
      exact Or.inr ⟨argument, passed_cut ends.passed⟩

end Linking

end EchoStream.Foundation.MarkedTasks
