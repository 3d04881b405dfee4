import EchoStream.Foundation.Tasks

/-! Two tasks side by side. They are alike when they take their sections in step,
from related states to related states, and return related values. The rule for
scripts asks that the sections of a script are the same ones, and that its calls
are at related arguments and go on alike after related results. -/

namespace EchoStream.Foundation.Tasks

variable {σ τ υ α α' β β' κ κ' ρ ρ' : Type}

namespace Task

def Alike (states : σ → τ → Prop) (values : α → β → Prop) : Task σ α → Task τ β → Prop
  | done value, done other => values value other
  | step update next, step update' next' => ∀ state state', states state state' →
      states (update state) (update' state') ∧ (next state).Alike states values (next' state')
  | _, _ => False

variable {states : σ → τ → Prop} {values : α → β → Prop} {task : Task σ α} {other : Task τ β}

theorem Alike.eval (alike : task.Alike states values other) {state : σ} {state' : τ} (related : states state state') :
    values (task.eval state).1 (other.eval state').1 ∧ states (task.eval state).2 (other.eval state').2 := by
  induction task generalizing other state state' with
  | done value =>
    cases other with
    | done value' => exact ⟨alike, related⟩
    | step update' next' => exact alike.elim
  | step update next ih =>
    cases other with
    | done value' => exact alike.elim
    | step update' next' =>
      obtain ⟨after, rest⟩ := alike state state' related
      exact ih state rest after

theorem Alike.bind {results : α' → β' → Prop} {rest : α → Task σ α'} {rest' : β → Task τ β'}
    (alike : task.Alike states values other)
    (goesOn : ∀ value value', values value value' → (rest value).Alike states results (rest' value')) :
    (task >>= rest).Alike states results (other >>= rest') := by
  induction task generalizing other with
  | done value =>
    cases other with
    | done value' => exact goesOn value value' alike
    | step update' next' => exact alike.elim
  | step update next ih =>
    cases other with
    | done value' => exact alike.elim
    | step update' next' =>
      intro state state' related
      obtain ⟨after, later⟩ := alike state state' related
      exact ⟨after, ih state later⟩

/-- Where related states agree on whether a limit has passed, alike tasks are given up
at the same point. -/
theorem Alike.cut (alike : task.Alike states values other) {expired : σ → Bool} {expired' : τ → Bool}
    (agree : ∀ state state', states state state' → expired state = expired' state') :
    (task.cut expired).Alike states (Option.Rel values) (other.cut expired') := by
  induction task generalizing other with
  | done value =>
    cases other with
    | done value' => exact .some alike
    | step update' next' => exact alike.elim
  | step update next ih =>
    cases other with
    | done value' => exact alike.elim
    | step update' next' =>
      intro state state' related
      obtain ⟨after, later⟩ := alike state state' related
      dsimp only
      rw [← agree state state' related]
      split
      · exact ⟨related, .none⟩
      · exact ⟨after, ih state later⟩

/-- A task over a part of the state that related states have in common is alike
to itself. -/
theorem Alike.zoom {get : σ → υ} {get' : τ → υ} {set : υ → σ → σ} {set' : υ → τ → τ}
    (shared : ∀ state state', states state state' → get state = get' state')
    (sets : ∀ part state state', states state state' → states (set part state) (set' part state')) (task : Task υ α) :
    (task.zoom get set).Alike states Eq (task.zoom get' set') := by
  induction task with
  | done value => exact rfl
  | step update next ih =>
    intro state state' related
    dsimp only
    rw [← shared state state' related]
    exact ⟨sets _ _ _ related, ih (get state)⟩

end Task

namespace Script

def Alike (arguments : κ → κ' → Prop) (results : ρ → ρ' → Prop) (values : α → α' → Prop) :
    Script σ κ ρ α → Script σ κ' ρ' α' → Prop
  | done value, done other => values value other
  | step update next, step update' next' =>
      update = update' ∧ ∀ state, (next state).Alike arguments results values (next' state)
  | call argument resume, call argument' resume' => arguments argument argument' ∧
      ∀ result result', results result result' → (resume result).Alike arguments results values (resume' result')
  | within limit argument resume, within limit' argument' resume' => limit = limit' ∧ arguments argument argument' ∧
      ∀ result result', Option.Rel results result result' →
        (resume result).Alike arguments results values (resume' result')
  | _, _ => False

theorem Alike.link {arguments : κ → κ' → Prop} {results : ρ → ρ' → Prop} {values : α → α' → Prop}
    {script : Script υ κ ρ α} {other : Script υ κ' ρ' α'} (alike : script.Alike arguments results values other)
    {states : σ → τ → Prop} {get : σ → υ} {get' : τ → υ} {set : υ → σ → σ} {set' : υ → τ → τ}
    {expired : Nat → σ → Bool} {expired' : Nat → τ → Bool} {callee : κ → Task σ ρ} {callee' : κ' → Task τ ρ'}
    (shared : ∀ state state', states state state' → get state = get' state')
    (sets : ∀ part state state', states state state' → states (set part state) (set' part state'))
    (agree : ∀ limit state state', states state state' → expired limit state = expired' limit state')
    (called : ∀ argument argument', arguments argument argument' →
      (callee argument).Alike states results (callee' argument')) :
    (script.link get set expired callee).Alike states values (other.link get' set' expired' callee') := by
  induction script generalizing other with
  | done value =>
    cases other with
    | done value' => exact alike
    | _ => exact alike.elim
  | step update next ih =>
    cases other with
    | step update' next' =>
      obtain ⟨rfl, later⟩ := alike
      intro state state' related
      dsimp only
      rw [← shared state state' related]
      exact ⟨sets _ _ _ related, ih (get state) (later (get state))⟩
    | _ => exact alike.elim
  | call argument resume ih =>
    cases other with
    | call argument' resume' =>
      obtain ⟨related, goesOn⟩ := alike
      exact (called argument argument' related).bind (fun result result' same => ih result (goesOn result result' same))
    | _ => exact alike.elim
  | within limit argument resume ih =>
    cases other with
    | within limit' argument' resume' =>
      obtain ⟨rfl, related, goesOn⟩ := alike
      have given := (called argument argument' related).cut (agree limit)
      exact given.bind (fun result result' same => ih result (goesOn result result' same))
    | _ => exact alike.elim

end Script

end EchoStream.Foundation.Tasks
