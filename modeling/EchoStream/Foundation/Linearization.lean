import Mathlib.Data.List.Nodup
import EchoStream.Foundation.Trace

/-! Linearizability. Every process calls one operation. A history of calls and returns is
linearizable if the operations, as far as they had an effect, can be put in an order that
the sequential specification allows, in which each returned operation has the result it
returned, and in which an operation that had returned before another one was called comes
before it. The rules extend such an order along with the history: by a call, by the
effect of a call, and by a return after the effect. -/

namespace EchoStream.Foundation.Linearization
open Trace

variable {π ο ρ : Type}

inductive Event (π ο ρ : Type) where
  | call (process : π) (operation : ο)
  | ret (process : π) (result : ρ)

structure Effect (π ο ρ : Type) where
  process : π
  operation : ο
  result : ρ

/-- What the specification allows after the effects before. -/
abbrev Specification (π ο ρ : Type) := List (Effect π ο ρ) → Effect π ο ρ → Prop

structure Linearizes (allowed : Specification π ο ρ) (history : List (Event π ο ρ)) (order : List (Effect π ο ρ)) : Prop where
  legal : Ordered allowed order
  once : (order.map Effect.process).Nodup
  called : ∀ effect ∈ order, .call effect.process effect.operation ∈ history
  returned : ∀ process result, .ret process result ∈ history →
    ∃ effect ∈ order, effect.process = process ∧ effect.result = result
  timely : ∀ earlier process result later, history = earlier ++ .ret process result :: later →
    ∀ before effect after, order = before ++ effect :: after →
      (∃ operation, .call effect.process operation ∈ later) → ∃ first ∈ before, first.process = process

def Linearizable (allowed : Specification π ο ρ) (history : List (Event π ο ρ)) : Prop :=
  ∃ order, Linearizes allowed history order

variable {allowed : Specification π ο ρ} {history : List (Event π ο ρ)} {order : List (Effect π ο ρ)} {process : π}
  {operation : ο} {result : ρ}

theorem linearizes_nil : Linearizes allowed [] [] where
  legal := Ordered.nil
  once := List.nodup_nil
  called := List.forall_mem_nil _
  returned _ _ member := absurd member List.not_mem_nil
  timely earlier _ _ later same := absurd same.symm (List.append_ne_nil_of_right_ne_nil earlier (List.cons_ne_nil _ later))

theorem earlier_return {earlier later : List (Event π ο ρ)} {event : Event π ο ρ}
    (same : history ++ [event] = earlier ++ .ret process result :: later) :
    (event = .ret process result ∧ later = []) ∨
      ∃ rest, later = rest ++ [event] ∧ history = earlier ++ .ret process result :: rest := by
  rcases List.eq_nil_or_concat later with none_later | ⟨rest, last, some_later⟩
  · rw [none_later] at same
    obtain ⟨-, back⟩ := List.append_inj' same rfl
    exact Or.inl ⟨List.head_eq_of_cons_eq back, none_later⟩
  · rw [some_later, List.concat_eq_append, ← List.cons_append, ← List.append_assoc] at same
    obtain ⟨front, back⟩ := List.append_inj' same rfl
    have equal : event = last := List.head_eq_of_cons_eq back
    exact Or.inr ⟨rest, by rw [some_later, List.concat_eq_append, equal], front⟩

theorem Linearizes.call (linear : Linearizes allowed history order) (fresh : ∀ effect ∈ order, effect.process ≠ process)
    (operation : ο) : Linearizes allowed (history ++ [.call process operation]) order where
  legal := linear.legal
  once := linear.once
  called effect member := List.mem_append_left _ (linear.called effect member)
  returned other result member := by
    rcases List.mem_append.1 member with old | new
    · exact linear.returned other result old
    · cases List.mem_singleton.1 new
  timely earlier other result later same before effect after split started := by
    rcases earlier_return same with ⟨impossible, -⟩ | ⟨rest, rfl, old⟩
    · cases impossible
    · obtain ⟨called, member⟩ := started
      rcases List.mem_append.1 member with there | new
      · exact linear.timely earlier other result rest old before effect after split ⟨called, there⟩
      · have itself : effect.process = process := (Event.call.inj (List.mem_singleton.1 new)).1
        exact absurd itself (fresh effect (split ▸ List.mem_append_right _ List.mem_cons_self))

theorem Linearizes.effect (linear : Linearizes allowed history order) (fresh : ∀ effect ∈ order, effect.process ≠ process)
    (called : .call process operation ∈ history) (allows : allowed order ⟨process, operation, result⟩) :
    Linearizes allowed history (order ++ [⟨process, operation, result⟩]) where
  legal := linear.legal.append allows
  once := by
    rw [List.map_append, List.map_singleton, List.nodup_append]
    refine ⟨linear.once, List.nodup_singleton _, ?_⟩
    rintro _ member other last
    obtain ⟨effect, there, rfl⟩ := List.mem_map.1 member
    rw [List.mem_singleton.1 last]
    exact fresh effect there
  called effect member := by
    rcases List.mem_append.1 member with old | new
    · exact linear.called effect old
    · rw [List.mem_singleton.1 new]
      exact called
  returned other result member := by
    obtain ⟨effect, there, same⟩ := linear.returned other result member
    exact ⟨effect, List.mem_append_left _ there, same⟩
  timely earlier other answer later same before effect after split started := by
    rcases List.eq_nil_or_concat after with none_after | ⟨rest, last, some_after⟩
    · rw [none_after] at split
      obtain ⟨front, -⟩ := List.append_inj' split rfl
      have member : .ret other answer ∈ history := same ▸ List.mem_append_right _ List.mem_cons_self
      obtain ⟨first, there, its, -⟩ := linear.returned other answer member
      exact ⟨first, front ▸ there, its⟩
    · rw [some_after, List.concat_eq_append, ← List.cons_append, ← List.append_assoc] at split
      exact linear.timely earlier other answer later same before effect rest (List.append_inj' split rfl).1 started

theorem Linearizes.ret (linear : Linearizes allowed history order) (had : ⟨process, operation, result⟩ ∈ order) :
    Linearizes allowed (history ++ [.ret process result]) order where
  legal := linear.legal
  once := linear.once
  called effect member := List.mem_append_left _ (linear.called effect member)
  returned other answer member := by
    rcases List.mem_append.1 member with old | new
    · exact linear.returned other answer old
    · cases List.mem_singleton.1 new
      exact ⟨_, had, rfl, rfl⟩
  timely earlier other answer later same before effect after split started := by
    rcases earlier_return same with ⟨-, rfl⟩ | ⟨rest, rfl, old⟩
    · obtain ⟨called, member⟩ := started
      exact absurd member List.not_mem_nil
    · obtain ⟨called, member⟩ := started
      rcases List.mem_append.1 member with there | new
      · exact linear.timely earlier other answer rest old before effect after split ⟨called, there⟩
      · cases List.mem_singleton.1 new

end EchoStream.Foundation.Linearization
