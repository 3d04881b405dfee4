import EchoStream.Foundation.Reading

/-! Writers, which put a value into a string of bytes, or refuse it. The parts of a value
are written in a row. A writer that needs no more room for any part than another one writes
the same as it just when it does so for each. -/

namespace EchoStream.Foundation.Writing
open Reading

variable {α β γ : Type}

/-- The same result, or both refuse. -/
def Same (one two : Outcome γ) : Prop := (∃ value, one = .ok value ∧ two = .ok value) ∨ one.Refused ∧ two.Refused

theorem Same.of_eq {one two : Outcome γ} {value : γ} (same : two = one) (wrote : one = .ok value) : Same one two :=
  Or.inl ⟨value, wrote, same.trans wrote⟩

theorem same_ok {one two : Outcome γ} {value : γ} (wrote : one = .ok value) : Same one two ↔ two = .ok value := by
  constructor
  · intro either
    rcases either with ⟨other, left, right⟩ | ⟨⟨text, failed⟩, _⟩
    · rw [wrote] at left
      cases left
      exact right
    · rw [wrote] at failed
      cases failed
  · exact fun also => Or.inl ⟨value, wrote, also⟩

/-- Reading what was written gives the value back. -/
def Returns (wrote : Outcome (List β)) (read : List β → Outcome γ) (value : γ) : Prop :=
  ∃ bytes, wrote = .ok bytes ∧ read bytes = .ok value

def both (first second : Outcome (List β)) : Outcome (List β) := do
  let front ← first
  let back ← second
  pure (front ++ back)

theorem both_ok {first second : Outcome (List β)} {out : List β} :
    both first second = .ok out ↔ ∃ front back, first = .ok front ∧ second = .ok back ∧ out = front ++ back := by
  constructor
  · intro wrote
    obtain ⟨front, left, later⟩ := Outcome.bind_ok.1 wrote
    obtain ⟨back, right, same⟩ := Outcome.bind_ok.1 later
    cases same
    exact ⟨front, back, left, right, rfl⟩
  · rintro ⟨front, back, left, right, rfl⟩
    exact Outcome.bind_ok.2 ⟨front, left, Outcome.bind_ok.2 ⟨back, right, rfl⟩⟩

theorem both_assoc (first second third : Outcome (List β)) :
    both (both first second) third = both first (both second third) := by
  cases first with
  | ok front =>
    cases second with
    | ok mid =>
      cases third with
      | ok back => exact congrArg Outcome.ok (List.append_assoc front mid back)
      | err text => rfl
      | panic => rfl
    | err text => rfl
    | panic => rfl
  | err text => rfl
  | panic => rfl

theorem nothing_both (second : Outcome (List β)) : both (.ok []) second = second := by
  cases second with
  | ok back => rfl
  | err text => rfl
  | panic => rfl

theorem both_nothing (first : Outcome (List β)) : both first (.ok []) = first := by
  cases first with
  | ok front => exact congrArg Outcome.ok (List.append_nil front)
  | err text => rfl
  | panic => rfl

def joined (write : α → Outcome (List β)) : List α → Outcome (List β)
  | [] => .ok []
  | value :: values => both (write value) (joined write values)

variable {write one two : α → Outcome (List β)}

theorem joined_append (values more : List α) :
    joined write (values ++ more) = both (joined write values) (joined write more) := by
  induction values with
  | nil => exact (nothing_both _).symm
  | cons value values ih =>
    calc both (write value) (joined write (values ++ more))
      _ = both (write value) (both (joined write values) (joined write more)) := by rw [ih]
      _ = both (joined write (value :: values)) (joined write more) := (both_assoc _ _ _).symm

theorem joined_single (value : α) : joined write [value] = write value := both_nothing _

theorem joined_flatMap (parts : γ → List α) (values : List γ) :
    joined write (values.flatMap parts) = joined (fun value => joined write (parts value)) values := by
  induction values with
  | nil => rfl
  | cons value values ih => rw [List.flatMap_cons, joined_append, ih, joined]

theorem joined_map (f : γ → α) (values : List γ) :
    joined write (values.map f) = joined (fun value => write (f value)) values := by
  induction values with
  | nil => rfl
  | cons value values ih => rw [List.map_cons, joined, ih, joined]

theorem joined_congr {values : List α} (same : ∀ value ∈ values, two value = one value) :
    joined two values = joined one values := by
  induction values with
  | nil => rfl
  | cons value values ih =>
    have rest := ih (fun other member => same other (List.mem_cons_of_mem _ member))
    rw [joined, joined, same value List.mem_cons_self, rest]

def written : Outcome (List β) → List β
  | .ok bytes => bytes
  | _ => []

theorem joined_written {values : List α} (total : ∀ value ∈ values, ∃ bytes, write value = .ok bytes) :
    joined write values = .ok (values.flatMap (fun value => written (write value))) := by
  induction values with
  | nil => rfl
  | cons value values ih =>
    obtain ⟨front, first⟩ := total value List.mem_cons_self
    have rest := ih (fun other member => total other (List.mem_cons_of_mem _ member))
    rw [joined, rest, List.flatMap_cons, first]
    rfl

/-- The other writer needs no more room for the value, if it writes it. -/
def Fits (first second : Outcome (List β)) : Prop :=
  ∃ bytes, first = .ok bytes ∧ ∀ other, second = .ok other → other.length ≤ bytes.length

theorem Fits.of_eq {first second : Outcome (List β)} {bytes : List β} (wrote : first = .ok bytes) (same : second = first) :
    Fits first second := by
  refine ⟨bytes, wrote, fun other also => ?_⟩
  rw [same, wrote] at also
  cases also
  exact Nat.le_refl _

theorem joined_fits {values : List α} (fits : ∀ value ∈ values, Fits (one value) (two value)) :
    Fits (joined one values) (joined two values) := by
  induction values with
  | nil => exact Fits.of_eq rfl rfl
  | cons value values ih =>
    obtain ⟨front, wrote, room⟩ := fits value List.mem_cons_self
    obtain ⟨back, rest, left⟩ := ih (fun other member => fits other (List.mem_cons_of_mem _ member))
    refine ⟨front ++ back, both_ok.2 ⟨front, back, wrote, rest, rfl⟩, fun other also => ?_⟩
    obtain ⟨front', back', first, second, rfl⟩ := both_ok.1 also
    rw [List.length_append, List.length_append]
    exact Nat.add_le_add (room front' first) (left back' second)

/-- What is no longer in any part stands at the same places, or is shorter. -/
theorem joined_same_iff {values : List α} (fits : ∀ value ∈ values, Fits (one value) (two value)) :
    Same (joined one values) (joined two values) ↔ ∀ value ∈ values, two value = one value := by
  induction values with
  | nil => exact iff_of_true (Or.inl ⟨[], rfl, rfl⟩) (fun _ member => absurd member List.not_mem_nil)
  | cons value values ih =>
    obtain ⟨front, wrote, room⟩ := fits value List.mem_cons_self
    have others : ∀ other ∈ values, Fits (one other) (two other) :=
      fun other member => fits other (List.mem_cons_of_mem _ member)
    obtain ⟨back, rest, left⟩ := joined_fits others
    have whole : joined one (value :: values) = .ok (front ++ back) := both_ok.2 ⟨front, back, wrote, rest, rfl⟩
    rw [List.forall_mem_cons, ← ih others, same_ok whole, same_ok rest, wrote]
    constructor
    · intro also
      obtain ⟨front', back', first, second, same⟩ := both_ok.1 also
      have lengths := congrArg List.length same
      rw [List.length_append, List.length_append] at lengths
      have fore := room front' first
      have aft := left back' second
      obtain ⟨rfl, rfl⟩ := List.append_inj same (by omega)
      exact ⟨first, second⟩
    · exact fun each => both_ok.2 ⟨front, back, each.1, each.2, rfl⟩

end EchoStream.Foundation.Writing
