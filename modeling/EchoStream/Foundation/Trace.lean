import Mathlib.Data.List.Induction

/-! Traces in which every mark is allowed by the marks before it. Such a trace
is extended one mark at a time, each time with what the last one needs. Two conditions
allow the same traces if they agree on a mark after marks that both allow. Two ways
to read a trace off the same events agree along it exactly when they agree on what
each event adds. -/

namespace EchoStream.Foundation.Trace

variable {α : Type} {allowed : List α → α → Prop} {trace : List α} {mark : α}

def Ordered (allowed : List α → α → Prop) (trace : List α) : Prop :=
  ∀ before mark after, trace = before ++ mark :: after → allowed before mark

theorem Ordered.nil : Ordered allowed [] := by
  intro before mark after same
  exact absurd same.symm (List.append_ne_nil_of_right_ne_nil before (List.cons_ne_nil mark after))

theorem Ordered.append (ordered : Ordered allowed trace) (last : allowed trace mark) :
    Ordered allowed (trace ++ [mark]) := by
  intro before next after same
  rcases List.eq_nil_or_concat after with none_after | ⟨rest, final, some_after⟩
  · rw [none_after] at same
    obtain ⟨front, back⟩ := List.append_inj' same rfl
    cases back
    rw [← front]
    exact last
  · rw [some_after, List.concat_eq_append, ← List.cons_append, ← List.append_assoc] at same
    exact ordered before next rest (List.append_inj' same rfl).1

theorem forall_before {holds : α → Prop}
    (gives : ∀ before mark after, trace = before ++ mark :: after → (∀ earlier ∈ before, holds earlier) → holds mark)
    (before after : List α) (split : trace = before ++ after) : ∀ mark ∈ before, holds mark := by
  induction before using List.reverseRecOn generalizing after with
  | nil => exact fun _ member => absurd member List.not_mem_nil
  | append_singleton before last ih =>
    rw [List.append_assoc, List.singleton_append] at split
    have earlier := ih (last :: after) split
    intro mark member
    rcases List.mem_append.1 member with old | new
    · exact earlier mark old
    · rw [List.mem_singleton.1 new]
      exact gives before last after split earlier

/-- Two conditions that agree on a mark as long as the marks before it have what either
of them gives. -/
theorem ordered_iff {other : List α → α → Prop} {holds : α → Prop} (gives : ∀ before mark, other before mark → holds mark)
    (same : ∀ before mark after, trace = before ++ mark :: after → (∀ earlier ∈ before, holds earlier) →
      (allowed before mark ↔ other before mark)) : Ordered allowed trace ↔ Ordered other trace := by
  constructor
  · intro ordered before mark after split
    have earlier := forall_before (fun before mark after split earlier =>
      gives before mark ((same before mark after split earlier).1 (ordered before mark after split))) before _ split
    exact (same before mark after split earlier).1 (ordered before mark after split)
  · intro ordered before mark after split
    have earlier := forall_before (fun before mark after split _ => gives before mark (ordered before mark after split))
      before _ split
    exact (same before mark after split earlier).2 (ordered before mark after split)

section Readings

variable {β : Type} {read other : List α → List β} {adds otherAdds : List α → α → List β}

theorem agree_iff_adds (start : read [] = other [])
    (grows : ∀ seen event, read (seen ++ [event]) = read seen ++ adds seen event)
    (otherGrows : ∀ seen event, other (seen ++ [event]) = other seen ++ otherAdds seen event) (events : List α) :
    (∀ seen, seen <+: events → read seen = other seen) ↔
      ∀ seen event, seen ++ [event] <+: events → adds seen event = otherAdds seen event := by
  constructor
  · intro agree seen event along
    have before := agree seen ((List.prefix_append seen [event]).trans along)
    have after := agree (seen ++ [event]) along
    rw [grows, otherGrows, before] at after
    exact List.append_cancel_left after
  · intro same seen
    induction seen using List.reverseRecOn with
    | nil => exact fun _ => start
    | append_singleton seen event ih =>
      intro along
      rw [grows, otherGrows, ih ((List.prefix_append seen [event]).trans along), same seen event along]

end Readings

end EchoStream.Foundation.Trace
