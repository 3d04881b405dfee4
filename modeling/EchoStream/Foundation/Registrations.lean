import Mathlib.Algebra.Group.Nat.Defs
import Mathlib.Tactic.Common
import Mathlib.Data.List.Nodup

/-! Registrations under names and their removal by the id each one was given. What is
registered is said in terms of the acts alone, the first one first: under a name the
registrations that were not removed later, or the last registration only. The rules say
what one more act changes. Ids may come twice, and then one removal is of all that have
the id. -/

namespace EchoStream.Foundation.Registrations

variable {ι α β : Type} [DecidableEq ι] [DecidableEq α]

inductive Act (ι α β : Type) where
  | on (id : ι) (name : α) (value : β)
  | off (id : ι)

def removes (id : ι) : List (Act ι α β) → Bool
  | [] => false
  | .on _ _ _ :: later => removes id later
  | .off other :: later => other = id || removes id later

def registers (name : α) : List (Act ι α β) → Bool
  | [] => false
  | .on _ other _ :: later => other = name || registers name later
  | .off _ :: later => registers name later

def listed (name : α) : List (Act ι α β) → List (ι × β)
  | [] => []
  | .on id other value :: later =>
      if other = name ∧ removes id later = false then (id, value) :: listed name later else listed name later
  | .off _ :: later => listed name later

/-- The last registration under the name, if it was not removed. -/
def current (name : α) : List (Act ι α β) → Option (ι × β)
  | [] => none
  | .on id other value :: later =>
      if registers name later then current name later
      else if other = name ∧ removes id later = false then some (id, value)
      else none
  | .off _ :: later => current name later

def given : List (Act ι α β) → List ι
  | [] => []
  | .on id _ _ :: later => id :: given later
  | .off _ :: later => given later

variable {id : ι} {name : α} {value : β} {acts : List (Act ι α β)}

omit [DecidableEq α] in
theorem removes_iff : removes id acts = true ↔ .off id ∈ acts := by
  induction acts with
  | nil => simp [removes]
  | cons act later ih =>
    cases act with
    | on other name value => simp [removes, ih]
    | off other =>
      simp only [removes, Bool.or_eq_true, decide_eq_true_eq, ih, List.mem_cons, Act.off.injEq]
      exact or_congr_left eq_comm

omit [DecidableEq ι] in
theorem registers_iff : registers name acts = true ↔ ∃ id value, .on id name value ∈ acts := by
  induction acts with
  | nil => simp [registers]
  | cons act later ih =>
    cases act with
    | on id other value =>
      simp only [registers, Bool.or_eq_true, decide_eq_true_eq, ih, List.mem_cons]
      constructor
      · rintro (rfl | ⟨id', value', there⟩)
        · exact ⟨id, value, Or.inl rfl⟩
        · exact ⟨id', value', Or.inr there⟩
      · rintro ⟨id', value', same | there⟩
        · exact Or.inl (Act.on.inj same).2.1.symm
        · exact Or.inr ⟨id', value', there⟩
    | off other => simp [registers, ih]

omit [DecidableEq α] in
theorem removes_append (id : ι) (acts more : List (Act ι α β)) :
    removes id (acts ++ more) = (removes id acts || removes id more) := by
  induction acts with
  | nil => rfl
  | cons act later ih =>
    cases act with
    | on other name value => exact ih
    | off other => rw [List.cons_append, removes, removes, ih, Bool.or_assoc]

omit [DecidableEq ι] in
theorem registers_append (name : α) (acts more : List (Act ι α β)) :
    registers name (acts ++ more) = (registers name acts || registers name more) := by
  induction acts with
  | nil => rfl
  | cons act later ih =>
    cases act with
    | on id other value => rw [List.cons_append, registers, registers, ih, Bool.or_assoc]
    | off other => exact ih

theorem listed_on (acts : List (Act ι α β)) (id : ι) (name other : α) (value : β) :
    listed name (acts ++ [.on id other value]) = listed name acts ++ if other = name then [(id, value)] else [] := by
  induction acts with
  | nil =>
    simp only [List.nil_append, listed, removes, and_true]
  | cons act later ih =>
    cases act with
    | on earlier called what =>
      rw [List.cons_append, listed, listed, removes_append, ih]
      have unremoved : removes earlier [.on id other value] = false := rfl
      rw [unremoved, Bool.or_false]
      split <;> rfl
    | off earlier => exact ih

theorem listed_off (acts : List (Act ι α β)) (id : ι) (name : α) :
    listed name (acts ++ [.off id]) = (listed name acts).filter (fun entry => entry.1 ≠ id) := by
  induction acts with
  | nil => rfl
  | cons act later ih =>
    cases act with
    | on earlier called what =>
      rw [List.cons_append, listed, listed, removes_append, ih]
      have removal : removes earlier ([.off id] : List (Act ι α β)) = decide (id = earlier) := Bool.or_false _
      rw [removal]
      by_cases same : earlier = id
      · subst same
        have gone : ¬ (called = name ∧ (removes earlier later || decide (earlier = earlier)) = false) := by simp
        rw [if_neg gone]
        by_cases kept : called = name ∧ removes earlier later = false
        · rw [if_pos kept, List.filter_cons_of_neg (by simp)]
        · rw [if_neg kept]
      · have other : decide (id = earlier) = false := decide_eq_false (Ne.symm same)
        rw [other, Bool.or_false]
        by_cases kept : called = name ∧ removes earlier later = false
        · rw [if_pos kept, if_pos kept, List.filter_cons_of_pos (by simpa using same)]
        · rw [if_neg kept, if_neg kept]
    | off earlier => exact ih

theorem current_on (acts : List (Act ι α β)) (id : ι) (name other : α) (value : β) :
    current name (acts ++ [.on id other value]) = if other = name then some (id, value) else current name acts := by
  induction acts with
  | nil =>
    simp only [List.nil_append, current, registers, removes, and_true, Bool.false_eq_true, if_false]
  | cons act later ih =>
    cases act with
    | on earlier called what =>
      rw [List.cons_append, current, current, registers_append, removes_append, ih]
      have unremoved : removes earlier [.on id other value] = false := rfl
      have registered : registers name ([.on id other value] : List (Act ι α β)) = decide (other = name) := Bool.or_false _
      rw [unremoved, registered, Bool.or_false]
      by_cases same : other = name
      · rw [if_pos same, if_pos (by simp [same]), if_pos same]
      · rw [if_neg same, if_neg same, decide_eq_false same, Bool.or_false]
    | off earlier => exact ih

theorem current_off (acts : List (Act ι α β)) (id : ι) (name : α) :
    current name (acts ++ [.off id]) = (current name acts).filter (fun entry => entry.1 ≠ id) := by
  induction acts with
  | nil => rfl
  | cons act later ih =>
    cases act with
    | on earlier called what =>
      rw [List.cons_append, current, current, registers_append, removes_append, ih]
      have removal : removes earlier ([.off id] : List (Act ι α β)) = decide (id = earlier) := Bool.or_false _
      have unregistered : registers name ([.off id] : List (Act ι α β)) = false := rfl
      rw [removal, unregistered, Bool.or_false]
      by_cases again : registers name later = true
      · rw [if_pos again, if_pos again]
      · rw [if_neg again, if_neg again]
        by_cases same : earlier = id
        · subst same
          have gone : ¬ (called = name ∧ (removes earlier later || decide (earlier = earlier)) = false) := by simp
          rw [if_neg gone]
          by_cases kept : called = name ∧ removes earlier later = false
          · rw [if_pos kept, Option.filter_some, if_neg (by simp)]
          · rw [if_neg kept]
            rfl
        · rw [decide_eq_false (Ne.symm same), Bool.or_false]
          by_cases kept : called = name ∧ removes earlier later = false
          · rw [if_pos kept, Option.filter_some, if_pos (by simpa using same)]
          · rw [if_neg kept]
            rfl
    | off earlier => exact ih

/-- What is current was registered, and after it neither was anything registered under
the name nor the id removed. -/
theorem current_iff : current name acts = some (id, value) ↔
    ∃ before after, acts = before ++ .on id name value :: after ∧ registers name after = false ∧ removes id after = false := by
  induction acts with
  | nil => simp [current]
  | cons act later ih =>
    have tail : (∃ before after, act :: later = before ++ .on id name value :: after ∧ registers name after = false ∧
        removes id after = false) ↔ (act = .on id name value ∧ registers name later = false ∧ removes id later = false) ∨
        current name later = some (id, value) := by
      rw [ih]
      constructor
      · rintro ⟨before, after, parts, alone, kept⟩
        cases before with
        | nil =>
          cases parts
          exact Or.inl ⟨rfl, alone, kept⟩
        | cons first before =>
          cases parts
          exact Or.inr ⟨before, after, rfl, alone, kept⟩
      · rintro (⟨rfl, alone, kept⟩ | ⟨before, after, rfl, alone, kept⟩)
        · exact ⟨[], later, rfl, alone, kept⟩
        · exact ⟨act :: before, after, rfl, alone, kept⟩
    rw [tail]
    cases act with
    | off other => simp [current]
    | on other called what =>
      rw [current]
      by_cases again : registers name later = true
      · rw [if_pos again]
        simp [again]
      · have none : ¬ current name later = some (id, value) := by
          intro there
          obtain ⟨before, after, parts, -, -⟩ := ih.1 there
          exact again (registers_iff.2 ⟨id, value, parts ▸ List.mem_append_right _ List.mem_cons_self⟩)
        rw [if_neg again]
        constructor
        · intro there
          split at there
          · rename_i both
            cases there
            exact Or.inl ⟨by rw [both.1], by simpa using again, both.2⟩
          · cases there
        · rintro (⟨same, -, unremoved⟩ | there)
          · cases same
            rw [if_pos ⟨rfl, unremoved⟩]
          · exact absurd there none

theorem mem_listed : (id, value) ∈ listed name acts ↔
    ∃ before after, acts = before ++ .on id name value :: after ∧ removes id after = false := by
  induction acts with
  | nil => simp [listed]
  | cons act later ih =>
    have tail : (∃ before after, act :: later = before ++ .on id name value :: after ∧ removes id after = false) ↔
        (act = .on id name value ∧ removes id later = false) ∨ (id, value) ∈ listed name later := by
      rw [ih]
      constructor
      · rintro ⟨before, after, parts, kept⟩
        cases before with
        | nil =>
          cases parts
          exact Or.inl ⟨rfl, kept⟩
        | cons first before =>
          cases parts
          exact Or.inr ⟨before, after, rfl, kept⟩
      · rintro (⟨rfl, kept⟩ | ⟨before, after, rfl, kept⟩)
        · exact ⟨[], later, rfl, kept⟩
        · exact ⟨act :: before, after, rfl, kept⟩
    rw [tail]
    cases act with
    | off other => simp [listed]
    | on other called what =>
      rw [listed]
      by_cases both : called = name ∧ removes other later = false
      · obtain ⟨rfl, unremoved⟩ := both
        rw [if_pos ⟨rfl, unremoved⟩, List.mem_cons]
        constructor
        · rintro (same | there)
          · cases same
            exact Or.inl ⟨rfl, unremoved⟩
          · exact Or.inr there
        · rintro (⟨same, -⟩ | there)
          · cases same
            exact Or.inl rfl
          · exact Or.inr there
      · rw [if_neg both]
        constructor
        · exact Or.inr
        · rintro (⟨same, unremoved⟩ | there)
          · cases same
            exact absurd ⟨rfl, unremoved⟩ both
          · exact there

theorem listed_sublist (name : α) (acts : List (Act ι α β)) : ((listed name acts).map Prod.fst).Sublist (given acts) := by
  induction acts with
  | nil => exact List.Sublist.refl _
  | cons act later ih =>
    cases act with
    | on id other value =>
      rw [listed, given]
      split
      · exact ih.cons_cons id
      · exact ih.cons id
    | off id => exact ih

theorem current_unregistered (never : registers name acts = false) : current name acts = none := by
  induction acts with
  | nil => rfl
  | cons act later ih =>
    cases act with
    | on other called what =>
      rw [registers, Bool.or_eq_false_iff, decide_eq_false_iff_not] at never
      rw [current, never.2, if_neg (by decide), if_neg (fun both => never.1 both.1)]
    | off other => exact ih never

theorem current_last (before : List (Act ι α β)) {after : List (Act ι α β)} (last : registers name after = false) :
    current name (before ++ .on id name value :: after) = if removes id after then none else some (id, value) := by
  induction before with
  | nil =>
    rw [List.nil_append, current, last, if_neg (by decide)]
    cases removes id after <;> simp
  | cons act before ih =>
    cases act with
    | on other called what =>
      have again : registers name (before ++ .on id name value :: after) = true :=
        registers_iff.2 ⟨id, value, List.mem_append_right _ List.mem_cons_self⟩
      rw [List.cons_append, current, if_pos again]
      exact ih
    | off other => exact ih

theorem listed_unregistered (never : registers name acts = false) : listed name acts = [] := by
  induction acts with
  | nil => rfl
  | cons act later ih =>
    cases act with
    | on other called what =>
      rw [registers, Bool.or_eq_false_iff, decide_eq_false_iff_not] at never
      rw [listed, if_neg (fun both => never.1 both.1)]
      exact ih never.2
    | off other => exact ih never

theorem listed_last (before : List (Act ι α β)) {after : List (Act ι α β)} (last : registers name after = false)
    (kept : removes id after = false) :
    (listed name (before ++ .on id name value :: after)).getLast? = some (id, value) := by
  induction before with
  | nil =>
    rw [List.nil_append, listed, if_pos ⟨rfl, kept⟩, listed_unregistered last]
    rfl
  | cons act before ih =>
    cases act with
    | on other called what =>
      rw [List.cons_append, listed]
      split
      · rw [List.getLast?_cons, ih]
        rfl
      · exact ih
    | off other => exact ih

omit [DecidableEq ι] in
theorem last_or_never (name : α) (acts : List (Act ι α β)) :
    registers name acts = false ∨
      ∃ before id value after, acts = before ++ .on id name value :: after ∧ registers name after = false := by
  induction acts with
  | nil => exact Or.inl rfl
  | cons act later ih =>
    rcases ih with never | ⟨before, id, value, after, rfl, last⟩
    · cases act with
      | on id other value =>
        by_cases same : other = name
        · subst same
          exact Or.inr ⟨[], id, value, later, rfl, never⟩
        · exact Or.inl (by rw [registers, never, decide_eq_false same]; rfl)
      | off id => exact Or.inl never
    · exact Or.inr ⟨act :: before, id, value, after, rfl, last⟩

/-! The acts on a table among everything that happens. -/

section Logs

variable {ε : Type} {act : ε → Option (Act ι α β)} {event : ε}

omit [DecidableEq ι] [DecidableEq α] in
theorem acts_some {more : Act ι α β} (acts : act event = some more) (log : List ε) :
    (log ++ [event]).filterMap act = log.filterMap act ++ [more] := by
  rw [List.filterMap_append, List.filterMap_cons_some acts, List.filterMap_nil]

omit [DecidableEq ι] [DecidableEq α] in
theorem acts_none (unrelated : act event = none) (log : List ε) :
    (log ++ [event]).filterMap act = log.filterMap act := by
  rw [List.filterMap_append, List.filterMap_cons_none unrelated, List.filterMap_nil, List.append_nil]

omit [DecidableEq α] in
theorem removes_map {total : ε → Act ι α β} {log : List ε} {id : ι} :
    removes id (log.map total) = true ↔ ∃ event ∈ log, total event = .off id := by
  rw [removes_iff, List.mem_map]

omit [DecidableEq ι] in
theorem registers_map {total : ε → Act ι α β} {log : List ε} {name : α} :
    registers name (log.map total) = true ↔ ∃ event ∈ log, ∃ id value, total event = .on id name value := by
  rw [registers_iff]
  constructor
  · rintro ⟨id, value, member⟩
    obtain ⟨event, there, acted⟩ := List.mem_map.1 member
    exact ⟨event, there, id, value, acted⟩
  · rintro ⟨event, there, id, value, acted⟩
    exact ⟨id, value, List.mem_map.2 ⟨event, there, acted⟩⟩

end Logs

/-! A map to lists drops the entries that have become empty. -/

section Filled

variable {γ : Type}

def filled (entries : List γ) : Option (List γ) := if entries.isEmpty then none else some entries

@[simp] theorem filled_getD (entries : List γ) : (filled entries).getD [] = entries := by
  cases entries <;> rfl

theorem filled_append (entries : List γ) (entry : γ) : filled (entries ++ [entry]) = some (entries ++ [entry]) := by
  cases entries <;> rfl

theorem filled_filter (keep : γ → Bool) (entries : List γ) :
    ((filled entries).map (List.filter keep)).filter (fun left => !left.isEmpty) = filled (entries.filter keep) := by
  cases entries with
  | nil => rfl
  | cons entry rest =>
    show (some ((entry :: rest).filter keep)).filter (fun left => !left.isEmpty) = filled ((entry :: rest).filter keep)
    cases (entry :: rest).filter keep <;> rfl

end Filled

/-! The ids that a counter of 64 bits gives, from its value on. -/

section Counter

def numbered (start : UInt64) (count : Nat) : List UInt64 := (List.range count).map (fun i => start + UInt64.ofNat i)

theorem numbered_succ (start : UInt64) (count : Nat) : numbered start (count + 1) = start :: numbered (start + 1) count := by
  rw [numbered, List.range_succ_eq_map, List.map_cons, List.map_map, numbered]
  refine congrArg₂ List.cons (by simp) (List.map_congr_left (fun i _ => ?_))
  show start + UInt64.ofNat (i + 1) = start + 1 + UInt64.ofNat i
  rw [UInt64.ofNat_add, UInt64.add_assoc, UInt64.add_comm (UInt64.ofNat i)]
  rfl

theorem numbered_append (start : UInt64) (first second : Nat) :
    numbered start (first + second) = numbered start first ++ numbered (start + UInt64.ofNat first) second := by
  rw [numbered, List.range_add, List.map_append, List.map_map, numbered, numbered]
  refine congrArg _ (List.map_congr_left (fun i _ => ?_))
  show start + UInt64.ofNat (first + i) = start + UInt64.ofNat first + UInt64.ofNat i
  rw [UInt64.ofNat_add, UInt64.add_assoc]

theorem numbered_nodup (start : UInt64) {count : Nat} (few : count ≤ 2 ^ 64) : (numbered start count).Nodup := by
  apply List.Nodup.map_on _ List.nodup_range
  intro i below j under same
  rw [List.mem_range] at below under
  have equal := congrArg UInt64.toNat ((UInt64.add_right_inj start).1 same)
  rw [UInt64.toNat_ofNat', UInt64.toNat_ofNat'] at equal
  omega

end Counter

end EchoStream.Foundation.Registrations
