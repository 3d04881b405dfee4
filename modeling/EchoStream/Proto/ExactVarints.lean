import Mathlib.Algebra.Group.Nat.Defs
import EchoStream.Proto.DynamicCodec

/-! Whether a number in Rust is what its groups stand for. The loop counts the groups and
refuses an eleventh, but of the tenth only the lowest bit has room in a `u64`, and the
others are shifted out of it. -/

namespace EchoStream.Proto.ExactVarints
open Foundation.Formats Foundation.Reading
open Messages Payload DynamicCodec

/-- What a reading of groups is to be: a value that came is the number in the groups that
were consumed, and a value is refused where no groups end, or more than ten do, or their
number is too large. -/
structure Exact (bytes : Bytes) (pos : Nat) : Prop where
  came : ∀ {n rest}, word (Reader.at bytes pos) = .ok (n, rest) →
    ∃ front, Encoding front ∧ bytes.drop pos = front ++ rest.rest ∧ rest.pos = pos + front.length ∧
      n.toNat = ofGroups front
  refused : (word (Reader.at bytes pos)).Refused ↔
    (∀ front tail, Encoding front → bytes.drop pos ≠ front ++ tail) ∨
      ∃ front tail, Encoding front ∧ bytes.drop pos = front ++ tail ∧ (10 < front.length ∨ 2 ^ 64 ≤ ofGroups front)

/-- A tenth group that is the last says no more than the 64th bit. -/
def Whole (bytes : Bytes) (pos : Nat) : Prop :=
  ∀ tenth, (bytes.drop pos)[9]? = some tenth → (∀ byte ∈ (bytes.drop pos).take 9, 128 ≤ byte.toNat) →
    tenth.toNat < 2 ∨ 128 ≤ tenth.toNat

/-- What the loop does: ten groups at most, and the low 64 bits. -/
theorem word_iff {bytes : Bytes} {pos : Nat} {n : UInt64} {rest : Reader} :
    word (Reader.at bytes pos) = .ok (n, rest) ↔ ∃ front, Encoding front ∧ front.length ≤ 10 ∧
      bytes.drop pos = front ++ rest.rest ∧ rest.pos = pos + front.length ∧ n = UInt64.ofNat (ofGroups front) := by
  have count (front tail : Bytes) : (front ++ tail).length - tail.length = front.length := by
    rw [List.length_append, Nat.add_sub_cancel]
  rw [word_ok]
  constructor
  · intro there
    obtain ⟨value, number, rfl⟩ := there
    obtain ⟨⟨same, tail⟩, got, made⟩ := Option.map_eq_some_iff.1 number
    cases made
    obtain ⟨front, encoding, few, split, rfl⟩ := getGroups_iff.1 got
    have here : bytes.drop pos = front ++ tail := split
    refine ⟨front, encoding, few, here, ?_, rfl⟩
    show pos + ((bytes.drop pos).length - tail.length) = pos + front.length
    rw [here, count]
  · intro there
    obtain ⟨front, encoding, few, split, moved, rfl⟩ := there
    refine ⟨ofGroups front, ?_, rfl⟩
    have got : getGroups 127 10 (bytes.drop pos) = some (ofGroups front, rest.rest) :=
      getGroups_iff.2 ⟨front, encoding, few, split, rfl⟩
    show (getGroups 127 10 (bytes.drop pos)).map _ = _
    rw [got, Option.map_some]
    show some (ofGroups front, (⟨pos + ((bytes.drop pos).length - rest.rest.length), rest.rest⟩ : Reader)) = _
    rw [split, count, ← moved]

theorem word_refused {r : Reader} (never : ∀ n rest, word r ≠ .ok (n, rest)) : (word r).Refused := by
  cases front : r.number with
  | none => exact word_none front
  | some pair => exact absurd (word_number front) (never _ _)

theorem nine_groups {front : Bytes} (nine : front.length = 9) (tenth : UInt8) (final : tenth.toNat < 128) :
    ofGroups (front ++ [tenth]) = ofGroups front + 2 ^ 63 * tenth.toNat := by
  rw [ofGroups_append, nine, ofGroups, ofGroups, Nat.mod_eq_of_lt final]
  rfl

theorem whole_fits {bytes : Bytes} {pos : Nat} (whole : Whole bytes pos) {front tail : Bytes} (encoding : Encoding front)
    (few : front.length ≤ 10) (split : bytes.drop pos = front ++ tail) : ofGroups front < 2 ^ 64 := by
  have below : ofGroups front < 128 ^ front.length := ofGroups_lt front
  by_cases short : front.length ≤ 9
  · calc ofGroups front < 128 ^ front.length := below
      _ ≤ 128 ^ 9 := Nat.pow_le_pow_right (by decide) short
      _ ≤ 2 ^ 64 := by decide
  · obtain ⟨nine, tenth, rfl, go, final⟩ := encoding.parts
    rw [List.length_append, List.length_singleton] at few short
    have length : nine.length = 9 := by omega
    have at_nine : (bytes.drop pos)[9]? = some tenth := by
      rw [split, List.append_assoc, List.getElem?_append_right (Nat.le_of_eq length), length]
      rfl
    have before : (bytes.drop pos).take 9 = nine := by
      rw [split, List.append_assoc, ← length, List.take_left]
    have low := whole tenth at_nine (by rw [before]; exact go)
    have less : ofGroups nine < 128 ^ nine.length := ofGroups_lt nine
    rw [length] at less
    rw [nine_groups length tenth final]
    omega

theorem exact_of_whole {bytes : Bytes} {pos : Nat} (whole : Whole bytes pos) : Exact bytes pos := by
  constructor
  · intro n rest read
    obtain ⟨front, encoding, few, split, moved, rfl⟩ := word_iff.1 read
    refine ⟨front, encoding, split, moved, ?_⟩
    rw [UInt64.toNat_ofNat']
    exact Nat.mod_eq_of_lt (whole_fits whole encoding few split)
  · constructor
    · intro refused
      obtain ⟨text, failed⟩ := refused
      by_cases none : ∀ front tail, Encoding front → bytes.drop pos ≠ front ++ tail
      · exact Or.inl none
      · push Not at none
        obtain ⟨front, tail, encoding, split⟩ := none
        refine Or.inr ⟨front, tail, encoding, split, Or.inl ?_⟩
        by_contra few
        have read : word (Reader.at bytes pos) = .ok (UInt64.ofNat (ofGroups front), ⟨pos + front.length, tail⟩) :=
          word_iff.2 ⟨front, encoding, Nat.le_of_not_lt few, split, rfl, rfl⟩
        rw [failed] at read
        cases read
    · intro why
      apply word_refused
      intro n rest read
      obtain ⟨front, encoding, few, split, _, _⟩ := word_iff.1 read
      rcases why with none | ⟨other, tail, again, also, long | large⟩
      · exact none front rest.rest encoding split
      · obtain ⟨rfl, _⟩ := encoding.unique again (split.symm.trans also)
        exact absurd few (Nat.not_le.2 long)
      · obtain ⟨rfl, _⟩ := encoding.unique again (split.symm.trans also)
        exact absurd (whole_fits whole encoding few split) (Nat.not_lt.2 large)

theorem whole_of_exact {bytes : Bytes} {pos : Nat} (exactly : Exact bytes pos) : Whole bytes pos := by
  intro tenth at_nine go
  by_contra neither
  have final : tenth.toNat < 128 := by omega
  obtain ⟨within, here⟩ := List.getElem?_eq_some_iff.1 at_nine
  have length : ((bytes.drop pos).take 9).length = 9 := by
    rw [List.length_take]
    omega
  have behind : (bytes.drop pos).drop 9 = tenth :: (bytes.drop pos).drop 10 := by
    rw [List.drop_eq_getElem_cons within, here]
  have split : bytes.drop pos = ((bytes.drop pos).take 9 ++ [tenth]) ++ (bytes.drop pos).drop 10 := by
    rw [List.append_assoc, List.singleton_append, ← behind, List.take_append_drop]
  have encoding : Encoding ((bytes.drop pos).take 9 ++ [tenth]) := Encoding.append go final
  have few : ((bytes.drop pos).take 9 ++ [tenth]).length ≤ 10 := by
    rw [List.length_append, length]
    exact Nat.le_refl 10
  have read : word (Reader.at bytes pos) = .ok (UInt64.ofNat (ofGroups ((bytes.drop pos).take 9 ++ [tenth])),
      ⟨pos + ((bytes.drop pos).take 9 ++ [tenth]).length, (bytes.drop pos).drop 10⟩) :=
    word_iff.2 ⟨_, encoding, few, split, rfl, rfl⟩
  obtain ⟨front, again, also, _, same⟩ := exactly.came read
  obtain ⟨rfl, _⟩ := encoding.unique again (split.symm.trans also)
  rw [nine_groups length tenth final] at same
  have bound := (UInt64.ofNat (ofGroups ((bytes.drop pos).take 9 ++ [tenth]))).toNat_lt
  rw [nine_groups length tenth final] at bound
  omega

/-- The number that comes is the one in the groups, and only those too long, too large or
without an end are refused, exactly where a tenth group has no bits beyond a `u64`. What
was written is always read back. -/
theorem exact_iff_whole (bytes : Bytes) (pos : Nat) (n : UInt64) (before after : Bytes) :
    (Exact bytes pos ↔ Whole bytes pos) ∧
      word (Reader.at (before ++ Writer.varint n ++ after) before.length) =
        .ok (n, ⟨before.length + (Writer.varint n).length, after⟩) := by
  constructor
  · exact ⟨whole_of_exact, exact_of_whole⟩
  · rw [Reader.at, List.append_assoc, List.drop_left]
    exact word_put n before.length after

/-- 2⁶⁴ in ten groups is read as zero. -/
theorem tenth_dropped :
    ofGroups (List.replicate 9 0x80 ++ [2]) = 2 ^ 64 ∧
      word (Reader.at (List.replicate 9 0x80 ++ [2]) 0) = .ok (0, ⟨10, []⟩) ∧
      ¬ Exact (List.replicate 9 0x80 ++ [2]) 0 := by
  refine ⟨by decide, by decide, ?_⟩
  intro exactly
  have go (byte : UInt8) (within : byte ∈ (List.replicate 9 0x80 ++ [(2 : UInt8)]).take 9) : 128 ≤ byte.toNat := by
    have front : byte ∈ List.replicate 9 0x80 := within
    rw [List.eq_of_mem_replicate front]
    exact Nat.le_refl 128
  have low := whole_of_exact exactly 2 rfl go
  have high : ¬ ((2 : UInt8).toNat < 2 ∨ 128 ≤ (2 : UInt8).toNat) := by decide
  exact high low

end EchoStream.Proto.ExactVarints
