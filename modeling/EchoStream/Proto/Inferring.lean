import EchoStream.Foundation.Zigzag
import EchoStream.Proto.Payload

/-! The inference of a payload without a schema. One turn of its loop is the same in all
the program's readers, up to their integers and their texts. The loop splits the payload
into fields in the same way wherever the reader stands, and takes all that is left. -/

namespace EchoStream.Proto.Inferring
open Foundation.Formats Foundation.Reading Foundation.Zigzag
open Messages Payload

/-- `cut` is what becomes of a varint, and `size` of a varint that may be a length. -/
structure Inference (α : Type) where
  cut : Nat → Nat
  size : Nat → Nat
  plus : Nat → Nat → Option Nat
  zero : α
  inferred : Bytes → α
  number : Nat → α

variable {α : Type}

namespace Inference

/-- What a varint other than zero is the beginning of. A number is read a second time, to
the same. -/
def readOn (i : Inference α) (v : Nat) : Read Reader α := fun r =>
  if i.size v ≤ r.remaining then (i.inferred <$> take i.plus (i.size v)) r else .ok (i.number v, r)

/-- One turn of the loop in `auto`. -/
def field (i : Inference α) : Read Reader α := do
  let v ← varint i.cut
  if v = 0 then pure i.zero else i.readOn v

/-- Sums up to the limit are right. -/
structure Sound (i : Inference α) (limit : Nat) : Prop where
  cuts : Cut i.cut
  sums : ∀ a b, a + b < limit → i.plus a b = some (a + b)

/-- The payload falls into fields, whatever stands in front of it. -/
inductive Splits (i : Inference α) : Bytes → List α → Prop where
  | nothing : Splits i [] []
  | zero {bytes later : Bytes} {n : Nat} {values : List α} (front : getGroups 127 10 bytes = some (n, later))
      (none : i.cut n = 0) (rest : Splits i later values) : Splits i bytes (i.zero :: values)
  | sized {bytes later : Bytes} {n : Nat} {values : List α} (front : getGroups 127 10 bytes = some (n, later))
      (some : i.cut n ≠ 0) (enough : i.size (i.cut n) ≤ later.length)
      (rest : Splits i (later.drop (i.size (i.cut n))) values) :
      Splits i bytes (i.inferred (later.take (i.size (i.cut n))) :: values)
  | number {bytes later : Bytes} {n : Nat} {values : List α} (front : getGroups 127 10 bytes = some (n, later))
      (some : i.cut n ≠ 0) (short : later.length < i.size (i.cut n)) (rest : Splits i later values) :
      Splits i bytes (i.number (i.cut n) :: values)

variable {i : Inference α} {limit : Nat}

theorem take_shorter {plus : Nat → Nat → Option Nat} {len : Nat} {r rest : Reader} {data : Bytes}
    (came : take plus len r = .ok (data, rest)) : rest.remaining ≤ r.remaining := by
  obtain ⟨n, _, _, rfl⟩ := take_front_of_ok came
  rw [Reader.remaining, List.length_drop]
  exact Nat.sub_le _ _

theorem field_shrinks (cuts : Cut i.cut) : Read.Shrinks Reader.remaining i.field := by
  intro r rest value came
  obtain ⟨v, mid, first, later⟩ := Read.bind_ok.1 came
  obtain ⟨n, front, _⟩ := (varint_ok cuts).1 first
  have less := number_remaining front
  by_cases zero : v = 0
  · rw [if_pos zero] at later
    cases later
    exact less
  · rw [if_neg zero, readOn] at later
    split at later
    · obtain ⟨data, took, _⟩ := Read.map_ok.1 later
      exact Nat.lt_of_le_of_lt (take_shorter took) less
    · cases later
      exact less

theorem field_value {r rest : Reader} {value : α} (came : i.field r = .ok (value, rest)) :
    value = i.zero ∨ (∃ data, value = i.inferred data) ∨ ∃ v, value = i.number v := by
  obtain ⟨v, mid, _, later⟩ := Read.bind_ok.1 came
  by_cases zero : v = 0
  · rw [if_pos zero] at later
    cases later
    exact Or.inl rfl
  · rw [if_neg zero, readOn] at later
    split at later
    · obtain ⟨data, _, made⟩ := Read.map_ok.1 later
      exact Or.inr (Or.inl ⟨data, made.symm⟩)
    · cases later
      exact Or.inr (Or.inr ⟨v, rfl⟩)

theorem field_none (cuts : Cut i.cut) (pos : Nat) {bytes : Bytes} (front : getGroups 127 10 bytes = none) :
    (i.field ⟨pos, bytes⟩).Refused := by
  apply Read.bind_refused
  apply varint_none cuts
  rw [Reader.number, front, Option.map_none]

theorem field_front (sound : Sound i limit) {pos n : Nat} {bytes later : Bytes} (slice : pos + bytes.length < limit)
    (front : getGroups 127 10 bytes = some (n, later)) :
    i.field ⟨pos, bytes⟩ =
      if i.cut n = 0 then .ok (i.zero, ⟨pos + (bytes.length - later.length), later⟩)
      else if i.size (i.cut n) ≤ later.length then
        .ok (i.inferred (later.take (i.size (i.cut n))),
          ⟨pos + (bytes.length - later.length) + i.size (i.cut n), later.drop (i.size (i.cut n))⟩)
      else .ok (i.number (i.cut n), ⟨pos + (bytes.length - later.length), later⟩) := by
  have shorter := getGroups_length front
  have number : (Reader.mk pos bytes).number = some (n, ⟨pos + (bytes.length - later.length), later⟩) := by
    rw [Reader.number, front, Option.map_some]
  rw [field, Read.bind_of_ok (varint_some sound.cuts number)]
  by_cases zero : i.cut n = 0
  · rw [if_pos zero, if_pos zero]
    rfl
  · rw [if_neg zero, if_neg zero, readOn]
    by_cases enough : i.size (i.cut n) ≤ later.length
    · have sum := sound.sums (pos + (bytes.length - later.length)) (i.size (i.cut n)) (by omega)
      have inside : (i.inferred <$> take i.plus (i.size (i.cut n))) ⟨pos + (bytes.length - later.length), later⟩ =
          .ok (i.inferred (later.take (i.size (i.cut n))),
            ⟨pos + (bytes.length - later.length) + i.size (i.cut n), later.drop (i.size (i.cut n))⟩) := by
        apply Read.map_ok.2
        refine ⟨_, ?_, rfl⟩
        rw [take_plain sum]
        exact if_neg (Nat.not_lt_of_le enough)
      rw [if_pos enough, inside]
      exact if_pos enough
    · rw [if_neg enough]
      exact if_neg enough

theorem field_cases (sound : Sound i limit) {pos : Nat} {bytes : Bytes} (slice : pos + bytes.length < limit) {value : α}
    {mid : Reader} (read : i.field ⟨pos, bytes⟩ = .ok (value, mid)) :
    mid.pos + mid.remaining = pos + bytes.length ∧ ∀ values, Splits i mid.rest values → Splits i bytes (value :: values) := by
  cases front : getGroups 127 10 bytes with
  | none =>
    obtain ⟨text, failed⟩ := field_none sound.cuts pos front
    rw [failed] at read
    cases read
  | some got =>
    obtain ⟨n, later⟩ := got
    have shorter := getGroups_length front
    rw [field_front sound slice front] at read
    by_cases zero : i.cut n = 0
    · rw [if_pos zero] at read
      cases read
      refine ⟨?_, fun values rest => .zero front zero rest⟩
      simp only [Reader.remaining]
      omega
    · rw [if_neg zero] at read
      by_cases enough : i.size (i.cut n) ≤ later.length
      · rw [if_pos enough] at read
        cases read
        refine ⟨?_, fun values rest => .sized front zero enough rest⟩
        simp only [Reader.remaining, List.length_drop]
        omega
      · rw [if_neg enough] at read
        cases read
        refine ⟨?_, fun values rest => .number front zero (Nat.lt_of_not_le enough) rest⟩
        simp only [Reader.remaining]
        omega

theorem splits_cons (sound : Sound i limit) {pos : Nat} {bytes : Bytes} (slice : pos + bytes.length < limit) {value : α}
    {values : List α} :
    Splits i bytes (value :: values) ↔ ∃ mid, i.field ⟨pos, bytes⟩ = .ok (value, mid) ∧ Splits i mid.rest values := by
  constructor
  · intro splits
    cases splits with
    | zero front zero rest =>
      have read := field_front sound slice front
      rw [if_pos zero] at read
      exact ⟨_, read, rest⟩
    | sized front more enough rest =>
      have read := field_front sound slice front
      rw [if_neg more, if_pos enough] at read
      exact ⟨_, read, rest⟩
    | number front more short rest =>
      have read := field_front sound slice front
      rw [if_neg more, if_neg (Nat.not_le_of_lt short)] at read
      exact ⟨_, read, rest⟩
  · rintro ⟨mid, read, rest⟩
    exact (field_cases sound slice read).2 values rest

theorem splits_nil {bytes : Bytes} : Splits i bytes [] ↔ bytes = [] := by
  constructor
  · intro splits
    cases splits
    rfl
  · intro empty
    rw [empty]
    exact .nothing

theorem not_splits_nothing {value : α} {values : List α} : ¬ Splits i [] (value :: values) := by
  intro splits
  cases splits with
  | zero front _ _ => cases front
  | sized front _ _ _ => cases front
  | number front _ _ _ => cases front

theorem toEnd_iff (sound : Sound i limit) {pos : Nat} {bytes : Bytes} (slice : pos + bytes.length < limit)
    {values : List α} {rest : Reader} :
    i.field.toEnd Reader.remaining ⟨pos, bytes⟩ = .ok (values, rest) ↔
      Splits i bytes values ∧ rest = ⟨pos + bytes.length, []⟩ := by
  have nothing : ∀ pos, i.field.toEnd Reader.remaining ⟨pos, []⟩ = .ok ([], ⟨pos, []⟩) := fun _ => Read.toEnd_done rfl
  have more : ∀ {pos bytes}, bytes ≠ [] → i.field.toEnd Reader.remaining ⟨pos, bytes⟩ =
      (do let value ← i.field
          let rest ← i.field.toEnd Reader.remaining
          pure (value :: rest)) ⟨pos, bytes⟩ :=
    fun some => Read.toEnd_more (field_shrinks sound.cuts) (mt List.length_eq_zero_iff.1 some)
  induction values generalizing pos bytes with
  | nil =>
    rw [splits_nil]
    constructor
    · intro came
      by_cases empty : bytes = []
      · rw [empty, nothing] at came
        cases came
        exact ⟨empty, by rw [empty]; rfl⟩
      · rw [more empty] at came
        obtain ⟨_, _, _, _, _, impossible⟩ := Read.cons_ok.1 came
        cases impossible
    · rintro ⟨rfl, rfl⟩
      exact nothing pos
  | cons value values ih =>
    by_cases empty : bytes = []
    · rw [empty]
      apply iff_of_false
      · intro came
        rw [nothing] at came
        cases came
      · exact fun both => not_splits_nothing both.1
    · rw [more empty, Read.cons_ok, splits_cons sound slice]
      constructor
      · rintro ⟨first, ⟨place, left⟩, others, read, later, same⟩
        cases same
        have stays : place + left.length = pos + bytes.length := (field_cases sound slice read).1
        obtain ⟨splits, stop⟩ := (ih (stays.trans_lt slice)).1 later
        exact ⟨⟨_, read, splits⟩, stays ▸ stop⟩
      · rintro ⟨⟨⟨place, left⟩, read, splits⟩, stop⟩
        have stays : place + left.length = pos + bytes.length := (field_cases sound slice read).1
        exact ⟨value, _, values, read, (ih (stays.trans_lt slice)).2 ⟨splits, stays.symm ▸ stop⟩, rfl⟩

end Inference

/-! The inference of a whole payload, at the top or as an item of a list. -/

open Inference

variable {d : Dialect α} {i : Inference α} {limit : Nat}

theorem auto_iff (infers : d.field = i.field) (sound : Sound i limit) {pos : Nat} {bytes : Bytes}
    (slice : pos + bytes.length < limit) (some : bytes ≠ []) {value : α} {rest : Reader} :
    d.auto ⟨pos, bytes⟩ = .ok (value, rest) ↔
      ∃ values, Splits i bytes values ∧ value = d.pack values ∧ rest = ⟨pos + bytes.length, []⟩ := by
  have more : (Reader.mk pos bytes).remaining ≠ 0 := mt List.length_eq_zero_iff.1 some
  rw [Dialect.auto, if_neg more, Read.map_ok, infers]
  constructor
  · rintro ⟨values, came, same⟩
    obtain ⟨splits, stop⟩ := (toEnd_iff sound slice).1 came
    exact ⟨values, splits, same.symm, stop⟩
  · rintro ⟨values, splits, same, stop⟩
    exact ⟨values, (toEnd_iff sound slice).2 ⟨splits, stop⟩, same.symm⟩

theorem auto_nothing (pos : Nat) : d.auto ⟨pos, []⟩ = .ok (d.null, ⟨pos, []⟩) := if_pos rfl

/-- A payload that is decoded to something is decoded to the same behind other bytes. -/
theorem auto_moved (infers : d.field = i.field) (sound : Sound i limit) {bytes : Bytes} {value : α}
    (decoded : d.decode bytes .auto = .ok value) (pos : Nat) (slice : pos + bytes.length < limit) :
    d.auto ⟨pos, bytes⟩ = .ok (value, ⟨pos + bytes.length, []⟩) := by
  obtain ⟨rest, came, _⟩ := Dialect.decode_ok.1 decoded
  have came : d.auto ⟨0, bytes⟩ = .ok (value, rest) := came
  by_cases empty : bytes = []
  · rw [empty, auto_nothing] at came
    cases came
    rw [empty, auto_nothing]
    rfl
  · obtain ⟨values, splits, same, _⟩ := (auto_iff infers sound (by omega) empty).1 came
    exact (auto_iff infers sound slice empty).2 ⟨values, splits, same, rfl⟩

theorem auto_left (infers : d.field = i.field) (cuts : Cut i.cut) {r rest : Reader} {value : α}
    (came : d.auto r = .ok (value, rest)) : rest.remaining = 0 := by
  unfold Dialect.auto at came
  by_cases empty : r.remaining = 0
  · rw [if_pos empty] at came
    cases came
    exact empty
  · rw [if_neg empty, infers] at came
    obtain ⟨values, went, _⟩ := Read.map_ok.1 came
    exact Read.toEnd_left (field_shrinks cuts) went

/-- Behind the first item of a list nothing is left for the others. -/
theorem items_null (infers : d.field = i.field) (cuts : Cut i.cut) {r rest : Reader} {count : Nat} {values : List α}
    (came : d.auto.times (count + 1) r = .ok (values, rest)) : values.tail = List.replicate count d.null := by
  have others : ∀ (count : Nat) {r rest : Reader} {values : List α}, r.remaining = 0 →
      d.auto.times count r = .ok (values, rest) → values = List.replicate count d.null := by
    intro count
    induction count with
    | zero =>
      intro r rest values _ came
      cases came
      rfl
    | succ count ih =>
      intro r rest values empty came
      obtain ⟨value, mid, more, first, went, rfl⟩ := Read.cons_ok.1 came
      have nothing : d.auto r = .ok (d.null, r) := if_pos empty
      rw [nothing] at first
      cases first
      rw [ih empty went, List.replicate_succ]
  obtain ⟨value, mid, more, first, went, rfl⟩ := Read.cons_ok.1 came
  exact others count (auto_left infers cuts first) went

end EchoStream.Proto.Inferring
