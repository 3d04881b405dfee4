import Mathlib.Tactic.Common

/-! Text as bytes. A strict decoder refuses what is not UTF-8. A lenient one, which is that
of a browser, puts a replacement character for each part that is not. A byte order
mark in front is a character to some decoders and dropped by others. -/

namespace EchoStream.Foundation.Utf8

def encode (text : String) : List UInt8 := text.toUTF8.data.toList

def decode? (bytes : List UInt8) : Option String := String.fromUTF8? ⟨bytes.toArray⟩

theorem decode?_eq_some {bytes : List UInt8} {text : String} : decode? bytes = some text ↔ encode text = bytes := by
  unfold decode? String.fromUTF8?
  constructor
  · intro decoded
    split at decoded
    · rename_i valid
      cases decoded
      exact List.toList_toArray
    · cases decoded
  · intro same
    subst same
    rw [encode, Array.toArray_toList]
    exact dif_pos text.isValidUTF8

@[simp] theorem decode?_encode (text : String) : decode? (encode text) = some text := decode?_eq_some.2 rfl

theorem encode_append (first second : String) : encode (first ++ second) = encode first ++ encode second := by
  unfold encode
  rw [String.toUTF8_eq_toByteArray, String.toByteArray_append, String.toUTF8_eq_toByteArray, String.toUTF8_eq_toByteArray]
  simp

/-- Bytes taken for text where they are text tell which bytes they were. -/
theorem guess_injective {α : Type} {string : String → α} {raw : List UInt8 → α} (strings : Function.Injective string)
    (raws : Function.Injective raw) (apart : ∀ text bytes, string text ≠ raw bytes) {data more : List UInt8}
    (same : (match decode? data with
        | some text => string text
        | none => raw data) = match decode? more with
        | some text => string text
        | none => raw more) : data = more := by
  cases left : decode? data with
  | some text =>
    cases right : decode? more with
    | some other =>
      rw [left, right] at same
      rw [← decode?_eq_some.1 left, ← decode?_eq_some.1 right, strings same]
    | none =>
      rw [left, right] at same
      exact absurd same (apart text more)
  | none =>
    cases right : decode? more with
    | some other =>
      rw [left, right] at same
      exact absurd same.symm (apart other data)
    | none =>
      rw [left, right] at same
      exact raws same

def mark : List UInt8 := [0xEF, 0xBB, 0xBF]

theorem encode_mark : encode "\uFEFF" = mark := by decide +kernel

theorem decode?_mark (bytes : List UInt8) : decode? (mark ++ bytes) = (decode? bytes).map ("\uFEFF" ++ ·) := by
  cases decoded : decode? bytes with
  | some text =>
    rw [Option.map_some, decode?_eq_some, encode_append, encode_mark, decode?_eq_some.1 decoded]
  | none =>
    rw [Option.map_none]
    by_contra there
    obtain ⟨text, found⟩ := Option.ne_none_iff_exists'.1 there
    have valid : ByteArray.IsValidUTF8 ⟨(mark ++ bytes).toArray⟩ := by
      rw [← decode?_eq_some.1 found, encode, Array.toArray_toList]
      exact text.isValidUTF8
    have parts : (⟨(mark ++ bytes).toArray⟩ : ByteArray) = ['\uFEFF'].utf8Encode ++ ⟨bytes.toArray⟩ := by
      have front : ['\uFEFF'].utf8Encode = ⟨mark.toArray⟩ := by decide +kernel
      rw [front]
      apply ByteArray.ext
      simp
    rw [parts, ByteArray.isValidUTF8_utf8Encode_singleton_append_iff] at valid
    rw [decode?, String.fromUTF8?, dif_pos valid] at decoded
    cases decoded

/-- What follows a mark in front, or all. -/
def unmarked (bytes : List UInt8) : List UInt8 := if mark.isPrefixOf bytes then bytes.drop 3 else bytes

theorem unmarked_of_not {bytes : List UInt8} (plain : mark.isPrefixOf bytes = false) : unmarked bytes = bytes := by
  rw [unmarked, plain]
  rfl

/-- The mark is a character of its own, so what follows it is another text. -/
theorem decode?_unmarked {bytes : List UInt8} (marked : mark.isPrefixOf bytes = true) :
    decode? bytes = (decode? (unmarked bytes)).map ("\uFEFF" ++ ·) := by
  obtain ⟨rest, parts⟩ := List.isPrefixOf_iff_prefix.1 marked
  have after : unmarked bytes = rest := by
    rw [unmarked, marked, ← parts]
    rfl
  rw [after, ← parts, decode?_mark]

theorem mark_append_ne (text : String) : "\uFEFF" ++ text ≠ text := by
  intro same
  have lengths := congrArg String.length same
  rw [String.length_append] at lengths
  have one : String.length "\uFEFF" = 1 := rfl
  omega

/-- The rest of a character of several bytes: how many are missing, the bounds of the
next one, and the code point so far. -/
structure Pending where
  needed : Nat
  lower : Nat
  upper : Nat
  point : Nat

inductive Lead where
  | char (point : Nat)
  | more (pending : Pending)
  | bad

def lead (b : Nat) : Lead :=
  if b < 0x80 then .char b
  else if 0xC2 ≤ b ∧ b ≤ 0xDF then .more ⟨1, 0x80, 0xBF, b % 32⟩
  else if 0xE0 ≤ b ∧ b ≤ 0xEF then
    .more ⟨2, if b = 0xE0 then 0xA0 else 0x80, if b = 0xED then 0x9F else 0xBF, b % 16⟩
  else if 0xF0 ≤ b ∧ b ≤ 0xF4 then
    .more ⟨3, if b = 0xF0 then 0x90 else 0x80, if b = 0xF4 then 0x8F else 0xBF, b % 8⟩
  else .bad

def replacement : Char := '\uFFFD'

/-- A byte that cannot go on with a character ends it, and is looked at anew. -/
def replaced : Option Pending → List UInt8 → List Char
  | none, [] => []
  | some _, [] => [replacement]
  | some pending, b :: rest =>
      if pending.lower ≤ b.toNat ∧ b.toNat ≤ pending.upper then
        let point := pending.point * 64 + b.toNat % 64
        if pending.needed = 1 then Char.ofNat point :: replaced none rest
        else replaced (some ⟨pending.needed - 1, 0x80, 0xBF, point⟩) rest
      else
        match lead b.toNat with
        | .char point => replacement :: Char.ofNat point :: replaced none rest
        | .more next => replacement :: replaced (some next) rest
        | .bad => replacement :: replacement :: replaced none rest
  | none, b :: rest =>
      match lead b.toNat with
      | .char point => Char.ofNat point :: replaced none rest
      | .more next => replaced (some next) rest
      | .bad => replacement :: replaced none rest

/-- There is nothing to replace in what is UTF-8. -/
def lenient (bytes : List UInt8) : String :=
  match decode? bytes with
  | some text => text
  | none => String.ofList (replaced none bytes)

end EchoStream.Foundation.Utf8
