import Mathlib.Tactic.Common

/-! Decimal numbers below a bound as text. A reader takes a plus sign in front, and any
number of zeros; it refuses what is not a digit, and a number as soon as it is too large. -/

namespace EchoStream.Foundation.Decimal

def write (value : Nat) : String := toString value

def digits (bound : Nat) : Nat → List Char → Option Nat
  | value, [] => some value
  | value, c :: rest =>
      if c.isDigit then
        let next := 10 * value + (c.toNat - '0'.toNat)
        if next < bound then digits bound next rest else none
      else none

def parse (bound : Nat) (text : String) : Option Nat :=
  match text.toList with
  | [] => none
  | ['+'] => none
  | '+' :: rest => digits bound 0 rest
  | chars => digits bound 0 chars

variable {bound : Nat}

theorem le_ofDigitChars (chars : List Char) (value : Nat) : value ≤ Nat.ofDigitChars 10 chars value := by
  rw [Nat.ofDigitChars_eq_ofDigitChars_zero]
  have more : 1 * value ≤ 10 ^ chars.length * value := Nat.mul_le_mul_right value (Nat.pow_pos (by decide))
  omega

theorem digits_eq (chars : List Char) (all : ∀ c ∈ chars, c.isDigit) (value : Nat)
    (below : Nat.ofDigitChars 10 chars value < bound) :
    digits bound value chars = some (Nat.ofDigitChars 10 chars value) := by
  induction chars generalizing value with
  | nil => rfl
  | cons c rest ih =>
    rw [Nat.ofDigitChars_cons] at below ⊢
    have within := Nat.lt_of_le_of_lt (le_ofDigitChars rest _) below
    rw [digits, if_pos (all c (List.mem_cons_self ..)), if_pos within]
    exact ih (fun d member => all d (List.mem_cons_of_mem _ member)) _ below

theorem parse_write {value : Nat} (below : value < bound) : parse bound (write value) = some value := by
  have chars : (write value).toList = Nat.toDigits 10 value := Nat.toList_repr
  have all : ∀ c ∈ Nat.toDigits 10 value, c.isDigit := fun c member =>
    Nat.isDigit_of_mem_toDigits (by decide) (by decide) member
  have read : digits bound 0 (Nat.toDigits 10 value) = some value := by
    have number : Nat.ofDigitChars 10 (Nat.toDigits 10 value) 0 = value := Nat.ofDigitChars_ten_toDigits
    rw [digits_eq _ all 0 (by rw [number]; exact below), number]
  rw [parse, chars]
  split
  · exact absurd ‹_› Nat.toDigits_ne_nil
  · rename_i sign
    have plus := all '+' (by rw [sign]; exact List.mem_cons_self ..)
    cases plus
  · rename_i rest sign
    have plus := all '+' (by rw [sign]; exact List.mem_cons_self ..)
    cases plus
  · exact read

example : parse 256 "+007" = some 7 := by decide

example : parse 256 "256" = none := by decide

end EchoStream.Foundation.Decimal
