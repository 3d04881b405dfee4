import Mathlib.Tactic.Common
import Mathlib.Data.Nat.Log
import EchoStream.Foundation.Formats

/-! Floating point numbers of 64 bits as their bit patterns. What is needed of them is
which ones stand for integers, the pattern of an integer, and the bytes. Patterns of 32
bits are widened. -/

namespace EchoStream.Foundation.Float64
open Formats

abbrev Bits := UInt64

def negative (bits : Bits) : Bool := decide (2 ^ 63 ≤ bits.toNat)
def exponent (bits : Bits) : Nat := bits.toNat / 2 ^ 52 % 2048
def fraction (bits : Bits) : Nat := bits.toNat % 2 ^ 52

def isFinite (bits : Bits) : Bool := exponent bits != 2047

def isNaN (bits : Bits) : Bool := exponent bits == 2047 && fraction bits != 0

/-- The pattern that stands for all that are not a number. -/
def quiet : Bits := 0x7FF8000000000000

/-- The integer that is multiplied by a power of two, and the power's exponent plus 1075. -/
def significand (bits : Bits) : Nat := if exponent bits = 0 then fraction bits else fraction bits + 2 ^ 52
def scale (bits : Bits) : Nat := if exponent bits = 0 then 1 else exponent bits

/-- The absolute value, where the number is an integer. Below one there is only zero. -/
def magnitude? (bits : Bits) : Option Nat :=
  if isFinite bits then
    if significand bits = 0 then some 0
    else if 1075 ≤ scale bits then some (significand bits * 2 ^ (scale bits - 1075))
    else if 1023 ≤ scale bits ∧ significand bits % 2 ^ (1075 - scale bits) = 0 then
      some (significand bits / 2 ^ (1075 - scale bits))
    else none
  else none

def toInt? (bits : Bits) : Option Int :=
  (magnitude? bits).map (fun (n : Nat) => if negative bits then -(n : Int) else (n : Int))

/-- The pattern of an integer that has one, which all have up to `2 ^ 53`. -/
def ofInt (n : Int) : Bits :=
  if n = 0 then 0
  else UInt64.ofNat ((if n < 0 then 2 ^ 63 else 0) + (n.natAbs.log2 + 1023) * 2 ^ 52 +
    (n.natAbs * 2 ^ 52 / 2 ^ n.natAbs.log2 - 2 ^ 52))

def toBytes (bits : Bits) : List UInt8 := toLittle 8 bits.toNat
def ofBytes (bytes : List UInt8) : Bits := UInt64.ofNat (ofLittle bytes)

@[simp] theorem toBytes_length (bits : Bits) : (toBytes bits).length = 8 := toLittle_length 8 bits.toNat

theorem ofBytes_toBytes (bits : Bits) : ofBytes (toBytes bits) = bits := by
  have small : bits.toNat % 256 ^ 8 = bits.toNat := Nat.mod_eq_of_lt bits.toNat_lt
  rw [ofBytes, toBytes, ofLittle_toLittle, small, UInt64.ofNat_toNat]

/-- An infinity or what is not a number has the widened pattern of its own kind, a
number that is too small for the short exponent is normalized. -/
def widen (bits : UInt32) : Bits :=
  let sign := bits.toNat / 2 ^ 31 * 2 ^ 63
  let exponent := bits.toNat / 2 ^ 23 % 256
  let fraction := bits.toNat % 2 ^ 23
  if exponent = 255 then UInt64.ofNat (sign + 2047 * 2 ^ 52 + (if fraction = 0 then 0 else fraction * 2 ^ 29 ||| 2 ^ 51))
  else if exponent = 0 then
    if fraction = 0 then UInt64.ofNat sign
    else UInt64.ofNat (sign + (fraction.log2 + 874) * 2 ^ 52 + (fraction * 2 ^ 52 / 2 ^ fraction.log2 - 2 ^ 52))
  else UInt64.ofNat (sign + (exponent + 896) * 2 ^ 52 + fraction * 2 ^ 29)

def ofShortBytes (bytes : List UInt8) : Bits := widen (UInt32.ofNat (ofLittle bytes))

theorem parts (sign exp : Nat) {frac : Nat} (bit : sign < 2) (short : exp < 2048) (low : frac < 2 ^ 52) :
    let bits : Bits := UInt64.ofNat (sign * 2 ^ 63 + exp * 2 ^ 52 + frac)
    negative bits = decide (sign = 1) ∧ exponent bits = exp ∧ fraction bits = frac := by
  intro bits
  have fits : sign * 2 ^ 63 + exp * 2 ^ 52 + frac < 2 ^ 64 := by omega
  have value : bits.toNat = sign * 2 ^ 63 + exp * 2 ^ 52 + frac := by
    rw [UInt64.toNat_ofNat']
    exact Nat.mod_eq_of_lt fits
  refine ⟨?_, ?_, ?_⟩
  · rw [negative, value]
    exact decide_eq_decide.2 (by omega)
  · rw [exponent, value]
    omega
  · rw [fraction, value]
    omega

theorem ofInt_parts {n : Int} (nonzero : n ≠ 0) (bound : n.natAbs ≤ 2 ^ 53) :
    negative (ofInt n) = decide (n < 0) ∧ exponent (ofInt n) = n.natAbs.log2 + 1023 ∧
      fraction (ofInt n) = n.natAbs * 2 ^ 52 / 2 ^ n.natAbs.log2 - 2 ^ 52 := by
  have present : n.natAbs ≠ 0 := by omega
  have low := Nat.log2_self_le present
  have high := Nat.lt_log2_self (n := n.natAbs)
  have top : n.natAbs.log2 < 54 := (Nat.log2_lt present).2 (by omega)
  have bits : ofInt n = UInt64.ofNat ((if n < 0 then 1 else 0) * 2 ^ 63 + (n.natAbs.log2 + 1023) * 2 ^ 52 +
      (n.natAbs * 2 ^ 52 / 2 ^ n.natAbs.log2 - 2 ^ 52)) := by
    rw [ofInt, if_neg nonzero]
    split <;> rfl
  have small : n.natAbs * 2 ^ 52 / 2 ^ n.natAbs.log2 - 2 ^ 52 < 2 ^ 52 := by
    have under : n.natAbs * 2 ^ 52 / 2 ^ n.natAbs.log2 < 2 ^ 53 := by
      rw [Nat.div_lt_iff_lt_mul (Nat.two_pow_pos _)]
      rw [Nat.pow_succ] at high
      omega
    omega
  rw [bits]
  have read := parts (if n < 0 then 1 else 0) (n.natAbs.log2 + 1023) (by split <;> omega) (by omega) small
  refine ⟨read.1.trans ?_, read.2.1, read.2.2⟩
  by_cases sign : n < 0
  · rw [if_pos sign]
    exact decide_eq_decide.2 (iff_of_true rfl sign)
  · rw [if_neg sign]
    exact decide_eq_decide.2 (iff_of_false (by omega) sign)

theorem toInt?_ofInt {n : Int} (bound : n.natAbs ≤ 2 ^ 53) : toInt? (ofInt n) = some n := by
  by_cases zero : n = 0
  · rw [zero]
    decide
  · obtain ⟨sign, exp, frac⟩ := ofInt_parts zero bound
    have present : n.natAbs ≠ 0 := by omega
    have low := Nat.log2_self_le present
    have top : n.natAbs.log2 < 54 := (Nat.log2_lt present).2 (by omega)
    have normal : exponent (ofInt n) ≠ 0 := by omega
    have finite : isFinite (ofInt n) = true := by
      rw [isFinite, bne_iff_ne]
      omega
    have whole : 2 ^ 52 ≤ n.natAbs * 2 ^ 52 / 2 ^ n.natAbs.log2 := by
      rw [Nat.le_div_iff_mul_le (Nat.two_pow_pos _), Nat.mul_comm]
      exact Nat.mul_le_mul_right _ low
    have whole_significand : significand (ofInt n) = n.natAbs * 2 ^ 52 / 2 ^ n.natAbs.log2 := by
      rw [significand, if_neg normal, frac]
      omega
    have whole_scale : scale (ofInt n) = n.natAbs.log2 + 1023 := by rw [scale, if_neg normal, exp]
    have absolute : magnitude? (ofInt n) = some n.natAbs := by
      rw [magnitude?, if_pos finite, whole_significand, whole_scale, if_neg (by omega)]
      by_cases large : 52 ≤ n.natAbs.log2
      · rw [if_pos (by omega)]
        -- Only `2 ^ 53` has more than 52 bits behind its first.
        have two : n.natAbs.log2 = 52 ∨ n.natAbs.log2 = 53 := by omega
        rcases two with fifty_two | one_more
        · rw [fifty_two]
          simp
        · have most : n.natAbs = 2 ^ 53 := by
            rw [one_more] at low
            omega
          rw [one_more, most]
          decide
      · have power : 2 ^ 52 = 2 ^ (52 - n.natAbs.log2) * 2 ^ n.natAbs.log2 := by
          rw [← Nat.pow_add, Nat.sub_add_cancel (by omega)]
        have quotient : n.natAbs * 2 ^ 52 / 2 ^ n.natAbs.log2 = n.natAbs * 2 ^ (52 - n.natAbs.log2) := by
          rw [power, ← Nat.mul_assoc, Nat.mul_div_cancel _ (Nat.two_pow_pos _)]
        have rest : 1075 - (n.natAbs.log2 + 1023) = 52 - n.natAbs.log2 := by omega
        have divides : n.natAbs * 2 ^ (52 - n.natAbs.log2) % 2 ^ (52 - n.natAbs.log2) = 0 := Nat.mul_mod_left _ _
        rw [if_neg (by omega), rest, quotient, if_pos ⟨by omega, divides⟩, Nat.mul_div_cancel _ (Nat.two_pow_pos _)]
    rw [toInt?, absolute, Option.map_some, sign]
    by_cases below : n < 0
    · rw [decide_eq_true below, if_pos rfl]
      exact congrArg some (by omega)
    · rw [decide_eq_false below, if_neg Bool.false_ne_true]
      exact congrArg some (by omega)

theorem natAbs_toInt? {bits : Bits} {n : Int} (integer : toInt? bits = some n) : magnitude? bits = some n.natAbs := by
  obtain ⟨m, absolute, same⟩ := Option.map_eq_some_iff.1 integer
  rw [absolute, ← same]
  split
  · rw [Int.natAbs_neg, Int.natAbs_natCast]
  · rw [Int.natAbs_natCast]

theorem isFinite_of_integer {bits : Bits} {n : Int} (integer : toInt? bits = some n) : isFinite bits = true := by
  have absolute := natAbs_toInt? integer
  unfold magnitude? at absolute
  split at absolute
  · assumption
  · cases absolute

theorem exponent_of_integer {bits : Bits} {m : Nat} (absolute : magnitude? bits = some m) (some : m ≠ 0) :
    1023 ≤ exponent bits := by
  have scaled : 1023 ≤ scale bits := by
    unfold magnitude? at absolute
    split at absolute
    · split at absolute
      · cases absolute
        exact absurd rfl some
      · split at absolute
        · omega
        · split at absolute
          · rename_i small
            exact small.1
          · cases absolute
    · cases absolute
  unfold scale at scaled
  split at scaled
  · omega
  · exact scaled

/-- The bytes of an integer up to `2 ^ 53` are not those of its groups, which are no more. -/
theorem toBytes_ne_groups {bits : Bits} {n : Int} (integer : toInt? bits = some n) {value : Nat}
    (none : n = 0 → value = 0) (small : value ≤ 2 ^ 54) : putGroups 8 value ≠ toBytes bits := by
  intro same
  have full : (putGroups 8 value).length = 8 := by rw [same, toBytes_length]
  have low := ofLittle_putGroups full
  have whole : ofLittle (toBytes bits) = bits.toNat := by
    rw [toBytes, ofLittle_toLittle]
    exact Nat.mod_eq_of_lt bits.toNat_lt
  rw [same, whole] at low
  by_cases zero : n = 0
  · rw [none zero] at full
    cases full
  · have large := exponent_of_integer (natAbs_toInt? integer) (Int.natAbs_ne_zero.2 zero)
    unfold exponent at large
    omega

section Conversions

/-- The number in units of `2 ^ shift`, to the nearest, and to an even one between two. -/
def quotient (n shift : Nat) : Nat :=
  let whole := n / 2 ^ shift
  let rest := n % 2 ^ shift
  if 2 ^ shift < 2 * rest ∨ 2 * rest = 2 ^ shift ∧ whole % 2 = 1 then whole + 1 else whole

/-- The bits that do not fit behind the first 53. -/
def surplus (n : Nat) : Nat := n.log2 - 52

/-- A number below `2 ^ 64` as the nearest of 64 bits that there is. -/
def ofNat (n : Nat) : Bits :=
  if n < 2 ^ 53 then ofInt n
  else UInt64.ofNat ((1075 + surplus n) * 2 ^ 52 + (quotient n (surplus n) - 2 ^ 52))

def floor (bits : Bits) : Nat :=
  if 1075 ≤ scale bits then significand bits * 2 ^ (scale bits - 1075) else significand bits / 2 ^ (1075 - scale bits)

/-- The integer in front of the point, or the largest there is if that is too large. -/
def toUInt64 (bits : Bits) : UInt64 := if floor bits < 2 ^ 64 then UInt64.ofNat (floor bits) else UInt64.ofNat (2 ^ 64 - 1)

def nonnegative (bits : Bits) : Bool := !negative bits || significand bits == 0

/-- The numbers that come back as they are. -/
def Exact (n : UInt64) : Prop := 2 ^ surplus n.toNat ∣ n.toNat ∨ n.toNat = 2 ^ 64 - 1

theorem floor_of_magnitude {bits : Bits} {m : Nat} (absolute : magnitude? bits = some m) : floor bits = m := by
  unfold magnitude? at absolute
  unfold floor
  split at absolute
  · split at absolute
    · rename_i zero
      cases absolute
      rw [zero]
      simp
    · split at absolute
      · rename_i large
        rw [if_pos large]
        exact Option.some_inj.1 absolute
      · split at absolute
        · rename_i small _
          rw [if_neg small]
          exact Option.some_inj.1 absolute
        · cases absolute
  · cases absolute

theorem ofNat_small {n : Nat} (small : n < 2 ^ 53) :
    isFinite (ofNat n) = true ∧ nonnegative (ofNat n) = true ∧ floor (ofNat n) = n := by
  have integer : toInt? (ofInt n) = some (n : Int) := toInt?_ofInt (by omega)
  have absolute := natAbs_toInt? integer
  rw [Int.natAbs_natCast] at absolute
  rw [ofNat, if_pos small]
  refine ⟨isFinite_of_integer integer, ?_, floor_of_magnitude absolute⟩
  by_cases zero : n = 0
  · rw [zero]
    show nonnegative 0 = true
    decide
  · have sign := (ofInt_parts (show (n : Int) ≠ 0 by omega) (by omega)).1
    rw [nonnegative, sign, decide_eq_false (by omega)]
    rfl

theorem quotient_bounds (n shift : Nat) : n / 2 ^ shift ≤ quotient n shift ∧ quotient n shift ≤ n / 2 ^ shift + 1 := by
  unfold quotient
  dsimp only
  split <;> omega

theorem whole_bounds {n : Nat} (large : 2 ^ 53 ≤ n) : 2 ^ 52 ≤ n / 2 ^ surplus n ∧ n / 2 ^ surplus n < 2 ^ 53 := by
  have present : n ≠ 0 := by omega
  have low := Nat.log2_self_le present
  have high := Nat.lt_log2_self (n := n)
  have top : 53 ≤ n.log2 := (Nat.le_log2 present).2 large
  have width : n.log2 = 52 + surplus n := by
    unfold surplus
    omega
  rw [width] at low high
  rw [Nat.pow_add] at low
  rw [Nat.add_right_comm, Nat.pow_add] at high
  constructor
  · rw [Nat.le_div_iff_mul_le (Nat.two_pow_pos _)]
    exact low
  · rw [Nat.div_lt_iff_lt_mul (Nat.two_pow_pos _)]
    exact high

theorem whole_pattern {shift frac : Nat} (short : shift < 900) (low : frac < 2 ^ 52) :
    let bits : Bits := UInt64.ofNat ((1075 + shift) * 2 ^ 52 + frac)
    isFinite bits = true ∧ nonnegative bits = true ∧ floor bits = (2 ^ 52 + frac) * 2 ^ shift := by
  intro bits
  have read := parts 0 (1075 + shift) (Nat.zero_lt_succ 1) (by omega) low
  rw [Nat.zero_mul, Nat.zero_add] at read
  obtain ⟨sign, exp, fraction⟩ := read
  have normal : exponent bits ≠ 0 := by
    rw [exp]
    omega
  refine ⟨?_, ?_, ?_⟩
  · rw [isFinite, exp, bne_iff_ne]
    omega
  · rw [nonnegative, sign]
    rfl
  · rw [floor, scale, significand, if_neg normal, if_neg normal, exp, fraction, if_pos (Nat.le_add_right _ _),
      Nat.add_sub_cancel_left, Nat.add_comm frac]

theorem ofNat_large {n : Nat} (large : 2 ^ 53 ≤ n) (fits : n < 2 ^ 64) :
    isFinite (ofNat n) = true ∧ nonnegative (ofNat n) = true ∧ floor (ofNat n) = quotient n (surplus n) * 2 ^ surplus n := by
  have present : n ≠ 0 := by omega
  obtain ⟨low, high⟩ := whole_bounds large
  obtain ⟨least, most⟩ := quotient_bounds n (surplus n)
  have short : surplus n ≤ 11 := by
    have top : n.log2 < 64 := (Nat.log2_lt present).2 fits
    unfold surplus
    omega
  rw [ofNat, if_neg (Nat.not_lt.2 large)]
  -- rounding up may carry into the exponent
  by_cases carry : quotient n (surplus n) = 2 ^ 53
  · have pattern := whole_pattern (show surplus n + 1 < 900 by omega) (Nat.two_pow_pos 52)
    have same : (1075 + surplus n) * 2 ^ 52 + (quotient n (surplus n) - 2 ^ 52) = (1075 + (surplus n + 1)) * 2 ^ 52 + 0 := by
      omega
    rw [same, carry]
    refine ⟨pattern.1, pattern.2.1, pattern.2.2.trans ?_⟩
    rw [Nat.pow_succ]
    omega
  · have pattern := whole_pattern (show surplus n < 900 by omega) (show quotient n (surplus n) - 2 ^ 52 < 2 ^ 52 by omega)
    have back : 2 ^ 52 + (quotient n (surplus n) - 2 ^ 52) = quotient n (surplus n) := by omega
    rw [back] at pattern
    exact pattern

theorem rounded_iff (n shift : Nat) : quotient n shift * 2 ^ shift = n ↔ 2 ^ shift ∣ n := by
  have whole := Nat.div_add_mod n (2 ^ shift)
  have below := Nat.mod_lt n (Nat.two_pow_pos shift)
  constructor
  · intro same
    exact ⟨quotient n shift, by rw [Nat.mul_comm, same]⟩
  · intro divides
    have none : n % 2 ^ shift = 0 := Nat.mod_eq_zero_of_dvd divides
    have kept : quotient n shift = n / 2 ^ shift := by
      unfold quotient
      dsimp only
      have some := Nat.two_pow_pos shift
      rw [none, if_neg (by omega)]
    rw [kept, Nat.div_mul_cancel divides]

theorem surplus_small {n : Nat} (small : n < 2 ^ 53) : surplus n = 0 := by
  by_cases zero : n = 0
  · rw [zero]
    rfl
  · have top : n.log2 < 53 := (Nat.log2_lt zero).2 small
    unfold surplus
    omega

theorem exact_of_small {n : UInt64} (small : n.toNat < 2 ^ 53) : Exact n := by
  rw [Exact, surplus_small small]
  exact .inl (Nat.one_dvd _)

/-- A number of 64 bits that becomes a floating point number and is read again is the same
exactly if it has no more than 53 bits in use, or is the largest one. -/
theorem toUInt64_ofNat (n : UInt64) : toUInt64 (ofNat n.toNat) = n ↔ Exact n := by
  have fits := n.toNat_lt
  by_cases small : n.toNat < 2 ^ 53
  · rw [toUInt64, (ofNat_small small).2.2, if_pos fits, UInt64.ofNat_toNat]
    exact iff_of_true rfl (exact_of_small small)
  · unfold Exact
    have floored := (ofNat_large (Nat.le_of_not_lt small) fits).2.2
    rw [toUInt64, floored, ← rounded_iff, ← UInt64.toNat_inj]
    by_cases within : quotient n.toNat (surplus n.toNat) * 2 ^ surplus n.toNat < 2 ^ 64
    · rw [if_pos within, UInt64.toNat_ofNat', Nat.mod_eq_of_lt within]
      refine ⟨.inl, fun either => either.elim id fun largest => ?_⟩
      -- the largest one is rounded to one that is too large
      rw [largest] at within
      exact absurd within (by decide)
    · rw [if_neg within, UInt64.toNat_ofNat', Nat.mod_eq_of_lt (Nat.sub_lt (Nat.two_pow_pos 64) Nat.one_pos)]
      constructor
      · exact fun same => .inr same.symm
      · rintro (same | largest)
        · omega
        · exact largest.symm

theorem ofNat_finite (n : UInt64) : isFinite (ofNat n.toNat) = true ∧ nonnegative (ofNat n.toNat) = true := by
  by_cases small : n.toNat < 2 ^ 53
  · exact ⟨(ofNat_small small).1, (ofNat_small small).2.1⟩
  · have large := ofNat_large (Nat.le_of_not_lt small) n.toNat_lt
    exact ⟨large.1, large.2.1⟩

def negativeZero : Bits := 0x8000000000000000

theorem toNat_parts (bits : Bits) :
    bits.toNat = (if negative bits then 2 ^ 63 else 0) + exponent bits * 2 ^ 52 + fraction bits := by
  have fits := bits.toNat_lt
  unfold negative exponent fraction
  split
  · rename_i below
    have large := of_decide_eq_true below
    omega
  · rename_i above
    have small : ¬ 2 ^ 63 ≤ bits.toNat := fun large => above (decide_eq_true large)
    omega

theorem integer_parts {bits : Bits} {m : Nat} (absolute : magnitude? bits = some m) (present : m ≠ 0) :
    exponent bits = m.log2 + 1023 ∧ fraction bits = m * 2 ^ 52 / 2 ^ m.log2 - 2 ^ 52 := by
  have least := exponent_of_integer absolute present
  have normal : exponent bits ≠ 0 := by omega
  have low : fraction bits < 2 ^ 52 := Nat.mod_lt _ (Nat.two_pow_pos 52)
  have whole : significand bits = fraction bits + 2 ^ 52 := by rw [significand, if_neg normal]
  have scaled : scale bits = exponent bits := by rw [scale, if_neg normal]
  -- so many times two, as an equation between the two integers
  have shifted : (1075 ≤ exponent bits ∧ m = significand bits * 2 ^ (exponent bits - 1075)) ∨
      (exponent bits < 1075 ∧ m * 2 ^ (1075 - exponent bits) = significand bits) := by
    unfold magnitude? at absolute
    rw [scaled] at absolute
    split at absolute
    · split at absolute
      · omega
      · split at absolute
        · rename_i large
          exact .inl ⟨large, (Option.some_inj.1 absolute).symm⟩
        · split at absolute
          · rename_i small divides
            rw [← Option.some_inj.1 absolute]
            exact .inr ⟨by omega, Nat.div_mul_cancel (Nat.dvd_of_mod_eq_zero divides.2)⟩
          · cases absolute
    · cases absolute
  rcases shifted with ⟨large, same⟩ | ⟨small, same⟩
  · have leading : m.log2 = 52 + (exponent bits - 1075) := by
      rw [Nat.log2_eq_iff present, same, whole, Nat.pow_add, Nat.add_right_comm, Nat.pow_add]
      exact ⟨Nat.mul_le_mul_right _ (Nat.le_add_left _ _), Nat.mul_lt_mul_of_pos_right (by omega) (Nat.two_pow_pos _)⟩
    have power : 2 ^ (52 + (exponent bits - 1075)) = 2 ^ (exponent bits - 1075) * 2 ^ 52 := by
      rw [Nat.pow_add, Nat.mul_comm]
    refine ⟨by omega, ?_⟩
    rw [leading, same, power, Nat.mul_assoc, Nat.mul_div_cancel _ (Nat.mul_pos (Nat.two_pow_pos _) (Nat.two_pow_pos _)), whole,
      Nat.add_sub_cancel]
  · have leading : m.log2 = 52 - (1075 - exponent bits) := by
      have bounds : 2 ^ (52 - (1075 - exponent bits)) * 2 ^ (1075 - exponent bits) = 2 ^ 52 := by
        rw [← Nat.pow_add]
        exact congrArg (2 ^ ·) (by omega)
      rw [Nat.log2_eq_iff present, Nat.pow_succ]
      constructor
      · refine Nat.le_of_mul_le_mul_right ?_ (Nat.two_pow_pos (1075 - exponent bits))
        omega
      · refine Nat.lt_of_mul_lt_mul_right (a := 2 ^ (1075 - exponent bits)) ?_
        rw [Nat.mul_right_comm]
        omega
    have power : 2 ^ 52 = 2 ^ (1075 - exponent bits) * 2 ^ (52 - (1075 - exponent bits)) := by
      rw [← Nat.pow_add]
      exact congrArg (2 ^ ·) (by omega)
    have quotient : m * 2 ^ 52 / 2 ^ (52 - (1075 - exponent bits)) = significand bits := by
      rw [power, ← Nat.mul_assoc, same, Nat.mul_div_cancel _ (Nat.two_pow_pos _)]
    refine ⟨by omega, ?_⟩
    rw [leading, quotient, whole, Nat.add_sub_cancel]

theorem significand_of_zero {bits : Bits} (absolute : magnitude? bits = some 0) : significand bits = 0 := by
  by_contra present
  unfold magnitude? at absolute
  rw [if_neg present] at absolute
  split at absolute
  · split at absolute
    · have product := Option.some_inj.1 absolute
      exact absurd product (Nat.ne_of_gt (Nat.mul_pos (Nat.pos_of_ne_zero present) (Nat.two_pow_pos _)))
    · split at absolute
      · rename_i small
        have whole := Nat.div_mul_cancel (Nat.dvd_of_mod_eq_zero small.2)
        rw [Option.some_inj.1 absolute] at whole
        omega
      · cases absolute
  · cases absolute

theorem zero_patterns {bits : Bits} (absolute : magnitude? bits = some 0) : bits = 0 ∨ bits = negativeZero := by
  have none := significand_of_zero absolute
  have value := toNat_parts bits
  have parts : exponent bits = 0 ∧ fraction bits = 0 := by
    unfold significand at none
    split at none <;> omega
  rw [parts.1, parts.2] at value
  rw [← UInt64.toNat_inj, ← UInt64.toNat_inj]
  split at value
  · exact .inr value
  · exact .inl value

/-- Of the patterns that stand for an integer only that of the negative zero is not the
one the integer is given. -/
theorem ofInt_of_toInt? {bits : Bits} {n : Int} (integer : toInt? bits = some n) :
    ofInt n = bits ↔ bits ≠ negativeZero := by
  have absolute := natAbs_toInt? integer
  by_cases zero : n = 0
  · rw [zero] at absolute ⊢
    rcases zero_patterns absolute with plain | negative
    · rw [plain]
      decide
    · rw [negative]
      decide
  · obtain ⟨exp, frac⟩ := integer_parts absolute (Int.natAbs_ne_zero.2 zero)
    have sign : (n < 0) ↔ negative bits = true := by
      obtain ⟨m, _, signed⟩ := Option.map_eq_some_iff.1 integer
      split at signed
      · rename_i below
        exact iff_of_true (by omega) below
      · rename_i above
        exact iff_of_false (by omega) above
    have same : ofInt n = bits := by
      rw [ofInt, if_neg zero, ← exp, ← frac]
      simp only [sign]
      rw [← toNat_parts, UInt64.ofNat_toNat]
    refine iff_of_true same ?_
    intro other
    have least := exponent_of_integer absolute (Int.natAbs_ne_zero.2 zero)
    have small : exponent negativeZero = 0 := by decide
    rw [other, small] at least
    omega

end Conversions

end EchoStream.Foundation.Float64
