import Mathlib.Tactic.Common
import Mathlib.Data.Int.Bitwise

/-! Integers as natural numbers, small ones first whatever their sign. In machine
words the mapping is two shifts and an exclusive or, and on integers without bounds it
is the same with a mask. -/

namespace EchoStream.Foundation.Zigzag

def zigzag (n : Int) : Nat := if 0 ≤ n then (2 * n).toNat else (-2 * n - 1).toNat

def unzigzag (v : Nat) : Int := if v % 2 = 0 then (v / 2 : Nat) else -((v / 2 : Nat) : Int) - 1

theorem unzigzag_zigzag (n : Int) : unzigzag (zigzag n) = n := by
  unfold unzigzag zigzag
  split <;> split <;> omega

theorem zigzag_unzigzag (v : Nat) : zigzag (unzigzag v) = v := by
  unfold unzigzag zigzag
  split <;> split <;> omega

theorem zigzag_eq_zero {n : Int} : zigzag n = 0 ↔ n = 0 := by
  unfold zigzag
  split <;> omega

theorem unzigzag_bounds {v width : Nat} (small : v < 2 ^ (width + 1)) :
    -2 ^ width ≤ unzigzag v ∧ unzigzag v < 2 ^ width := by
  have power : (2 : Int) ^ width = ((2 ^ width : Nat) : Int) := (Nat.cast_pow 2 width).symm
  rw [power]
  rw [Nat.pow_succ] at small
  unfold unzigzag
  split <;> omega

/-! In words of 64 bits. -/

theorem sign_word (x : BitVec 64) : x.sshiftRight 63 = if x.msb then BitVec.allOnes 64 else 0 := by
  ext i within
  -- The last bit is the sign, and is the only one that is not shifted out.
  have shifted : (x.sshiftRight 63)[i] = x.msb := by
    rw [BitVec.getElem_sshiftRight]
    split
    · have first : i = 0 := by omega
      subst first
      rw [BitVec.msb_eq_getLsbD_last]
      rfl
    · rfl
  rw [shifted]
  cases x.msb with
  | true => rw [if_pos rfl, BitVec.getElem_allOnes]
  | false =>
    rw [if_neg Bool.false_ne_true]
    exact (BitVec.getElem_zero within).symm

/-- `((n << 1) ^ (n >> 63)) as u64` -/
def encodeWord (n : Int64) : UInt64 := ((n <<< 1) ^^^ (n >>> 63)).toUInt64

/-- `((v >> 1) as i64) ^ -((v & 1) as i64)` -/
def decodeWord (v : UInt64) : Int64 := (v >>> 1).toInt64 ^^^ -(v &&& 1).toInt64

theorem encodeWord_toNat (n : Int64) : (encodeWord n).toNat = zigzag n.toInt := by
  have bits : (encodeWord n).toBitVec = (n.toBitVec <<< 1) ^^^ n.toBitVec.sshiftRight 63 := rfl
  have value : n.toInt = n.toBitVec.toInt := rfl
  have shifted : (n.toBitVec <<< 1).toNat = 2 * n.toBitVec.toNat % 2 ^ 64 := by
    rw [BitVec.toNat_shiftLeft, Nat.shiftLeft_eq, Nat.mul_comm]
  have small := n.toBitVec.isLt
  rw [show (encodeWord n).toNat = (encodeWord n).toBitVec.toNat from rfl, bits, sign_word, value, zigzag]
  cases sign : n.toBitVec.msb with
  | false =>
    have low : n.toBitVec.toNat < 2 ^ 63 := by
      have half := BitVec.msb_eq_false_iff_two_mul_lt.1 sign
      omega
    rw [if_neg Bool.false_ne_true, BitVec.toInt_eq_toNat_of_msb sign, if_pos (Int.natCast_nonneg _)]
    rw [show n.toBitVec <<< 1 ^^^ (0 : BitVec 64) = n.toBitVec <<< 1 from BitVec.xor_zero, shifted]
    omega
  | true =>
    have high : 2 ^ 63 ≤ n.toBitVec.toNat := by
      have half := BitVec.msb_eq_true_iff_two_mul_ge.1 sign
      omega
    have negative : n.toBitVec.toInt = (n.toBitVec.toNat : Int) - 2 ^ 64 := by
      rw [BitVec.toInt_eq_msb_cond, sign, if_pos rfl]
      rfl
    rw [if_pos rfl, BitVec.xor_allOnes, BitVec.toNat_not, shifted, negative, if_neg (by omega)]
    omega

theorem decodeWord_toInt (v : UInt64) : (decodeWord v).toInt = unzigzag v.toNat := by
  have bits : (decodeWord v).toBitVec = (v.toBitVec >>> 1) ^^^ -(v.toBitVec &&& 1) := rfl
  have half : (v.toBitVec >>> 1).toNat = v.toNat / 2 := by
    rw [BitVec.toNat_ushiftRight, Nat.shiftRight_eq_div_pow]
    rfl
  have small := v.toNat_lt
  have plus : (v.toBitVec >>> 1).msb = false := by
    rw [BitVec.msb_eq_false_iff_two_mul_lt, half]
    omega
  have value : (v.toBitVec >>> 1).toInt = (v.toNat / 2 : Nat) := by
    rw [BitVec.toInt_eq_toNat_of_msb plus, half]
  have last : (v.toBitVec &&& 1).toNat = v.toNat % 2 := by
    rw [BitVec.toNat_and]
    exact Nat.and_two_pow_sub_one_eq_mod v.toNat 1
  rw [show (decodeWord v).toInt = (decodeWord v).toBitVec.toInt from rfl, bits, unzigzag]
  rcases Nat.mod_two_eq_zero_or_one v.toNat with even | odd
  · have clear : v.toBitVec &&& 1 = 0 := BitVec.eq_of_toNat_eq (last.trans even)
    rw [clear, if_pos even, ← value]
    exact congrArg BitVec.toInt (BitVec.xor_zero)
  · have set : v.toBitVec &&& 1 = 1 := BitVec.eq_of_toNat_eq (last.trans odd)
    have ones : -(1 : BitVec 64) = BitVec.allOnes 64 := by decide
    have wide : ¬ 2 * (2 ^ 64 - 1 - v.toNat / 2) < 2 ^ 64 := by omega
    rw [set, ones, BitVec.xor_allOnes, if_neg (by omega), BitVec.toInt_eq_toNat_cond, BitVec.toNat_not, half, if_neg wide]
    omega

theorem decodeWord_encodeWord (n : Int64) : decodeWord (encodeWord n) = n := by
  apply Int64.toInt_inj.1
  rw [decodeWord_toInt, encodeWord_toNat, unzigzag_zigzag]

theorem encodeWord_decodeWord (v : UInt64) : encodeWord (decodeWord v) = v := by
  apply UInt64.toNat_inj.1
  rw [encodeWord_toNat, decodeWord_toInt, zigzag_unzigzag]

/-! On integers without bounds. -/

theorem xor_zero (n : Int) : Int.xor n 0 = n := by
  cases n with
  | ofNat m => exact congrArg Int.ofNat (Nat.xor_zero m)
  | negSucc m => exact congrArg Int.negSucc (Nat.xor_zero m)

theorem xor_neg_one (n : Int) : Int.xor n (-1) = -n - 1 := by
  cases n with
  | ofNat m =>
    have same : Int.xor (Int.ofNat m) (-1) = Int.negSucc (m ^^^ 0) := rfl
    rw [same, Nat.xor_zero, Int.negSucc_eq, Int.ofNat_eq_natCast]
    omega
  | negSucc m =>
    have same : Int.xor (Int.negSucc m) (-1) = Int.ofNat (m ^^^ 0) := rfl
    rw [same, Nat.xor_zero, Int.negSucc_eq, Int.ofNat_eq_natCast]
    omega

/-- `(n << 1) ^ (n >> 63)`, masked to 64 bits. -/
def encodeMasked (n : Int) : Nat := (Int.xor (n * 2) (n / 2 ^ 63) % 2 ^ 64).toNat

theorem encodeMasked_eq {n : Int} (above : -2 ^ 63 ≤ n) (below : n < 2 ^ 63) : encodeMasked n = zigzag n := by
  unfold encodeMasked zigzag
  by_cases sign : 0 ≤ n
  · have none_left : n / 2 ^ 63 = 0 := by omega
    rw [if_pos sign, none_left, xor_zero]
    omega
  · have ones : n / 2 ^ 63 = -1 := by omega
    rw [if_neg sign, ones, xor_neg_one]
    omega

/-- `(v >> 1) ^ -(v & 1)` -/
def decodeUnbounded (v : Nat) : Int := Int.xor (v / 2 : Nat) (-((v % 2 : Nat) : Int))

theorem decodeUnbounded_eq (v : Nat) : decodeUnbounded v = unzigzag v := by
  unfold decodeUnbounded unzigzag
  rcases Nat.mod_two_eq_zero_or_one v with even | odd
  · rw [even, if_pos rfl]
    exact xor_zero _
  · rw [odd, if_neg (by omega)]
    exact xor_neg_one _

end EchoStream.Foundation.Zigzag
