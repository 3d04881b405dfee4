import EchoStream.Bindings.NodeCodec
import EchoStream.Bindings.WasmCodec

/-! The encoder in Node and the one for browsers, on the same values. They part on a
number of the magnitude `2 ^ 53`, which is an integer to one and a float to the
other, and on a `BigInt` of more than 64 bits, which only one of them refuses. -/

namespace EchoStream.Bindings.Encoders
open Foundation Foundation.Reading Foundation.Writing Foundation.Zigzag
open Proto Proto.Messages Proto.Payload Proto.DynamicCodec JsValues

/-- Numbers are finite, and an array of bytes is never so long. -/
def PlainLeaf : JsValue → Prop
  | .number bits => Float64.isFinite bits = true
  | .string text => (Utf8.encode text).length < 2 ^ 64
  | .bytes data => data.length < 2 ^ 64
  | _ => True

def Plain (v : JsValue) : Prop := ∀ leaf ∈ v.leaves, PlainLeaf leaf

def CarefulLeaf : JsValue → Prop
  | .number bits => Float64.magnitude? bits ≠ some (2 ^ 53)
  | .bigint n => -2 ^ 63 ≤ n ∧ n < 2 ^ 64
  | _ => True

/-- No number is `2 ^ 53` or its negative, and every `BigInt` is an `i64` or a `u64`. -/
def Careful (v : JsValue) : Prop := ∀ leaf ∈ v.leaves, CarefulLeaf leaf

theorem prefixed_eq {data : Bytes} (short : data.length < 2 ^ 64) :
    DynamicCodec.Writer.prefixed data = NodeCodec.Writer.prefixed data := by
  have length : (UInt64.ofNat data.length).toNat = data.length := UInt64.toNat_ofNat_of_lt short
  rw [DynamicCodec.Writer.prefixed, NodeCodec.Writer.prefixed, varint_eq, length]

theorem int_eq {n : Int} (above : -2 ^ 63 ≤ n) (below : n < 2 ^ 63) :
    DynamicCodec.Writer.value (.int (Int64.ofInt n)) = writeVarint (encodeMasked n) := by
  show DynamicCodec.Writer.varint (encodeWord (Int64.ofInt n)) = _
  rw [varint_eq, encodeWord_toNat, Int64.toInt_ofInt_of_le above below, encodeMasked_eq above below]

/-- The groups of an integer that is a number need no more room than the number's own bytes,
and are other bytes. -/
theorem integer_groups {bits : Float64.Bits} {n : Int} (integer : Float64.toInt? bits = some n) (small : n.natAbs ≤ 2 ^ 53) :
    (writeVarint (encodeMasked n)).length ≤ 8 ∧ writeVarint (encodeMasked n) ≠ Float64.toBytes bits := by
  have value : encodeMasked n = zigzag n := encodeMasked_eq (by omega) (by omega)
  have bound : zigzag n ≤ 2 ^ 54 := by
    unfold zigzag
    split <;> omega
  have groups : writeVarint (encodeMasked n) = Formats.putGroups 8 (zigzag n) := by
    rw [value]
    exact writeVarint_groups (Nat.lt_of_le_of_lt bound (by decide))
  rw [groups]
  exact ⟨Formats.putGroups_length_le 8 _, Float64.toBytes_ne_groups integer (fun zero => zigzag_eq_zero.2 zero) bound⟩

/-! Numbers. -/

section
variable {bits : Float64.Bits} (finite : Float64.isFinite bits = true)
include finite

theorem node_integer {n : Int} (integer : Float64.toInt? bits = some n) (small : n.natAbs ≤ 2 ^ 53 - 1) :
    NodeCodec.Writer.value (.number bits) = .ok (writeVarint (encodeMasked n)) := by
  show NodeCodec.Writer.number bits = _
  rw [NodeCodec.Writer.number, if_pos finite, integer]
  exact if_pos small

theorem node_float (large : ∀ n, Float64.toInt? bits = some n → 2 ^ 53 - 1 < n.natAbs) :
    NodeCodec.Writer.value (.number bits) = .ok (Float64.toBytes bits) := by
  show NodeCodec.Writer.number bits = _
  rw [NodeCodec.Writer.number, if_pos finite]
  cases integer : Float64.toInt? bits with
  | some n => exact if_neg (Nat.not_le_of_lt (large n integer))
  | none => rfl

theorem wasm_integer {n : Int} (integer : Float64.toInt? bits = some n) (small : n.natAbs ≤ 2 ^ 53) :
    WasmCodec.encode_payload (.number bits) = .ok (writeVarint (encodeMasked n)) := by
  have number : WasmCodec.numberToDynamic bits = .ok (.int (Int64.ofInt n)) := by
    rw [WasmCodec.numberToDynamic, if_pos finite, integer]
    exact if_pos small
  show (WasmCodec.numberToDynamic bits >>= encode) = _
  rw [number, ← int_eq (by omega) (by omega)]
  rfl

theorem wasm_float (large : ∀ n, Float64.toInt? bits = some n → 2 ^ 53 < n.natAbs) :
    WasmCodec.encode_payload (.number bits) = .ok (Float64.toBytes bits) := by
  have number : WasmCodec.numberToDynamic bits = .ok (.float bits) := by
    rw [WasmCodec.numberToDynamic, if_pos finite]
    cases integer : Float64.toInt? bits with
    | some n => exact if_neg (Nat.not_le_of_lt (large n integer))
    | none => rfl
  show (WasmCodec.numberToDynamic bits >>= encode) = _
  rw [number]
  rfl

end

theorem number_cases (bits : Float64.Bits) :
    (∃ n, Float64.toInt? bits = some n ∧ n.natAbs ≤ 2 ^ 53 - 1) ∨ (∃ n, Float64.toInt? bits = some n ∧ n.natAbs = 2 ^ 53) ∨
      ∀ n, Float64.toInt? bits = some n → 2 ^ 53 < n.natAbs := by
  cases integer : Float64.toInt? bits with
  | none =>
    refine Or.inr (Or.inr (fun n same => ?_))
    cases same
  | some n =>
    rcases Nat.lt_trichotomy n.natAbs (2 ^ 53) with less | limit | more
    · exact Or.inl ⟨n, rfl, Nat.le_sub_one_of_lt less⟩
    · exact Or.inr (Or.inl ⟨n, rfl, limit⟩)
    · refine Or.inr (Or.inr (fun m same => ?_))
      cases same
      exact more

theorem careful_number {bits : Float64.Bits} (other : ∀ n, Float64.toInt? bits = some n → n.natAbs ≠ 2 ^ 53) :
    CarefulLeaf (.number bits) := by
  intro limit
  obtain ⟨n, integer⟩ : ∃ n, Float64.toInt? bits = some n := by
    rw [Float64.toInt?, limit]
    exact ⟨_, rfl⟩
  have size : some n.natAbs = some (2 ^ 53) := (Float64.natAbs_toInt? integer).symm.trans limit
  exact other n integer (Option.some.inj size)

theorem number_fits {bits : Float64.Bits} (finite : Float64.isFinite bits = true) :
    Fits (NodeCodec.Writer.value (.number bits)) (WasmCodec.encode_payload (.number bits)) ∧
      (WasmCodec.encode_payload (.number bits) = NodeCodec.Writer.value (.number bits) ↔ CarefulLeaf (.number bits)) := by
  rcases number_cases bits with ⟨n, integer, small⟩ | ⟨n, integer, limit⟩ | large
  · have node := node_integer finite integer small
    have same := (wasm_integer finite integer (by omega)).trans node.symm
    have careful : CarefulLeaf (.number bits) := by
      apply careful_number
      intro m also
      cases integer.symm.trans also
      omega
    exact ⟨Fits.of_eq node same, iff_of_true same careful⟩
  · have node : NodeCodec.Writer.value (.number bits) = .ok (Float64.toBytes bits) := by
      apply node_float finite
      intro m same
      cases integer.symm.trans same
      omega
    have wasm := wasm_integer finite integer (Nat.le_of_eq limit)
    have groups := integer_groups integer (Nat.le_of_eq limit)
    constructor
    · refine ⟨_, node, fun other also => ?_⟩
      cases wasm.symm.trans also
      rw [Float64.toBytes_length]
      exact groups.1
    · apply iff_of_false
      · exact fun same => groups.2 (Outcome.ok.inj (wasm.symm.trans (same.trans node)))
      · exact fun careful => careful ((Float64.natAbs_toInt? integer).trans (congrArg some limit))
  · have node := node_float finite (fun n integer => Nat.lt_trans (by decide) (large n integer))
    have same := (wasm_float finite large).trans node.symm
    have careful : CarefulLeaf (.number bits) := careful_number (fun n integer => Nat.ne_of_gt (large n integer))
    exact ⟨Fits.of_eq node same, iff_of_true same careful⟩

theorem bigint_fits (n : Int) :
    Fits (NodeCodec.Writer.value (.bigint n)) (WasmCodec.encode_payload (.bigint n)) ∧
      (WasmCodec.encode_payload (.bigint n) = NodeCodec.Writer.value (.bigint n) ↔ CarefulLeaf (.bigint n)) := by
  have node : NodeCodec.Writer.value (.bigint n) = .ok (NodeCodec.Writer.bigint n) := rfl
  have wasm : WasmCodec.encode_payload (.bigint n) = (WasmCodec.bigintToDynamic n >>= encode) := rfl
  by_cases unsigned : 0 ≤ n ∧ n < 2 ^ 64
  · have small : n.toNat < 2 ^ 64 := by omega
    have length : (UInt64.ofNat n.toNat).toNat = n.toNat := UInt64.toNat_ofNat_of_lt small
    have groups : DynamicCodec.Writer.varint (UInt64.ofNat n.toNat) = writeVarint n.toNat := by rw [varint_eq, length]
    have same : WasmCodec.encode_payload (.bigint n) = NodeCodec.Writer.value (.bigint n) := by
      rw [wasm, node, WasmCodec.bigintToDynamic, if_pos unsigned, NodeCodec.Writer.bigint, if_pos unsigned.1, ← groups]
      rfl
    have above : -2 ^ 63 ≤ n := by omega
    exact ⟨Fits.of_eq node same, iff_of_true same ⟨above, unsigned.2⟩⟩
  · by_cases signed : -2 ^ 63 ≤ n ∧ n < 2 ^ 63
    · have below : ¬ 0 ≤ n := by omega
      have same : WasmCodec.encode_payload (.bigint n) = NodeCodec.Writer.value (.bigint n) := by
        rw [wasm, node, WasmCodec.bigintToDynamic, if_neg unsigned, if_pos signed, NodeCodec.Writer.bigint, if_neg below,
          ← int_eq signed.1 signed.2]
        rfl
      have small : n < 2 ^ 64 := by omega
      exact ⟨Fits.of_eq node same, iff_of_true same ⟨signed.1, small⟩⟩
    · have refused : WasmCodec.encode_payload (.bigint n) = .err "bigint 超出 u64/i64 范围" := by
        rw [wasm, WasmCodec.bigintToDynamic, if_neg unsigned, if_neg signed]
        rfl
      constructor
      · refine ⟨_, node, fun other also => ?_⟩
        rw [refused] at also
        cases also
      · apply iff_of_false
        · intro same
          rw [refused, node] at same
          cases same
        · intro careful
          have range : -2 ^ 63 ≤ n ∧ n < 2 ^ 64 := careful
          omega

theorem leaf_fits {leaf : JsValue} (whole : leaf.isLeaf = true) (plain : PlainLeaf leaf) :
    Fits (NodeCodec.Writer.value leaf) (WasmCodec.encode_payload leaf) ∧
      (WasmCodec.encode_payload leaf = NodeCodec.Writer.value leaf ↔ CarefulLeaf leaf) := by
  cases leaf with
  | number bits => exact number_fits plain
  | bigint n => exact bigint_fits n
  | undefined => exact ⟨Fits.of_eq rfl rfl, iff_of_true rfl trivial⟩
  | null => exact ⟨Fits.of_eq rfl rfl, iff_of_true rfl trivial⟩
  | bool b => exact ⟨Fits.of_eq rfl rfl, iff_of_true rfl trivial⟩
  | string text =>
    have same : WasmCodec.encode_payload (.string text) = NodeCodec.Writer.value (.string text) :=
      congrArg Outcome.ok (prefixed_eq plain)
    exact ⟨Fits.of_eq rfl same, iff_of_true same trivial⟩
  | bytes data =>
    have same : WasmCodec.encode_payload (.bytes data) = NodeCodec.Writer.value (.bytes data) :=
      congrArg Outcome.ok (prefixed_eq plain)
    exact ⟨Fits.of_eq rfl same, iff_of_true same trivial⟩
  | array items => cases whole
  | object fields => cases whole

/-- The encoders write a value alike just when it is careful. They never both fail on it. -/
theorem encoders_same_iff {v : JsValue} (plain : Plain v) :
    Same (NodeCodec.encodePayload v .auto) (WasmCodec.encode_payload v) ↔ Careful v := by
  have fits : ∀ leaf ∈ v.leaves, _ := fun leaf member => leaf_fits (isLeaf_of_mem v leaf member) (plain leaf member)
  show Same (NodeCodec.Writer.value v) _ ↔ _
  rw [NodeCodec.Writer.value_leaves, WasmCodec.encode_payload_leaves,
    joined_same_iff fun leaf member => (fits leaf member).1]
  exact forall₂_congr fun leaf member => (fits leaf member).2

/-- An object with a nested array. -/
theorem encoders_same_nested :
    let v : JsValue := .object [("a", .array [.number (Float64.ofInt (-7)), .bigint (2 ^ 64 - 1)]), ("b", .null)]
    Same (NodeCodec.encodePayload v .auto) (WasmCodec.encode_payload v) := by
  intro v
  have leaves : v.leaves = [.number (Float64.ofInt (-7)), .bigint (2 ^ 64 - 1), .null] := rfl
  apply (encoders_same_iff (v := v) _).2
  · intro leaf member
    rw [leaves] at member
    simp only [List.mem_cons, List.not_mem_nil, or_false] at member
    rcases member with rfl | rfl | rfl
    · show Float64.magnitude? (Float64.ofInt (-7)) ≠ some (2 ^ 53)
      decide +kernel
    · exact ⟨by decide, by decide⟩
    · trivial
  · intro leaf member
    rw [leaves] at member
    simp only [List.mem_cons, List.not_mem_nil, or_false] at member
    rcases member with rfl | rfl | rfl
    · show Float64.isFinite (Float64.ofInt (-7)) = true
      decide +kernel
    · trivial
    · trivial

/-- `2 ** 53` is written as a float in Node and as an integer in the browser. -/
theorem encoders_differ : ¬ Same (NodeCodec.encodePayload (.number (Float64.ofInt (2 ^ 53))) .auto)
    (WasmCodec.encode_payload (.number (Float64.ofInt (2 ^ 53)))) := by
  have node : NodeCodec.encodePayload (.number (Float64.ofInt (2 ^ 53))) .auto = .ok [0, 0, 0, 0, 0, 0, 64, 67] := by
    decide +kernel
  rw [same_ok node]
  decide +kernel

end EchoStream.Bindings.Encoders
