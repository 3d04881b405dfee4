import Mathlib.Data.List.Perm.Basic
import EchoStream.Bindings.Encoders
import EchoStream.Bindings.Values

/-! A value in JavaScript and in Python, and how the encoders of the three write it when
they have no schema. They part on floats that JavaScript takes for integers or refuses. -/

namespace EchoStream.Bindings.EncodeValues
open Foundation Foundation.Reading Foundation.Writing Foundation.Zigzag
open Proto Proto.Messages Proto.Payload JsValues PythonCodec Values Encoders

mutual

/-- An integer is a number, as a float is. -/
def toJs : Value → JsValue
  | .null => .null
  | .bool b => .bool b
  | .int n => .number (Float64.ofInt n)
  | .float bits => .number bits
  | .str text => .string text
  | .bytes data => .bytes data
  | .seq items => .array (toJsItems items)
  | .map fields => .object (toJsFields fields)

def toJsItems : List Value → List JsValue
  | [] => []
  | item :: items => toJs item :: toJsItems items

def toJsFields : List (String × Value) → List (String × JsValue)
  | [] => []
  | (name, item) :: fields => (name, toJs item) :: toJsFields fields

end

mutual

def toPython : Value → PyValue
  | .null => .none
  | .bool b => .bool b
  | .int n => .int n
  | .float bits => .float bits
  | .str text => .str text
  | .bytes data => .bytes data
  | .seq items => .list (toPythonItems items)
  | .map fields => .dict (toPythonFields fields)

def toPythonItems : List Value → List PyValue
  | [] => []
  | item :: items => toPython item :: toPythonItems items

def toPythonFields : List (String × Value) → List (String × PyValue)
  | [] => []
  | (name, item) :: fields => (name, toPython item) :: toPythonFields fields

end

theorem toJsItems_eq (items : List Value) : toJsItems items = items.map toJs := by
  induction items with
  | nil => rfl
  | cons item items ih => rw [toJsItems, ih, List.map_cons]

theorem toJsFields_eq (fields : List (String × Value)) : toJsFields fields = fields.map (Dialect.named toJs) := by
  induction fields with
  | nil => rfl
  | cons field fields ih => rw [toJsFields, ih, List.map_cons, Dialect.named]

theorem toPythonItems_eq (items : List Value) : toPythonItems items = items.map toPython := by
  induction items with
  | nil => rfl
  | cons item items ih => rw [toPythonItems, ih, List.map_cons]

theorem toPythonFields_eq (fields : List (String × Value)) :
    toPythonFields fields = fields.map (Dialect.named toPython) := by
  induction fields with
  | nil => rfl
  | cons field fields ih => rw [toPythonFields, ih, List.map_cons, Dialect.named]

mutual

/-- What is in the value, in order, that is neither a sequence nor a map. -/
def leaves : Value → List Value
  | .seq items => leavesOfItems items
  | .map fields => leavesOfFields fields
  | v => [v]

def leavesOfItems : List Value → List Value
  | [] => []
  | item :: items => leaves item ++ leavesOfItems items

def leavesOfFields : List (String × Value) → List Value
  | [] => []
  | (_, item) :: fields => leaves item ++ leavesOfFields fields

end

theorem leavesOfItems_eq (items : List Value) : leavesOfItems items = items.flatMap leaves := by
  induction items with
  | nil => rfl
  | cons item items ih => rw [leavesOfItems, ih, List.flatMap_cons]

theorem leavesOfFields_eq (fields : List (String × Value)) :
    leavesOfFields fields = (fields.map Prod.snd).flatMap leaves := by
  induction fields with
  | nil => rfl
  | cons field fields ih => rw [leavesOfFields, ih, List.map_cons, List.flatMap_cons]

def isLeaf : Value → Bool
  | .seq _ => false
  | .map _ => false
  | _ => true

theorem value_induct {holds : Value → Prop} (leaf : ∀ v, isLeaf v = true → holds v)
    (seq : ∀ items, (∀ item ∈ items, holds item) → holds (.seq items))
    (map : ∀ fields, (∀ item ∈ fields.map Prod.snd, holds item) → holds (.map fields)) (v : Value) : holds v := by
  refine @Value.rec holds (fun items => ∀ item ∈ items, holds item) (fun fields => ∀ item ∈ fields.map Prod.snd, holds item)
    (fun field => holds field.2) (leaf _ rfl) (fun _ => leaf _ rfl) (fun _ => leaf _ rfl) (fun _ => leaf _ rfl)
    (fun _ => leaf _ rfl) (fun _ => leaf _ rfl) seq map ?_ ?_ ?_ ?_ (fun _ _ here => here) v
  · exact fun _ member => absurd member List.not_mem_nil
  · exact fun _ _ here there => List.forall_mem_cons.2 ⟨here, there⟩
  · exact fun _ member => absurd member List.not_mem_nil
  · exact fun _ _ here there => List.forall_mem_cons.2 ⟨here, there⟩

theorem leaves_leaf {v : Value} (whole : isLeaf v = true) : leaves v = [v] := by
  cases v with
  | seq items => cases whole
  | map fields => cases whole
  | _ => rfl

theorem isLeaf_of_mem (v : Value) : ∀ leaf ∈ leaves v, isLeaf leaf = true := by
  have parts : ∀ {items : List Value}, (∀ item ∈ items, ∀ leaf ∈ leaves item, isLeaf leaf = true) →
      ∀ leaf ∈ items.flatMap leaves, isLeaf leaf = true := by
    intro items each leaf member
    obtain ⟨item, inside, here⟩ := List.mem_flatMap.1 member
    exact each item inside leaf here
  induction v using value_induct with
  | leaf v whole =>
    intro leaf member
    rw [leaves_leaf whole] at member
    rw [List.mem_singleton.1 member]
    exact whole
  | seq items ih =>
    rw [leaves, leavesOfItems_eq]
    exact parts ih
  | map fields ih =>
    rw [leaves, leavesOfFields_eq]
    exact parts ih

theorem write_leaves {write : Value → Outcome Bytes} (seq : ∀ items, write (.seq items) = joined write items)
    (map : ∀ fields, write (.map fields) = joined write (fields.map Prod.snd)) (v : Value) :
    write v = joined write (leaves v) := by
  induction v using value_induct with
  | leaf v whole => rw [leaves_leaf whole, joined_single]
  | seq items ih =>
    rw [seq, leaves, leavesOfItems_eq, joined_flatMap]
    exact joined_congr ih
  | map fields ih =>
    rw [map, leaves, leavesOfFields_eq, joined_flatMap]
    exact joined_congr ih

/-! The three writers, without a schema. -/

def node (v : Value) : Outcome Bytes := NodeCodec.Writer.value (toJs v)
def browser (v : Value) : Outcome Bytes := WasmCodec.encode_payload (toJs v)
def python (v : Value) : Outcome Bytes := PythonCodec.Writer.value (toPython v)

theorem js_fields (fields : List (String × Value)) : (toJsFields fields).map Prod.snd = (fields.map Prod.snd).map toJs := by
  rw [toJsFields_eq, List.map_map, List.map_map]
  rfl

theorem python_fields (fields : List (String × Value)) :
    (toPythonFields fields).map Prod.snd = (fields.map Prod.snd).map toPython := by
  rw [toPythonFields_eq, List.map_map, List.map_map]
  rfl

theorem node_leaves (v : Value) : node v = joined node (leaves v) := by
  apply write_leaves
  · intro items
    show NodeCodec.Writer.values (toJsItems items) = _
    rw [NodeCodec.Writer.values_eq, toJsItems_eq, joined_map]
    rfl
  · intro fields
    show NodeCodec.Writer.fieldValues (toJsFields fields) = _
    rw [NodeCodec.Writer.fieldValues_eq, js_fields, joined_map]
    rfl

theorem browser_leaves (v : Value) : browser v = joined browser (leaves v) := by
  apply write_leaves
  · intro items
    show WasmCodec.encode_payload (.array (toJsItems items)) = _
    rw [WasmCodec.encode_payload_items, toJsItems_eq, joined_map]
    rfl
  · intro fields
    show WasmCodec.encode_payload (.object (toJsFields fields)) = _
    rw [WasmCodec.encode_payload_fields, js_fields, joined_map]
    rfl

theorem python_leaves (v : Value) : python v = joined python (leaves v) := by
  apply write_leaves
  · intro items
    show PythonCodec.Writer.values (toPythonItems items) = _
    rw [PythonCodec.Writer.values_eq, toPythonItems_eq, joined_map]
    rfl
  · intro fields
    show PythonCodec.Writer.fieldValues (toPythonFields fields) = _
    rw [PythonCodec.Writer.fieldValues_eq, python_fields, joined_map]
    rfl

/-! Leaves. -/

/-- Integers are safe in JavaScript, and no text or array of bytes is so long. -/
def SafeLeaf : Value → Prop
  | .int n => n.natAbs ≤ 2 ^ 53 - 1
  | .str text => (Utf8.encode text).length < 2 ^ 64
  | .bytes data => data.length < 2 ^ 64
  | _ => True

/-- JavaScript neither refuses the float nor takes it for an integer. -/
def FineLeaf : Value → Prop
  | .float bits => Float64.isFinite bits = true ∧ ∀ n, Float64.toInt? bits = some n → 2 ^ 53 < n.natAbs
  | _ => True

theorem integer_written {n : Int} (safe : n.natAbs ≤ 2 ^ 53 - 1) :
    python (.int n) = .ok (writeVarint (encodeMasked n)) ∧ node (.int n) = .ok (writeVarint (encodeMasked n)) ∧
      browser (.int n) = .ok (writeVarint (encodeMasked n)) := by
  have integer : Float64.toInt? (Float64.ofInt n) = some n := Float64.toInt?_ofInt (by omega)
  have finite := Float64.isFinite_of_integer integer
  have word : -2 ^ 63 ≤ n ∧ n ≤ 2 ^ 63 - 1 := by omega
  exact ⟨if_pos word, node_integer finite integer safe, wasm_integer finite integer (by omega)⟩

/-- A float that is an integer in JavaScript is written in groups, which are other bytes. -/
theorem float_written (bits : Float64.Bits) :
    Fits (python (.float bits)) (browser (.float bits)) ∧
      (browser (.float bits) = python (.float bits) ↔ FineLeaf (.float bits)) ∧
        (FineLeaf (.float bits) → node (.float bits) = python (.float bits)) := by
  have own : python (.float bits) = .ok (Float64.toBytes bits) := rfl
  by_cases finite : Float64.isFinite bits = true
  · by_cases large : ∀ n, Float64.toInt? bits = some n → 2 ^ 53 < n.natAbs
    · have same : browser (.float bits) = python (.float bits) := wasm_float finite large
      have also : node (.float bits) = python (.float bits) :=
        node_float finite (fun n integer => Nat.lt_of_le_of_lt (by decide) (large n integer))
      exact ⟨Fits.of_eq own same, iff_of_true same ⟨finite, large⟩, fun _ => also⟩
    · obtain ⟨n, integer, small⟩ : ∃ n, Float64.toInt? bits = some n ∧ n.natAbs ≤ 2 ^ 53 := by
        simpa only [not_forall, Nat.not_lt, exists_prop] using large
      have groups := integer_groups integer small
      have wrote : browser (.float bits) = .ok (writeVarint (encodeMasked n)) := wasm_integer finite integer small
      refine ⟨⟨_, own, fun other also => ?_⟩, iff_of_false ?_ (fun fine => large fine.2), fun fine => absurd fine.2 large⟩
      · cases wrote.symm.trans also
        rw [Float64.toBytes_length]
        exact groups.1
      · exact fun same => groups.2 (Outcome.ok.inj (wrote.symm.trans (same.trans own)))
  · have refused : browser (.float bits) = .err "载荷 number 必须是有限值" := by
      show (WasmCodec.numberToDynamic bits >>= DynamicCodec.encode) = _
      rw [WasmCodec.numberToDynamic, if_neg finite]
      rfl
    refine ⟨⟨_, own, fun other also => ?_⟩, iff_of_false ?_ (fun fine => finite fine.1), fun fine => absurd fine.1 finite⟩
    · cases refused.symm.trans also
    · exact fun same => by cases refused.symm.trans (same.trans own)

theorem leaf_written {leaf : Value} (whole : isLeaf leaf = true) (safe : SafeLeaf leaf) :
    Fits (python leaf) (browser leaf) ∧ (browser leaf = python leaf ↔ FineLeaf leaf) ∧
      (FineLeaf leaf → node leaf = python leaf) := by
  have alike : ∀ {leaf : Value} {bytes : Bytes}, FineLeaf leaf → python leaf = .ok bytes → node leaf = .ok bytes →
      browser leaf = .ok bytes → Fits (python leaf) (browser leaf) ∧ (browser leaf = python leaf ↔ FineLeaf leaf) ∧
        (FineLeaf leaf → node leaf = python leaf) := by
    intro leaf bytes fine left mid right
    have same := right.trans left.symm
    exact ⟨Fits.of_eq left same, iff_of_true same fine, fun _ => mid.trans left.symm⟩
  cases leaf with
  | null => exact alike trivial rfl rfl rfl
  | bool b => exact alike trivial rfl rfl rfl
  | int n =>
    obtain ⟨left, mid, right⟩ := integer_written safe
    exact alike trivial left mid right
  | float bits => exact float_written bits
  | str text => exact alike trivial rfl rfl (congrArg Outcome.ok (prefixed_eq safe))
  | bytes data => exact alike trivial rfl rfl (congrArg Outcome.ok (prefixed_eq safe))
  | seq items => cases whole
  | map fields => cases whole

end EchoStream.Bindings.EncodeValues
