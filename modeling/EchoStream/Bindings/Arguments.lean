import EchoStream.Bindings.Lists
import EchoStream.Bindings.WasmCodec

/-! Integers as the arguments of a call. They are written one behind the other, and the
handler's side infers what they are. A varint that is not beyond the length of what
follows is taken for the length of a text. -/

namespace EchoStream.Bindings.Arguments
open Foundation Foundation.Reading Foundation.Writing Foundation.Zigzag
open Proto Proto.Messages Proto.Payload Proto.DynamicCodec Proto.Inferring JsValues PythonCodec EchoStream.Bindings.Lists

def payload (ints : List Int64) : Bytes := DynamicCodec.Writer.value (.seq (ints.map .int))

/-- No argument but zero can be the length of a text that follows, on a machine of so many bits. -/
def Clear (bits : Nat) : List Int64 → Prop
  | [] => True
  | n :: later => (n.toInt = 0 ∨ (payload later).length < zigzag n.toInt % 2 ^ bits) ∧ Clear bits later

theorem payload_cons (n : Int64) (later : List Int64) :
    payload (n :: later) = writeVarint (zigzag n.toInt) ++ payload later := by
  have front : DynamicCodec.Writer.value (.int n) = writeVarint (zigzag n.toInt) := by
    show DynamicCodec.Writer.varint (encodeWord n) = _
    rw [varint_eq, encodeWord_toNat]
  rw [← front]
  rfl

/-- The inference reads numbers as what they stand for, and nothing else as a number. -/
structure Looks {α : Type} (i : Inference α) (look : α → Option Int) (bits limit : Nat) : Prop where
  sound : i.Sound limit
  cut : ∀ v, v < 2 ^ 64 → i.cut v = v
  size : ∀ v, v < 2 ^ 64 → i.size v = v % 2 ^ bits
  zero : look i.zero = some 0
  inferred : ∀ data, look (i.inferred data) = none
  number : ∀ v, v < 2 ^ 64 → look (i.number v) = some (unzigzag v)

theorem zigzag_word (n : Int64) : zigzag n.toInt < 2 ^ 64 := by
  rw [← encodeWord_toNat]
  exact (encodeWord n).toNat_lt

theorem payload_front (n : Int64) (later : List Int64) :
    Formats.getGroups 127 10 (payload (n :: later)) = some (zigzag n.toInt, payload later) := by
  have bound : zigzag n.toInt < 2 ^ 70 := Nat.lt_of_lt_of_le (zigzag_word n) (by decide)
  rw [payload_cons, writeVarint_eq bound]
  exact Formats.getGroups_putGroups (by decide) (Nat.lt_of_lt_of_le bound (by decide)) _

def meant (ints : List Int64) : List (Option Int) := ints.map (fun n => some n.toInt)

section
variable {α : Type} {i : Inference α} {look : α → Option Int} {bits limit : Nat} (looks : Looks i look bits limit)
include looks

theorem splits_of_clear {ints : List Int64} (clear : Clear bits ints) :
    ∃ values, Inference.Splits i (payload ints) values ∧ values.map look = meant ints := by
  induction ints with
  | nil => exact ⟨[], .nothing, rfl⟩
  | cons n later ih =>
    obtain ⟨values, splits, same⟩ := ih clear.2
    have front := payload_front n later
    have word := zigzag_word n
    have cut := looks.cut _ word
    by_cases zero : n.toInt = 0
    · have nothing : i.cut (zigzag n.toInt) = 0 := cut.trans (zigzag_eq_zero.2 zero)
      refine ⟨_, .zero front nothing splits, ?_⟩
      rw [List.map_cons, looks.zero, same, ← zero]
      rfl
    · have more : i.cut (zigzag n.toInt) ≠ 0 := fun nothing => zero (zigzag_eq_zero.1 (cut.symm.trans nothing))
      have beyond : (payload later).length < i.size (i.cut (zigzag n.toInt)) := by
        rw [cut, looks.size _ word]
        exact clear.1.resolve_left zero
      refine ⟨_, .number front more beyond splits, ?_⟩
      rw [List.map_cons, cut, looks.number _ word, unzigzag_zigzag, same]
      rfl

theorem clear_of_splits {ints : List Int64} {values : List α} (splits : Inference.Splits i (payload ints) values)
    (same : values.map look = meant ints) : Clear bits ints := by
  induction ints generalizing values with
  | nil => trivial
  | cons n later ih =>
    have front := payload_front n later
    have word := zigzag_word n
    have cut := looks.cut _ word
    generalize payload (n :: later) = bytes at splits front
    cases splits with
    | nothing => cases same
    | zero there nothing rest =>
      rw [front] at there
      cases there
      obtain ⟨_, others⟩ := List.cons.inj same
      exact ⟨Or.inl (zigzag_eq_zero.1 (cut.symm.trans nothing)), ih rest others⟩
    | sized there more enough rest =>
      obtain ⟨first, _⟩ := List.cons.inj same
      rw [looks.inferred] at first
      cases first
    | number there more beyond rest =>
      rw [front] at there
      cases there
      obtain ⟨_, others⟩ := List.cons.inj same
      rw [cut, looks.size _ word] at beyond
      exact ⟨Or.inr beyond, ih rest others⟩

end

/-- How a decoded payload becomes arguments, as far as they are integers. -/
structure Spreads {α : Type} (d : Dialect α) (i : Inference α) (look : α → Option Int) (args : α → List (Option Int)) :
    Prop where
  seq : ∀ values, args (d.seq values) = values.map look
  zero : (args i.zero).length ≤ 1
  inferred : ∀ data, (args (i.inferred data)).length ≤ 1
  number : ∀ v, (args (i.number v)).length ≤ 1

theorem Spreads.single {α : Type} {d : Dialect α} {i : Inference α} {look : α → Option Int} {args : α → List (Option Int)}
    (spreads : Spreads d i look args) {bytes : Bytes} {value : α} {values : List α}
    (splits : Inference.Splits i bytes (value :: values)) : (args value).length ≤ 1 := by
  cases splits with
  | zero _ _ _ => exact spreads.zero
  | sized _ _ _ _ => exact spreads.inferred _
  | number _ _ _ _ => exact spreads.number _

theorem received_iff {α : Type} {d : Dialect α} {i : Inference α} {look : α → Option Int} {args : α → List (Option Int)}
    {bits limit : Nat} (infers : d.field = i.field) (looks : Looks i look bits limit) (spreads : Spreads d i look args)
    {ints : List Int64} (several : 2 ≤ ints.length) (slice : (payload ints).length < limit) :
    (∃ decoded, d.decode (payload ints) .auto = .ok decoded ∧ args decoded = meant ints) ↔ Clear bits ints := by
  have count : (meant ints).length = ints.length := List.length_map _
  have some : payload ints ≠ [] := by
    match ints, several with
    | n :: later, _ =>
      rw [payload_cons]
      intro empty
      exact absurd (List.append_eq_nil_iff.1 empty).1 (List.ne_nil_of_length_pos (writeVarint_pos _))
  have decoded_iff : ∀ {decoded}, d.decode (payload ints) .auto = .ok decoded ↔
      ∃ values, Inference.Splits i (payload ints) values ∧ decoded = d.pack values := by
    intro decoded
    have start : 0 + (payload ints).length < limit := by omega
    rw [Dialect.decode_ok]
    constructor
    · rintro ⟨rest, came, _⟩
      obtain ⟨values, splits, same, _⟩ := (auto_iff infers looks.sound start some).1 came
      exact ⟨values, splits, same⟩
    · rintro ⟨values, splits, same⟩
      exact ⟨_, (auto_iff infers looks.sound start some).2 ⟨values, splits, same, rfl⟩, rfl⟩
  constructor
  · rintro ⟨decoded, came, same⟩
    obtain ⟨values, splits, rfl⟩ := decoded_iff.1 came
    match values with
    | [] => exact absurd (Inference.splits_nil.1 splits) some
    | [value] =>
      have alone : (args value).length ≤ 1 := spreads.single splits
      have all : args value = meant ints := same
      rw [all] at alone
      omega
    | first :: second :: others => exact clear_of_splits looks splits ((spreads.seq _).symm.trans same)
  · intro clear
    obtain ⟨values, splits, same⟩ := splits_of_clear looks clear
    have lengths : values.length = ints.length := by rw [← count, ← same, List.length_map]
    refine ⟨_, decoded_iff.2 ⟨values, splits, rfl⟩, ?_⟩
    match values, lengths with
    | [], empty => exact absurd empty (by rw [List.length_nil]; omega)
    | [value], single => exact absurd single (by rw [List.length_singleton]; omega)
    | first :: second :: others, _ => exact (spreads.seq _).trans same

/-! The handlers of the four languages. -/

def rustInt? : DynamicCodec.Dynamic → Option Int
  | .int n => some n.toInt
  | _ => none

def rustArgs : DynamicCodec.Dynamic → List (Option Int)
  | .seq items => items.map rustInt?
  | v => [rustInt? v]

def pythonInt? : PyValue → Option Int
  | .int n => some n
  | _ => none

def pythonArgs (v : PyValue) : List (Option Int) := (spread v).map pythonInt?

def nodeArgs (v : JsValue) : List (Option Int) := (spreadArgs v).map JsValue.integer?

def browserInt? (v : DynamicCodec.Dynamic) : Option Int := (WasmCodec.dynamic_to_js v).integer?

def browserArgs (v : DynamicCodec.Dynamic) : List (Option Int) := nodeArgs (WasmCodec.dynamic_to_js v)

theorem rust_looks (m : Machine) : Looks (DynamicCodec.inference m) rustInt? m.bits (2 ^ m.bits) where
  sound := rust_sound m
  cut v small := Nat.mod_eq_of_lt small
  size v small := by
    show (UInt64.ofNat v).toNat % 2 ^ m.bits = _
    rw [UInt64.toNat_ofNat_of_lt' small]
  zero := rfl
  inferred data := by
    show rustInt? (DynamicCodec.inferred data) = none
    unfold DynamicCodec.inferred
    split <;> rfl
  number v small := by
    show some (decodeWord (UInt64.ofNat v)).toInt = _
    rw [decodeWord_toInt, UInt64.toNat_ofNat_of_lt' small]

theorem rust_spreads (m : Machine) : Spreads (rust m) (DynamicCodec.inference m) rustInt? rustArgs where
  seq values := rfl
  zero := Nat.le_refl 1
  inferred data := by
    show (rustArgs (DynamicCodec.inferred data)).length ≤ 1
    unfold DynamicCodec.inferred
    split <;> exact Nat.le_refl 1
  number v := Nat.le_refl 1

theorem python_looks (limit : Nat) : Looks PythonCodec.inference pythonInt? 64 limit where
  sound := python_sound limit
  cut v _ := rfl
  size v small := (Nat.mod_eq_of_lt small).symm
  zero := rfl
  inferred data := by
    show pythonInt? (PythonCodec.inferred data) = none
    unfold PythonCodec.inferred
    split <;> rfl
  number v small := by
    show some (PythonCodec.fromZigzag v) = _
    rw [PythonCodec.fromZigzag, Nat.mod_eq_of_lt small, decodeUnbounded_eq]

theorem python_spreads : Spreads python PythonCodec.inference pythonInt? pythonArgs where
  seq values := rfl
  zero := Nat.le_refl 1
  inferred data := by
    show (pythonArgs (PythonCodec.inferred data)).length ≤ 1
    unfold PythonCodec.inferred
    split <;> exact Nat.le_refl 1
  number v := Nat.le_refl 1

theorem safe_integer (n : Int) : (NodeCodec.safe n).integer? = some n := by
  unfold NodeCodec.safe
  split
  · exact Float64.toInt?_ofInt (by omega)
  · rfl

theorem node_looks (limit : Nat) : Looks NodeCodec.inference JsValue.integer? 64 limit where
  sound := node_sound limit
  cut v _ := rfl
  size v small := (Nat.mod_eq_of_lt small).symm
  zero := by
    show Float64.toInt? 0 = some 0
    decide
  inferred data := by
    show (NodeCodec.inferred data).integer? = none
    unfold NodeCodec.inferred
    split <;> rfl
  number v small := by
    have bounds : -2 ^ 63 ≤ unzigzag v ∧ unzigzag v < 2 ^ 63 := unzigzag_bounds small
    have within : (unzigzag v).bmod (2 ^ 64) = unzigzag v := Int.bmod_eq_of_le (by omega) (by omega)
    show (NodeCodec.safe (NodeCodec.fromZigzag v)).integer? = _
    rw [safe_integer, NodeCodec.fromZigzag, decodeUnbounded_eq, within]

theorem safe_single (n : Int) : (nodeArgs (NodeCodec.safe n)).length ≤ 1 := by
  unfold NodeCodec.safe
  split <;> exact Nat.le_refl 1

theorem node_spreads : Spreads NodeCodec.node NodeCodec.inference JsValue.integer? nodeArgs where
  seq values := rfl
  zero := Nat.le_refl 1
  inferred data := by
    show (nodeArgs (NodeCodec.inferred data)).length ≤ 1
    unfold NodeCodec.inferred
    split <;> exact Nat.le_refl 1
  number v := safe_single _

theorem integerToJs_integer (n : Int) : (WasmCodec.integerToJs n).integer? = some n := by
  unfold WasmCodec.integerToJs
  split
  · exact Float64.toInt?_ofInt (by omega)
  · rfl

theorem browser_looks (m : Machine) : Looks (DynamicCodec.inference m) browserInt? m.bits (2 ^ m.bits) where
  sound := rust_sound m
  cut := (rust_looks m).cut
  size := (rust_looks m).size
  zero := integerToJs_integer 0
  inferred data := by
    show browserInt? (DynamicCodec.inferred data) = none
    unfold DynamicCodec.inferred
    split <;> rfl
  number v small := by
    show (WasmCodec.integerToJs (decodeWord (UInt64.ofNat v)).toInt).integer? = _
    rw [integerToJs_integer, decodeWord_toInt, UInt64.toNat_ofNat_of_lt' small]

theorem itemsToJs_eq (items : List DynamicCodec.Dynamic) :
    WasmCodec.itemsToJs items = items.map WasmCodec.dynamic_to_js := by
  induction items with
  | nil => rfl
  | cons item items ih => rw [WasmCodec.itemsToJs, ih, List.map_cons]

theorem browser_spreads (m : Machine) : Spreads (rust m) (DynamicCodec.inference m) browserInt? browserArgs where
  seq values := by
    show (WasmCodec.itemsToJs values).map JsValue.integer? = _
    rw [itemsToJs_eq, List.map_map]
    rfl
  zero := by
    show (nodeArgs (WasmCodec.integerToJs 0)).length ≤ 1
    exact Nat.le_refl 1
  inferred data := by
    show (browserArgs (DynamicCodec.inferred data)).length ≤ 1
    unfold DynamicCodec.inferred
    split <;> exact Nat.le_refl 1
  number v := by
    show (nodeArgs (WasmCodec.integerToJs (decodeWord (UInt64.ofNat v)).toInt)).length ≤ 1
    unfold WasmCodec.integerToJs
    split <;> exact Nat.le_refl 1

/-- Values that stand for the arguments are the arguments, where each integer is one value only. -/
theorem meant_iff {β : Type} {look : β → Option Int} {make : Int64 → β} (only : ∀ v n, look v = some n.toInt ↔ v = make n)
    {values : List β} {ints : List Int64} : values.map look = meant ints ↔ values = ints.map make := by
  induction ints generalizing values with
  | nil => exact List.map_eq_nil_iff
  | cons n later ih =>
    cases values with
    | nil => exact iff_of_false (fun same => by cases same) (fun same => by cases same)
    | cons value values =>
      show look value :: values.map look = some n.toInt :: meant later ↔ value :: values = make n :: later.map make
      rw [List.cons_eq_cons, List.cons_eq_cons, only, ih]

theorem rustInt_only (v : DynamicCodec.Dynamic) (n : Int64) : rustInt? v = some n.toInt ↔ v = .int n := by
  constructor
  · intro same
    cases v with
    | int other => rw [Int64.toInt_inj.1 (Option.some.inj same)]
    | _ => cases same
  · intro same
    rw [same]
    rfl

theorem pythonInt_only (v : PyValue) (n : Int64) : pythonInt? v = some n.toInt ↔ v = .int n.toInt := by
  constructor
  · intro same
    cases v with
    | int other => rw [Option.some.inj same]
    | _ => cases same
  · intro same
    rw [same]
    rfl

theorem rustArgs_iff {v : DynamicCodec.Dynamic} {ints : List Int64} (several : 2 ≤ ints.length) :
    rustArgs v = meant ints ↔ v = .seq (ints.map .int) := by
  have single : ∀ v : DynamicCodec.Dynamic, [rustInt? v] ≠ meant ints := by
    intro v same
    have lengths := congrArg List.length same
    rw [List.length_singleton, meant, List.length_map] at lengths
    omega
  cases v with
  | seq items =>
    show items.map rustInt? = meant ints ↔ _
    rw [meant_iff rustInt_only, Dynamic.seq.injEq]
  | _ => exact iff_of_false (single _) (fun same => by cases same)

/-- Several integers passed as arguments reach a handler as they are just when none of
them but zero can be the length of what follows, by the width of the handler's machine. -/
theorem arguments_iff (ints : List Int64) (several : 2 ≤ ints.length) :
    (∀ m : Machine, (payload ints).length < 2 ^ m.bits →
      (decodeWith m (payload ints) .auto = .ok (.seq (ints.map .int)) ↔ Clear m.bits ints)) ∧
    ((∃ decoded, NodeCodec.decodePayload (payload ints) .auto = .ok decoded ∧
      (spreadArgs decoded).map JsValue.integer? = meant ints) ↔ Clear 64 ints) ∧
    ((∃ decoded, decode_payload (payload ints) .auto = .ok decoded ∧
      spread decoded = ints.map (fun n => .int n.toInt)) ↔ Clear 64 ints) ∧
    ((payload ints).length < 2 ^ 32 →
      ((∃ decoded, WasmCodec.decode_payload (payload ints) .auto = .ok decoded ∧
        (spreadArgs decoded).map JsValue.integer? = meant ints) ↔ Clear 32 ints)) := by
  refine ⟨fun m slice => ?_, ?_, ?_, fun slice => ?_⟩
  · rw [← received_iff readField_eq (rust_looks m) (rust_spreads m) several slice]
    constructor
    · exact fun decoded => ⟨_, decoded, (rustArgs_iff several).2 rfl⟩
    · rintro ⟨decoded, came, same⟩
      rw [(rustArgs_iff several).1 same] at came
      exact came
  · exact received_iff rfl (node_looks _) node_spreads several (Nat.lt_succ_self _)
  · rw [← received_iff (d := python) rfl (python_looks _) python_spreads several (Nat.lt_succ_self _)]
    exact exists_congr fun decoded => and_congr_right fun _ => (meant_iff pythonInt_only).symm
  · have inner := received_iff readField_eq (browser_looks (.narrow false)) (browser_spreads (.narrow false)) several slice
    apply Iff.trans _ inner
    constructor
    · rintro ⟨decoded, came, same⟩
      obtain ⟨v, decoded, made⟩ := Outcome.bind_ok.1 came
      cases made
      exact ⟨v, decoded, same⟩
    · rintro ⟨v, decoded, same⟩
      exact ⟨_, Outcome.bind_ok.2 ⟨v, decoded, rfl⟩, same⟩

/-- A pair of ten and twenty. -/
theorem arguments_pair : decodeWith (.wide true) (payload [10, 20]) .auto = .ok (.seq [.int 10, .int 20]) := by
  have several : 2 ≤ ([10, 20] : List Int64).length := Nat.le_refl 2
  have short : (payload [10, 20]).length < 2 ^ 64 := by decide +kernel
  apply ((arguments_iff [10, 20] several).1 (.wide true) short).2
  have first : (payload [20]).length < zigzag (10 : Int64).toInt % 2 ^ 64 := by decide +kernel
  have second : (payload []).length < zigzag (20 : Int64).toInt % 2 ^ 64 := by decide +kernel
  exact ⟨Or.inr first, Or.inr second, trivial⟩

/-- One is taken for the length of the other two. -/
theorem arguments_mistaken : decodeWith (.wide true) (payload [1, 2, 3]) .auto = .ok (.str "\x04\x06") := by
  have written : payload [1, 2, 3] = [2, 4, 6] := by decide +kernel
  have text : Utf8.decode? [4, 6] = some "\x04\x06" := Utf8.decode?_eq_some.2 (by decide +kernel)
  have guessed : DynamicCodec.inferred [4, 6] = Dynamic.str "\x04\x06" := by rw [DynamicCodec.inferred, text]
  rw [written, ← guessed]
  rfl

end EchoStream.Bindings.Arguments
