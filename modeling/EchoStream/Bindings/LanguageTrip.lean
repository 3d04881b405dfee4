import EchoStream.Bindings.Arguments
import EchoStream.Bindings.EncodeValues
import EchoStream.Bindings.PythonNode

/-! A value from one language to another. It may be written in Rust, in Node, in the browser
or in Python, and read in any of the four by a schema that describes it. A struct has its
fields in the order in which an object of JavaScript lists them, which is the order in which
Node and the browser write them. -/

namespace EchoStream.Bindings.LanguageTrip
open Foundation Foundation.Reading Foundation.Writing Foundation.Zigzag
open Proto Proto.Messages Proto.Payload Proto.DynamicCodec JsValues Values EncodeValues

/-! Readers of what was put in front. -/

section Takes

variable {α β : Type} {front back : Bytes}

/-- The reader takes the bytes off the front, whatever follows, and stops behind them. -/
def Takes (read : Read Reader α) (bytes : Bytes) (value : α) : Prop :=
  ∀ pos rest, pos + bytes.length < 2 ^ 32 →
    read ⟨pos, bytes ++ rest⟩ = .ok (value, ⟨pos + bytes.length, rest⟩)

theorem Takes.give (value : α) : Takes (pure value) [] value := fun _ _ _ => rfl

theorem Takes.map {read : Read Reader α} {value : α} (takes : Takes read front value) (f : α → β) :
    Takes (f <$> read) front (f value) :=
  fun pos rest fits => Read.map_ok.2 ⟨value, takes pos rest fits, rfl⟩

theorem Takes.bind {first : Read Reader α} {next : α → Read Reader β} {one : α} {two : β} (takes : Takes first front one)
    (later : Takes (next one) back two) : Takes (first >>= next) (front ++ back) two := by
  intro pos rest fits
  rw [List.length_append] at fits ⊢
  rw [List.append_assoc, Read.bind_of_ok (takes pos (back ++ rest) (by omega)), later _ rest (by omega), Nat.add_assoc]

theorem Takes.decode {d : Dialect α} {schema : Schema} {value : α} (read : schema ≠ .auto)
    (takes : Takes (d.value schema d.inside) front value) (fits : front.length < 2 ^ 32) :
    d.decode front schema = .ok value := by
  have alone := takes 0 [] (by omega)
  rw [List.append_nil] at alone
  refine Dialect.decode_ok.2 ⟨⟨0 + front.length, []⟩, ?_, rfl⟩
  cases schema with
  | auto => exact absurd rfl read
  | _ => exact alone

end Takes

/-! Values that are described. -/

inductive DescribedLeaf : Primitive → Value → Prop where
  | number (n : Int) : n.natAbs ≤ 2 ^ 53 - 1 → DescribedLeaf .number (.int n)
  | bigint (n : Int) : n.natAbs ≤ 2 ^ 53 - 1 → DescribedLeaf .bigint (.int n)
  | bool (b : Bool) : DescribedLeaf .bool (.bool b)
  | str (text : String) : (Utf8.encode text).length < 2 ^ 32 → DescribedLeaf .str (.str text)
  | bytes (data : Bytes) : data.length < 2 ^ 32 → DescribedLeaf .bytes (.bytes data)
  | f64 (bits : Float64.Bits) : ofFloat bits = .float bits → DescribedLeaf .f64 (.float bits)

mutual

/-- The schema says of every part of the value what it is. Integers are safe in JavaScript,
a float is no integer, and fields are listed as in JavaScript. -/
def Described : Schema → Value → Prop
  | .prim kind, v => DescribedLeaf kind v
  | .seq schemas, .seq items => DescribedEach schemas items
  | .map schemas, .map fields => Listed (fields.map Prod.fst) ∧ DescribedFields schemas fields
  | _, _ => False

def DescribedEach : List Schema → List Value → Prop
  | [], [] => True
  | schema :: schemas, item :: items => Described schema item ∧ DescribedEach schemas items
  | _, _ => False

def DescribedFields : List (String × Schema) → List (String × Value) → Prop
  | [], [] => True
  | (name, schema) :: schemas, (key, item) :: fields =>
      name = key ∧ Described schema item ∧ DescribedFields schemas fields
  | _, _ => False

end

mutual

def toRust : Value → DynamicCodec.Dynamic
  | .null => .null
  | .bool b => .bool b
  | .int n => .int (Int64.ofInt n)
  | .float bits => .float bits
  | .str text => .str text
  | .bytes data => .bytes data
  | .seq items => .seq (toRustItems items)
  | .map fields => .map (toRustFields fields)

def toRustItems : List Value → List DynamicCodec.Dynamic
  | [] => []
  | item :: items => toRust item :: toRustItems items

def toRustFields : List (String × Value) → List (String × DynamicCodec.Dynamic)
  | [] => []
  | (name, item) :: fields => (name, toRust item) :: toRustFields fields

end

def native (v : Value) : Outcome Bytes := DynamicCodec.encode (toRust v)

mutual

def names : Value → List String
  | .seq items => namesOfItems items
  | .map fields => namesOfFields fields
  | _ => []

def namesOfItems : List Value → List String
  | [] => []
  | item :: items => names item ++ namesOfItems items

def namesOfFields : List (String × Value) → List String
  | [] => []
  | (name, item) :: fields => name :: names item ++ namesOfFields fields

end

def PortableLeaf : Value → Prop
  | .float bits => Float64.isFinite bits = true
  | .str text => Utf8.mark.isPrefixOf (Utf8.encode text) = false
  | _ => True

/-- Floats are finite, no text begins with a byte order mark, and no field has the name of
the prototype. -/
def Portable (v : Value) : Prop := (∀ leaf ∈ leaves v, PortableLeaf leaf) ∧ "__proto__" ∉ names v

/-! What a reader makes of a value: it may change texts and drop fields. -/

section Heard

variable (text : String → String) (keeps : String → Bool)

mutual

def heard : Value → Value
  | .str t => .str (text t)
  | .seq items => .seq (heardItems items)
  | .map fields => .map (heardFields fields)
  | v => v

def heardItems : List Value → List Value
  | [] => []
  | item :: items => heard item :: heardItems items

def heardFields : List (String × Value) → List (String × Value)
  | [] => []
  | (name, item) :: fields => if keeps name then (name, heard item) :: heardFields fields else heardFields fields

end

/-- A dialect reads each leaf that is described, and puts together what it read. -/
structure Hears {α : Type} (d : Dialect α) (view : α → Value) : Prop where
  prim : ∀ {kind leaf bytes}, DescribedLeaf kind leaf → python leaf = .ok bytes →
    ∃ x, Takes (d.prim kind) bytes x ∧ view x = heard text keeps leaf
  seq : ∀ xs, view (d.seq xs) = .seq (xs.map view)
  record : ∀ items, ∃ x, (∀ r, d.record items r = .ok (x, r)) ∧
    view x = .map ((items.map (Dialect.named view)).filter (fun item => keeps item.1))

end Heard

theorem python_seq (items : List Value) : python (.seq items) = joined python items := by
  show PythonCodec.Writer.values (toPythonItems items) = _
  rw [PythonCodec.Writer.values_eq, toPythonItems_eq, joined_map]
  rfl

theorem python_map (fields : List (String × Value)) : python (.map fields) = joined python (fields.map Prod.snd) := by
  show PythonCodec.Writer.fieldValues (toPythonFields fields) = _
  rw [PythonCodec.Writer.fieldValues_eq, python_fields, joined_map]
  rfl

section Hearing

variable {α : Type} {d : Dialect α} {view : α → Value} {text : String → String} {keeps : String → Bool}

theorem values_heard {schemas : List Schema}
    (each : ∀ schema ∈ schemas, ∀ v bytes, Described schema v → python v = .ok bytes → ∀ nested,
      ∃ x, Takes (d.value schema nested) bytes x ∧ view x = heard text keeps v)
    {items : List Value} (described : DescribedEach schemas items) {bytes : Bytes} (wrote : joined python items = .ok bytes)
    (nested : Read Reader α) :
    ∃ xs, Takes (d.values schemas nested) bytes xs ∧ xs.map view = heardItems text keeps items := by
  induction schemas generalizing items bytes with
  | nil =>
    cases items with
    | nil =>
      cases wrote
      exact ⟨[], .give [], rfl⟩
    | cons item items => exact False.elim described
  | cons schema schemas ih =>
    cases items with
    | nil => exact False.elim described
    | cons item items =>
      obtain ⟨front, back, first, others, rfl⟩ := both_ok.1 wrote
      obtain ⟨x, here, seen⟩ := each schema List.mem_cons_self item front described.1 first nested
      obtain ⟨xs, there, also⟩ := ih (fun other member => each other (List.mem_cons_of_mem _ member)) described.2 others
      have whole : Takes (d.values (schema :: schemas) nested) (front ++ back) (x :: xs) := here.bind (there.map (x :: ·))
      exact ⟨x :: xs, whole, by rw [List.map_cons, seen, also, heardItems]⟩

theorem fields_heard {schemas : List (String × Schema)}
    (each : ∀ field ∈ schemas, ∀ v bytes, Described field.2 v → python v = .ok bytes → ∀ nested,
      ∃ x, Takes (d.value field.2 nested) bytes x ∧ view x = heard text keeps v)
    {items : List (String × Value)} (described : DescribedFields schemas items) {bytes : Bytes}
    (wrote : joined python (items.map Prod.snd) = .ok bytes) (nested : Read Reader α) :
    ∃ xs, Takes (d.fields schemas nested) bytes xs ∧
      (xs.map (Dialect.named view)).filter (fun item => keeps item.1) = heardFields text keeps items := by
  induction schemas generalizing items bytes with
  | nil =>
    cases items with
    | nil =>
      cases wrote
      exact ⟨[], .give [], rfl⟩
    | cons item items => exact False.elim described
  | cons field schemas ih =>
    cases items with
    | nil => exact False.elim described
    | cons item items =>
      obtain ⟨name, schema⟩ := field
      obtain ⟨key, item⟩ := item
      obtain ⟨rfl, described, rest⟩ := described
      obtain ⟨front, back, first, others, rfl⟩ := both_ok.1 wrote
      obtain ⟨x, here, seen⟩ := each (name, schema) List.mem_cons_self item front described first nested
      obtain ⟨xs, there, also⟩ := ih (fun other member => each other (List.mem_cons_of_mem _ member)) rest others
      have whole : Takes (d.fields ((name, schema) :: schemas) nested) (front ++ back) ((name, x) :: xs) :=
        (here.map (fun value => (name, value))).bind (there.map ((name, x) :: ·))
      refine ⟨(name, x) :: xs, whole, ?_⟩
      rw [List.map_cons, List.filter_cons, heardFields, ← also, ← seen]
      rfl

/-- By induction on the schema: what was written by a described value is read as what the
dialect makes of it. -/
theorem Hears.value (hears : Hears text keeps d view) (schema : Schema) :
    ∀ v bytes, Described schema v → python v = .ok bytes → ∀ nested,
      ∃ x, Takes (d.value schema nested) bytes x ∧ view x = heard text keeps v := by
  induction schema using Schema.induct with
  | auto => exact fun v bytes described => False.elim (by cases v <;> exact described)
  | prim kind => exact fun v bytes described wrote nested => hears.prim described wrote
  | list item ih => exact fun v bytes described => False.elim (by cases v <;> exact described)
  | seq schemas ih =>
    intro v bytes described wrote nested
    cases v with
    | seq items =>
      rw [python_seq] at wrote
      obtain ⟨xs, takes, seen⟩ := values_heard ih described wrote nested
      exact ⟨d.seq xs, takes.map d.seq, by rw [hears.seq, seen, heard]⟩
    | _ => exact False.elim described
  | map schemas ih =>
    intro v bytes described wrote nested
    cases v with
    | map items =>
      rw [python_map] at wrote
      obtain ⟨xs, takes, seen⟩ := fields_heard ih described.2 wrote nested
      obtain ⟨x, built, made⟩ := hears.record xs
      have whole : Takes (d.value (.map schemas) nested) (bytes ++ []) x := takes.bind (fun pos rest _ => built _)
      rw [List.append_nil] at whole
      exact ⟨x, whole, by rw [made, seen, heard]⟩
    | _ => exact False.elim described

end Hearing

/-! The readers. -/

theorem safe_groups {n : Int} (safe : n.natAbs ≤ 2 ^ 53 - 1) {bytes : Bytes} (wrote : python (.int n) = .ok bytes) :
    bytes = writeVarint (zigzag n) ∧ zigzag n < 2 ^ 54 ∧ (Int64.ofInt n).toInt = n := by
  have groups := (integer_written safe).1
  rw [encodeMasked_eq (by omega) (by omega)] at groups
  refine ⟨Outcome.ok.inj (wrote.symm.trans groups), ?_, Int64.toInt_ofInt_of_le (by omega) (by omega)⟩
  unfold zigzag
  split <;> omega

theorem rust_takes {m : Machine} (wide : 32 ≤ m.bits) {kind : Primitive} {leaf : Value} {bytes : Bytes}
    (described : DescribedLeaf kind leaf) (wrote : python leaf = .ok bytes) :
    Takes ((rust m).prim kind) bytes (toRust leaf) := by
  have power : 2 ^ 32 ≤ 2 ^ m.bits := Nat.pow_le_pow_right (by decide) wide
  have integer : ∀ {n : Int}, n.natAbs ≤ 2 ^ 53 - 1 → python (.int n) = .ok bytes →
      DynamicCodec.Writer.value (.int (Int64.ofInt n)) = bytes := by
    intro n safe wrote
    obtain ⟨groups, -, -⟩ := safe_groups safe wrote
    rw [groups, Encoders.int_eq (by omega) (by omega), encodeMasked_eq (by omega) (by omega)]
  have counted : ∀ {data : Bytes}, data.length < 2 ^ 32 → DynamicCodec.Writer.prefixed data = PythonCodec.Writer.prefixed data :=
    fun short => Encoders.prefixed_eq (Nat.lt_trans short (by decide))
  have shaped : HasShape m (.prim kind) (toRust leaf) ∧ writeAs (.prim kind) (toRust leaf) = bytes := by
    cases described with
    | number n safe => exact ⟨trivial, integer safe wrote⟩
    | bigint n safe => exact ⟨trivial, integer safe wrote⟩
    | bool b => exact ⟨trivial, Outcome.ok.inj wrote⟩
    | str text short => exact ⟨trivial, (counted short).trans (Outcome.ok.inj wrote)⟩
    | bytes data short => exact ⟨trivial, (counted short).trans (Outcome.ok.inj wrote)⟩
    | f64 bits normal => exact ⟨trivial, Outcome.ok.inj wrote⟩
  obtain ⟨shape, rfl⟩ := shaped
  exact fun pos rest fits => prim_back shape (rust m).auto pos rest (Nat.lt_of_lt_of_le fits power)

theorem rust_hears {m : Machine} (wide : 32 ≤ m.bits) : Hears id (fun _ => true) (rust m) ofRust where
  prim := by
    intro kind leaf bytes described wrote
    refine ⟨toRust leaf, rust_takes wide described wrote, ?_⟩
    cases described with
    | number n safe => exact congrArg Value.int (safe_groups safe wrote).2.2
    | bigint n safe => exact congrArg Value.int (safe_groups safe wrote).2.2
    | bool b => rfl
    | str text short => rfl
    | bytes data short => rfl
    | f64 bits normal => exact normal
  seq xs := by
    show Value.seq (ofRustItems xs) = _
    rw [ofRustItems_eq]
  record items := by
    refine ⟨.map items, fun _ => rfl, ?_⟩
    show Value.map (ofRustFields items) = _
    rw [ofRustFields_eq, List.filter_true]

def own (name : String) : Bool := name != "__proto__"

/-- What the browser has of a dynamic value. -/
def inBrowser (d : DynamicCodec.Dynamic) : Value := ofNode (WasmCodec.dynamic_to_js d)

theorem ofNode_integer (n : Int) : ofNode (WasmCodec.integerToJs n) = .int n := by
  unfold WasmCodec.integerToJs
  split
  · rename_i small
    show ofFloat _ = _
    rw [ofFloat, Float64.toInt?_ofInt small]
  · rfl

theorem inBrowser_fields (items : List (String × DynamicCodec.Dynamic)) :
    ofNodeFields (WasmCodec.fieldsToJs items) =
      (items.map (Dialect.named inBrowser)).filter (fun item => own item.1) := by
  induction items with
  | nil => rfl
  | cons item items ih =>
    obtain ⟨name, item⟩ := item
    rw [WasmCodec.fieldsToJs, List.map_cons, List.filter_cons]
    by_cases prototype : name = "__proto__"
    · have dropped : own name = false := bne_eq_false_iff_eq.2 prototype
      rw [if_pos prototype, ih]
      exact (if_neg (by rw [Dialect.named, dropped]; exact Bool.false_ne_true)).symm
    · have there : own name = true := bne_iff_ne.2 prototype
      rw [if_neg prototype, ofNodeFields, ih]
      exact (if_pos there).symm

theorem browser_hears : Hears id own (rust (.narrow false)) inBrowser where
  prim := by
    intro kind leaf bytes described wrote
    refine ⟨toRust leaf, rust_takes (Nat.le_refl 32) described wrote, ?_⟩
    have integer : ∀ {n : Int}, n.natAbs ≤ 2 ^ 53 - 1 → python (.int n) = .ok bytes →
        inBrowser (.int (Int64.ofInt n)) = .int n := by
      intro n safe wrote
      show ofNode (WasmCodec.integerToJs (Int64.ofInt n).toInt) = _
      rw [(safe_groups safe wrote).2.2, ofNode_integer]
    cases described with
    | number n safe => exact integer safe wrote
    | bigint n safe => exact integer safe wrote
    | bool b => rfl
    | str text short => rfl
    | bytes data short => rfl
    | f64 bits normal => exact normal
  seq xs := by
    show Value.seq (ofNodeItems (WasmCodec.itemsToJs xs)) = _
    rw [ofNodeItems_eq, Arguments.itemsToJs_eq, List.map_map]
    rfl
  record items := by
    refine ⟨.map items, fun _ => rfl, ?_⟩
    show Value.map (ofNodeFields (WasmCodec.fieldsToJs items)) = _
    rw [inBrowser_fields]

/-! Readers whose integers have no bounds. -/

theorem takes_varint {n : Nat} (small : n < 2 ^ 64) : Takes (varint id) (writeVarint n) n := by
  intro pos rest fits
  rw [writeVarint_eq (Nat.lt_trans small (by decide))]
  exact varint_some Cut.whole (number_put (Nat.lt_trans small (by decide)) pos rest)

theorem takes_data {plus : Nat → Nat → Option Nat} (sums : ∀ a b, plus a b = some (a + b)) (data : Bytes) :
    Takes (take plus data.length) data data := by
  intro pos rest fits
  have inside : ¬ (Reader.mk pos (data ++ rest)).remaining < data.length := by
    show ¬ (data ++ rest).length < data.length
    rw [List.length_append]
    omega
  rw [take_plain (sums _ _), if_neg inside, List.take_left, List.drop_left]

theorem takes_counted {plus : Nat → Nat → Option Nat} (sums : ∀ a b, plus a b = some (a + b)) {data : Bytes}
    (short : data.length < 2 ^ 32) :
    Takes (varint id >>= take plus) (PythonCodec.Writer.prefixed data) data :=
  (takes_varint (Nat.lt_trans short (by decide))).bind (takes_data sums data)

theorem takes_double {α : Type} {plus : Nat → Nat → Option Nat} (sums : ∀ a b, plus a b = some (a + b))
    (bits : Float64.Bits) (made : Float64.Bits → α) :
    Takes ((fun data => made (Float64.ofBytes data)) <$> take plus 8) (Float64.toBytes bits) (made bits) := by
  have taken := takes_data sums (Float64.toBytes bits)
  rw [Float64.toBytes_length] at taken
  have read := taken.map (fun data => made (Float64.ofBytes data))
  rw [Float64.ofBytes_toBytes] at read
  exact read

theorem python_hears : Hears id (fun _ => true) PythonCodec.python ofPython where
  prim := by
    intro kind leaf bytes described wrote
    have integer : ∀ {n : Int}, n.natAbs ≤ 2 ^ 53 - 1 → python (.int n) = .ok bytes →
        Takes ((fun v => PythonCodec.PyValue.int (PythonCodec.fromZigzag v)) <$> varint id) bytes (.int n) := by
      intro n safe wrote
      obtain ⟨rfl, small, -⟩ := safe_groups safe wrote
      have back : PythonCodec.fromZigzag (zigzag n) = n := by
        rw [PythonCodec.fromZigzag, Nat.mod_eq_of_lt (Nat.lt_trans small (by decide)), decodeUnbounded_eq, unzigzag_zigzag]
      have read := (takes_varint (Nat.lt_trans small (by decide))).map (fun v => PythonCodec.PyValue.int (PythonCodec.fromZigzag v))
      rw [back] at read
      exact read
    cases described with
    | number n safe => exact ⟨_, integer safe wrote, rfl⟩
    | bigint n safe => exact ⟨_, integer safe wrote, rfl⟩
    | bool b =>
      cases wrote
      refine ⟨.bool b, fun pos rest _ => ?_, rfl⟩
      cases b <;> rfl
    | str text short =>
      cases wrote
      have decoded : Takes (PythonCodec.readText (Utf8.encode text)) [] (.str text) := by
        rw [PythonCodec.readText, Utf8.decode?_encode]
        exact .give _
      have read := (takes_counted (fun _ _ => rfl) short).bind decoded
      rw [List.append_nil] at read
      exact ⟨.str text, read, rfl⟩
    | bytes data short =>
      cases wrote
      exact ⟨.bytes data, (takes_counted (fun _ _ => rfl) short).map PythonCodec.PyValue.bytes, rfl⟩
    | f64 bits normal =>
      cases wrote
      exact ⟨.float bits, takes_double (fun _ _ => rfl) bits PythonCodec.PyValue.float, normal⟩
  seq xs := by
    show Value.seq (ofPythonItems xs) = _
    rw [ofPythonItems_eq]
  record items := by
    refine ⟨.dict items, fun _ => rfl, ?_⟩
    show Value.map (ofPythonFields items) = _
    rw [ofPythonFields_eq, List.filter_true]

/-- A text as Node decodes it, without a mark in front. -/
def shown (text : String) : String := Utf8.lenient (Utf8.unmarked (Utf8.encode text))

theorem shown_iff (text : String) : shown text = text ↔ Utf8.mark.isPrefixOf (Utf8.encode text) = false := by
  cases marked : Utf8.mark.isPrefixOf (Utf8.encode text) with
  | false =>
    refine iff_of_true ?_ rfl
    rw [shown, Utf8.unmarked_of_not marked, Utf8.lenient, Utf8.decode?_encode]
  | true =>
    refine iff_of_false ?_ (fun same => Bool.noConfusion same)
    have parts := Utf8.decode?_unmarked marked
    rw [Utf8.decode?_encode] at parts
    obtain ⟨other, decoded, whole⟩ := Option.map_eq_some_iff.1 parts.symm
    rw [shown, Utf8.lenient, decoded, ← whole]
    exact fun same => Utf8.mark_append_ne other same.symm

theorem node_hears : Hears shown own NodeCodec.node ofNode where
  prim := by
    intro kind leaf bytes described wrote
    have integer : ∀ {n : Int} (made : Int → JsValue), ofNode (made n) = .int n → n.natAbs ≤ 2 ^ 53 - 1 →
        python (.int n) = .ok bytes → Takes ((fun v => made (NodeCodec.fromZigzag v)) <$> varint id) bytes (made n) := by
      intro n made _ safe wrote
      obtain ⟨rfl, small, -⟩ := safe_groups safe wrote
      have back : NodeCodec.fromZigzag (zigzag n) = n := by
        rw [NodeCodec.fromZigzag, decodeUnbounded_eq, unzigzag_zigzag]
        exact Int.bmod_eq_of_le (by omega) (by omega)
      have read := (takes_varint (Nat.lt_trans small (by decide))).map (fun v => made (NodeCodec.fromZigzag v))
      rw [back] at read
      exact read
    cases described with
    | number n safe => exact ⟨_, integer NodeCodec.safe (ofNode_safe n) safe wrote, ofNode_safe n⟩
    | bigint n safe => exact ⟨_, integer JsValue.bigint rfl safe wrote, rfl⟩
    | bool b =>
      cases wrote
      refine ⟨.bool b, fun pos rest _ => ?_, rfl⟩
      cases b <;> rfl
    | str text short =>
      cases wrote
      exact ⟨.string (shown text), (takes_counted (fun _ _ => rfl) short).map
        (fun data => JsValue.string (Utf8.lenient (Utf8.unmarked data))), rfl⟩
    | bytes data short =>
      cases wrote
      exact ⟨.bytes data, (takes_counted (fun _ _ => rfl) short).map JsValue.bytes, rfl⟩
    | f64 bits normal =>
      cases wrote
      exact ⟨.number bits, takes_double (fun _ _ => rfl) bits JsValue.number, normal⟩
  seq xs := by
    show Value.seq (ofNodeItems xs) = _
    rw [ofNodeItems_eq]
  record items := by
    refine ⟨NodeCodec.record items, fun _ => rfl, ?_⟩
    rw [PythonNode.ofNode_record]
    rfl

/-! What is heard as it was said. -/

section Heard

variable {text : String → String} {keeps : String → Bool}

/-- The reader leaves the leaf as it is. -/
def HeardLeaf (text : String → String) : Value → Prop
  | .str t => text t = t
  | _ => True

theorem heardItems_iff {items : List Value}
    (each : ∀ item ∈ items, (heard text keeps item = item ↔
      (∀ leaf ∈ leaves item, HeardLeaf text leaf) ∧ ∀ name ∈ names item, keeps name = true)) :
    heardItems text keeps items = items ↔
      (∀ leaf ∈ EncodeValues.leavesOfItems items, HeardLeaf text leaf) ∧ ∀ name ∈ namesOfItems items, keeps name = true := by
  induction items with
  | nil => exact iff_of_true rfl ⟨fun _ member => absurd member List.not_mem_nil, fun _ member => absurd member List.not_mem_nil⟩
  | cons item items ih =>
    have first := each item List.mem_cons_self
    have others := ih (fun other member => each other (List.mem_cons_of_mem _ member))
    rw [heardItems, EncodeValues.leavesOfItems, namesOfItems, List.forall_mem_append, List.forall_mem_append,
      List.cons_eq_cons, first, others]
    exact and_and_and_comm

theorem heardFields_length (fields : List (String × Value)) : (heardFields text keeps fields).length ≤ fields.length := by
  induction fields with
  | nil => exact Nat.le_refl 0
  | cons field fields ih =>
    obtain ⟨name, item⟩ := field
    rw [heardFields, List.length_cons]
    split
    · rw [List.length_cons]
      omega
    · omega

theorem heardFields_iff {fields : List (String × Value)}
    (each : ∀ item ∈ fields.map Prod.snd, (heard text keeps item = item ↔
      (∀ leaf ∈ leaves item, HeardLeaf text leaf) ∧ ∀ name ∈ names item, keeps name = true)) :
    heardFields text keeps fields = fields ↔
      (∀ leaf ∈ EncodeValues.leavesOfFields fields, HeardLeaf text leaf) ∧ ∀ name ∈ namesOfFields fields, keeps name = true := by
  induction fields with
  | nil => exact iff_of_true rfl ⟨fun _ member => absurd member List.not_mem_nil, fun _ member => absurd member List.not_mem_nil⟩
  | cons field fields ih =>
    obtain ⟨name, item⟩ := field
    have first := each item List.mem_cons_self
    have others := ih (fun other member => each other (List.mem_cons_of_mem _ member))
    rw [heardFields, EncodeValues.leavesOfFields, namesOfFields, List.forall_mem_append, List.cons_append, List.forall_mem_cons,
      List.forall_mem_append]
    by_cases kept : keeps name = true
    · rw [if_pos kept, List.cons_eq_cons, Prod.mk.injEq, first, others]
      constructor
      · rintro ⟨⟨-, here⟩, there⟩
        exact ⟨⟨here.1, there.1⟩, kept, here.2, there.2⟩
      · rintro ⟨parts, -, here, there⟩
        exact ⟨⟨rfl, parts.1, here⟩, parts.2, there⟩
    · rw [if_neg kept]
      refine iff_of_false ?_ (fun all => kept all.2.1)
      intro same
      have fewer : (heardFields text keeps fields).length ≤ fields.length := heardFields_length fields
      rw [same, List.length_cons] at fewer
      omega

theorem heard_iff (v : Value) : heard text keeps v = v ↔
    (∀ leaf ∈ leaves v, HeardLeaf text leaf) ∧ ∀ name ∈ names v, keeps name = true := by
  induction v using value_induct with
  | leaf v whole =>
    cases v with
    | str t =>
      have single : leaves (.str t) = [.str t] := rfl
      rw [single, heard, List.forall_mem_singleton, HeardLeaf]
      exact ⟨fun same => ⟨Value.str.inj same, fun _ member => absurd member List.not_mem_nil⟩,
        fun kept => congrArg Value.str kept.1⟩
    | seq items => cases whole
    | map fields => cases whole
    | _ => exact iff_of_true rfl ⟨List.forall_mem_singleton.2 trivial, fun _ member => absurd member List.not_mem_nil⟩
  | seq items ih =>
    rw [heard, leaves, names, ← heardItems_iff ih]
    exact ⟨fun same => Value.seq.inj same, fun same => congrArg Value.seq same⟩
  | map fields ih =>
    rw [heard, leaves, names, ← heardFields_iff ih]
    exact ⟨fun same => Value.map.inj same, fun same => congrArg Value.map same⟩

end Heard

/-! The writers. -/

theorem describedEach_leaves {schemas : List Schema}
    (each : ∀ schema ∈ schemas, ∀ v, Described schema v → ∀ leaf ∈ leaves v, ∃ kind, DescribedLeaf kind leaf)
    {items : List Value} (described : DescribedEach schemas items) :
    ∀ leaf ∈ EncodeValues.leavesOfItems items, ∃ kind, DescribedLeaf kind leaf := by
  induction schemas generalizing items with
  | nil =>
    cases items with
    | nil => exact fun _ member => absurd member List.not_mem_nil
    | cons item items => exact False.elim described
  | cons schema schemas ih =>
    cases items with
    | nil => exact False.elim described
    | cons item items =>
      exact List.forall_mem_append.2 ⟨each schema List.mem_cons_self item described.1,
        ih (fun other member => each other (List.mem_cons_of_mem _ member)) described.2⟩

theorem describedFields_leaves {schemas : List (String × Schema)}
    (each : ∀ field ∈ schemas, ∀ v, Described field.2 v → ∀ leaf ∈ leaves v, ∃ kind, DescribedLeaf kind leaf)
    {items : List (String × Value)} (described : DescribedFields schemas items) :
    ∀ leaf ∈ EncodeValues.leavesOfFields items, ∃ kind, DescribedLeaf kind leaf := by
  induction schemas generalizing items with
  | nil =>
    cases items with
    | nil => exact fun _ member => absurd member List.not_mem_nil
    | cons item items => exact False.elim described
  | cons field schemas ih =>
    cases items with
    | nil => exact False.elim described
    | cons item items =>
      exact List.forall_mem_append.2 ⟨each field List.mem_cons_self item.2 described.2.1,
        ih (fun other member => each other (List.mem_cons_of_mem _ member)) described.2.2⟩

theorem described_leaves (schema : Schema) :
    ∀ v, Described schema v → ∀ leaf ∈ leaves v, ∃ kind, DescribedLeaf kind leaf := by
  induction schema using Schema.induct with
  | auto => exact fun v described => False.elim (by cases v <;> exact described)
  | list item ih => exact fun v described => False.elim (by cases v <;> exact described)
  | prim kind =>
    intro v described
    cases v with
    | seq items => cases described
    | map fields => cases described
    | _ => exact List.forall_mem_singleton.2 ⟨kind, described⟩
  | seq schemas ih =>
    intro v described
    cases v with
    | seq items => exact describedEach_leaves ih described
    | _ => exact False.elim described
  | map schemas ih =>
    intro v described
    cases v with
    | map items => exact describedFields_leaves ih described.2
    | _ => exact False.elim described

theorem native_seq (items : List Value) : native (.seq items) = joined native items := by
  induction items with
  | nil => rfl
  | cons item items ih =>
    rw [joined, ← ih]
    rfl

theorem native_map (fields : List (String × Value)) : native (.map fields) = joined native (fields.map Prod.snd) := by
  induction fields with
  | nil => rfl
  | cons field fields ih =>
    rw [List.map_cons, joined, ← ih]
    rfl

/-- A leaf that is described is written, and by Rust as by Python. The JavaScript writers
write it just so if it is portable. -/
theorem leaf_alike {kind : Primitive} {leaf : Value} (described : DescribedLeaf kind leaf) :
    (∃ bytes, python leaf = .ok bytes) ∧ native leaf = python leaf ∧ SafeLeaf leaf ∧
      (FineLeaf leaf ↔ ∀ bits, leaf = .float bits → Float64.isFinite bits = true) := by
  have integer : ∀ {n : Int}, n.natAbs ≤ 2 ^ 53 - 1 →
      (∃ bytes, python (.int n) = .ok bytes) ∧ native (.int n) = python (.int n) := by
    intro n safe
    have wrote := (integer_written safe).1
    refine ⟨⟨_, wrote⟩, ?_⟩
    rw [wrote]
    exact congrArg Outcome.ok (Encoders.int_eq (by omega) (by omega))
  have other : ∀ {leaf : Value}, FineLeaf leaf → (∀ bits, leaf ≠ .float bits) →
      (FineLeaf leaf ↔ ∀ bits, leaf = .float bits → Float64.isFinite bits = true) :=
    fun fine apart => iff_of_true fine (fun bits same => absurd same (apart bits))
  cases described with
  | number n safe => exact ⟨(integer safe).1, (integer safe).2, safe, other trivial (fun _ same => by cases same)⟩
  | bigint n safe => exact ⟨(integer safe).1, (integer safe).2, safe, other trivial (fun _ same => by cases same)⟩
  | bool b => exact ⟨⟨_, rfl⟩, rfl, trivial, other trivial (fun _ same => by cases same)⟩
  | str text short =>
    have fits : (Utf8.encode text).length < 2 ^ 64 := Nat.lt_trans short (by decide)
    exact ⟨⟨_, rfl⟩, congrArg Outcome.ok (Encoders.prefixed_eq fits), fits, other trivial (fun _ same => by cases same)⟩
  | bytes data short =>
    have fits : data.length < 2 ^ 64 := Nat.lt_trans short (by decide)
    exact ⟨⟨_, rfl⟩, congrArg Outcome.ok (Encoders.prefixed_eq fits), fits, other trivial (fun _ same => by cases same)⟩
  | f64 bits normal =>
    have fraction : ∀ n, Float64.toInt? bits ≠ some n := by
      intro n integer
      have normal : ofFloat bits = .float bits := normal
      rw [ofFloat, integer] at normal
      cases normal
    refine ⟨⟨_, rfl⟩, rfl, trivial, ?_⟩
    constructor
    · rintro fine _ ⟨⟩
      exact fine.1
    · exact fun finite => ⟨finite bits rfl, fun n integer => absurd integer (fraction n)⟩

def Written (v : Value) (bytes : Bytes) : Prop :=
  native v = .ok bytes ∧ python v = .ok bytes ∧ node v = .ok bytes ∧ browser v = .ok bytes

def Received (checks : Bool) (bytes : Bytes) (schema : Schema) (v : Value) : Prop :=
  (∃ x, decodeWith (.wide checks) bytes schema = .ok x ∧ ofRust x = v) ∧
    (∃ x, PythonCodec.decode_payload bytes schema = .ok x ∧ ofPython x = v) ∧
    (∃ x, NodeCodec.decodePayload bytes schema = .ok x ∧ ofNode x = v) ∧
    ∃ x, WasmCodec.decode_payload bytes schema = .ok x ∧ ofNode x = v

theorem Hears.decode {α : Type} {d : Dialect α} {view : α → Value} {text : String → String} {keeps : String → Bool}
    (hears : Hears text keeps d view) {schema : Schema} {v : Value} (described : Described schema v) {bytes : Bytes}
    (wrote : python v = .ok bytes) (short : bytes.length < 2 ^ 32) :
    ∃ x, d.decode bytes schema = .ok x ∧ view x = heard text keeps v := by
  obtain ⟨x, takes, seen⟩ := hears.value schema v bytes described wrote d.inside
  refine ⟨x, takes.decode ?_ short, seen⟩
  rintro rfl
  cases v <;> exact described

theorem written_iff {schema : Schema} {v : Value} (described : Described schema v) {bytes : Bytes}
    (wrote : python v = .ok bytes) :
    Written v bytes ↔ ∀ leaf ∈ leaves v, ∀ bits, leaf = .float bits → Float64.isFinite bits = true := by
  have known := described_leaves schema v described
  have same : native v = .ok bytes := by
    rw [← wrote, python_leaves, write_leaves native_seq native_map v]
    refine joined_congr fun leaf member => ?_
    obtain ⟨kind, here⟩ := known leaf member
    exact (leaf_alike here).2.1
  have written : ∀ leaf ∈ leaves v, Fits (python leaf) (browser leaf) ∧ (browser leaf = python leaf ↔ FineLeaf leaf) ∧
      (FineLeaf leaf → node leaf = python leaf) := by
    intro leaf member
    obtain ⟨kind, here⟩ := known leaf member
    exact leaf_written (isLeaf_of_mem v leaf member) (leaf_alike here).2.2.1
  have fine : ∀ leaf ∈ leaves v, (FineLeaf leaf ↔ ∀ bits, leaf = .float bits → Float64.isFinite bits = true) := by
    intro leaf member
    obtain ⟨kind, here⟩ := known leaf member
    exact (leaf_alike here).2.2.2
  constructor
  · rintro ⟨-, -, -, browsed⟩
    have alike : Same (joined python (leaves v)) (joined browser (leaves v)) := by
      rw [← python_leaves, ← browser_leaves, wrote, browsed]
      exact Same.of_eq rfl rfl
    have each := (joined_same_iff (fun leaf member => (written leaf member).1)).1 alike
    exact fun leaf member => (fine leaf member).1 ((written leaf member).2.1.1 (each leaf member))
  · intro finite
    refine ⟨same, wrote, ?_, ?_⟩
    · rw [← wrote, python_leaves, node_leaves]
      exact joined_congr (fun leaf member => (written leaf member).2.2 ((fine leaf member).2 (finite leaf member)))
    · rw [← wrote, python_leaves, browser_leaves]
      exact joined_congr (fun leaf member => (written leaf member).2.1.2 ((fine leaf member).2 (finite leaf member)))

theorem received_iff {schema : Schema} {v : Value} (described : Described schema v) {bytes : Bytes}
    (wrote : python v = .ok bytes) (short : bytes.length < 2 ^ 32) (checks : Bool) :
    Received checks bytes schema v ↔ heard shown own v = v := by
  have plainly : ∀ leaf : Value, HeardLeaf id leaf := by
    intro leaf
    cases leaf <;> first | rfl | trivial
  obtain ⟨z, noded, seen⟩ := node_hears.decode described wrote short
  constructor
  · rintro ⟨-, -, ⟨y, again, same⟩, -⟩
    cases again.symm.trans noded
    exact seen.symm.trans same
  · intro through
    have whole : heard id (fun _ => true) v = v := (heard_iff v).2 ⟨fun leaf _ => plainly leaf, fun _ _ => rfl⟩
    have fields : heard id own v = v := (heard_iff v).2 ⟨fun leaf _ => plainly leaf, ((heard_iff v).1 through).2⟩
    obtain ⟨x, rusted, first⟩ := (rust_hears (m := .wide checks) (show 32 ≤ 64 by decide)).decode described wrote short
    obtain ⟨y, pythoned, second⟩ := python_hears.decode described wrote short
    obtain ⟨w, browsed, last⟩ := browser_hears.decode described wrote short
    exact ⟨⟨x, rusted, first.trans whole⟩, ⟨y, pythoned, second.trans whole⟩, ⟨z, noded, seen.trans through⟩,
      WasmCodec.dynamic_to_js w, Outcome.bind_ok.2 ⟨w, browsed, rfl⟩, last.trans fields⟩

/-- A value that is described is written alike by all four and read alike by all four, as the
value it is, exactly if it is portable. -/
theorem languages_trip {schema : Schema} {v : Value} (described : Described schema v) (checks : Bool) :
    ∃ bytes, python v = .ok bytes ∧
      (bytes.length < 2 ^ 32 → (Written v bytes ∧ Received checks bytes schema v ↔ Portable v)) := by
  have total : ∀ leaf ∈ leaves v, ∃ bytes, python leaf = .ok bytes := by
    intro leaf member
    obtain ⟨kind, here⟩ := described_leaves schema v described leaf member
    exact (leaf_alike here).1
  obtain ⟨bytes, wrote⟩ : ∃ bytes, python v = .ok bytes := ⟨_, (python_leaves v).trans (joined_written total)⟩
  refine ⟨bytes, wrote, fun short => ?_⟩
  rw [written_iff described wrote, received_iff described wrote short, heard_iff]
  constructor
  · rintro ⟨finite, texts, fields⟩
    refine ⟨fun leaf member => ?_, fun prototype => absurd (fields _ prototype) (by decide)⟩
    cases leaf with
    | float bits => exact finite _ member bits rfl
    | str text => exact (shown_iff text).1 (texts _ member)
    | _ => trivial
  · rintro ⟨parts, unnamed⟩
    refine ⟨?_, ?_, fun name member => bne_iff_ne.2 (fun same => unnamed (same ▸ member))⟩
    · rintro _ member bits rfl
      exact parts _ member
    · intro leaf member
      cases leaf with
      | str text => exact (shown_iff text).2 (parts _ member)
      | _ => trivial

/-- A struct with an integer and a pair. -/
theorem languages_trip_struct :
    let schema : Schema := .map [("1", .prim .number), ("pair", .seq [.prim .bool, .prim .bytes])]
    let v : Value := .map [("1", .int (-7)), ("pair", .seq [.bool true, .bytes [1, 255]])]
    ∃ bytes, python v = .ok bytes ∧ (bytes.length < 2 ^ 32 → Written v bytes ∧ Received true bytes schema v) := by
  intro schema v
  have described : Described schema v := by
    have integer : DescribedLeaf .number (.int (-7)) := .number (-7) (by decide)
    have data : DescribedLeaf .bytes (.bytes [1, 255]) := .bytes [1, 255] (by decide)
    have listed : Listed ["1", "pair"] := by decide
    exact ⟨listed, rfl, integer, rfl, ⟨.bool true, data, trivial⟩, trivial⟩
  have portable : Portable v := by
    have parts : leaves v = [.int (-7), .bool true, .bytes [1, 255]] := rfl
    have fields : names v = ["1", "pair"] := rfl
    refine ⟨?_, by rw [fields]; decide⟩
    rw [parts]
    exact List.forall_mem_cons.2 ⟨trivial, List.forall_mem_cons.2 ⟨trivial, List.forall_mem_singleton.2 trivial⟩⟩
  obtain ⟨bytes, wrote, iff⟩ := languages_trip described true
  exact ⟨bytes, wrote, fun short => (iff short).2 portable⟩

end EchoStream.Bindings.LanguageTrip
