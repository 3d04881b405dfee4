import EchoStream.Foundation.Zigzag
import EchoStream.Foundation.Float64
import EchoStream.Foundation.Utf8
import EchoStream.Proto.Inferring

/-! Dynamic values, their encoding, and the reader of payloads in Rust. The reader is
built for a machine whose `usize` is 32 or 64 bits wide, with or without checked
arithmetic. What was written is read back, if the schema has the shape of the value. -/

namespace EchoStream.Proto.DynamicCodec
open Foundation.Formats Foundation.Reading Foundation.Zigzag
open Messages Payload

inductive Dynamic where
  | null
  | bool (b : Bool)
  | int (n : Int64)
  | uint (n : UInt64)
  | float (bits : Foundation.Float64.Bits)
  | str (text : String)
  | bytes (data : Bytes)
  | seq (items : List Dynamic)
  | map (fields : List (String × Dynamic))

namespace Writer

/-- Ten groups are enough for 64 bits. -/
def varint (n : UInt64) : Bytes := putGroups 10 n.toNat

def prefixed (data : Bytes) : Bytes := varint (UInt64.ofNat data.length) ++ data

mutual

def value : Dynamic → Bytes
  | .null => []
  | .bool b => [if b then 1 else 0]
  | .int n => varint (encodeWord n)
  | .uint n => varint n
  | .float bits => Foundation.Float64.toBytes bits
  | .str text => prefixed (Foundation.Utf8.encode text)
  | .bytes data => prefixed data
  | .seq items => values items
  | .map fields => fieldValues fields

def values : List Dynamic → Bytes
  | [] => []
  | item :: items => value item ++ values items

def fieldValues : List (String × Dynamic) → Bytes
  | [] => []
  | (_, item) :: items => value item ++ fieldValues items

end

end Writer

def encode (v : Dynamic) : Outcome Bytes := .ok (Writer.value v)

/-- The width of `usize`, and whether overflow panics or wraps. -/
structure Machine where
  bits : Nat
  checks : Bool
  fits : bits ≤ 64

namespace Machine

def wide (checks : Bool) : Machine := ⟨64, checks, Nat.le_refl 64⟩
def narrow (checks : Bool) : Machine := ⟨32, checks, by decide⟩

def usize (m : Machine) (v : UInt64) : Nat := v.toNat % 2 ^ m.bits

def plus (m : Machine) (a b : Nat) : Option Nat :=
  if a + b < 2 ^ m.bits then some (a + b) else if m.checks then none else some ((a + b) % 2 ^ m.bits)

end Machine

/-- Groups are shifted in a `u64`, so bits beyond it are lost. -/
def word : Read Reader UInt64 := UInt64.ofNat <$> varint (· % 2 ^ 64)

variable (m : Machine)

def counted : Read Reader Bytes := do
  let len ← word
  take m.plus (m.usize len)

def readText (data : Bytes) : Read Reader Dynamic :=
  match Foundation.Utf8.decode? data with
  | some text => pure (.str text)
  | none => .refuse "UTF-8 解码失败"

def readPrim : Primitive → Read Reader Dynamic
  | .number => (fun v => .int (decodeWord v)) <$> word
  | .bigint => (fun v => .int (decodeWord v)) <$> word
  | .u64 => .uint <$> word
  | .bool => (fun b => .bool (b != 0)) <$> byte "bool 越界"
  | .str => do
      let data ← counted m
      readText data
  | .bytes => .bytes <$> counted m
  | .f64 => (fun data => .float (Foundation.Float64.ofBytes data)) <$> take m.plus 8
  | .f32 => (fun data => .float (Foundation.Float64.ofShortBytes data)) <$> take m.plus 4

/-- Bytes that may be text. -/
def inferred (data : Bytes) : Dynamic :=
  match Foundation.Utf8.decode? data with
  | some text => .str text
  | none => .bytes data

/-- What a varint other than zero is the beginning of. A number is read a second time, to
the same. -/
def readOn (v : UInt64) : Read Reader Dynamic := fun r =>
  if m.usize v ≤ r.remaining then (inferred <$> take m.plus (m.usize v)) r
  else .ok (.int (decodeWord v), r)

/-- One turn of the loop in `auto`. -/
def readField : Read Reader Dynamic := do
  let v ← word
  if v = 0 then pure (.int 0) else readOn m v

def rust : Dialect Dynamic where
  prim := readPrim m
  count := m.usize <$> word
  field := readField m
  null := .null
  seq := .seq
  record items := pure (.map items)
  inner := id

def decodeWith (bytes : Bytes) (schema : Schema) : Outcome Dynamic := (rust m).decode bytes schema

variable {m}

theorem word_ok {r rest : Reader} {v : UInt64} :
    word r = .ok (v, rest) ↔ ∃ n, r.number = some (n, rest) ∧ v = UInt64.ofNat n := by
  rw [word, Read.map_ok]
  constructor
  · intro there
    obtain ⟨value, came, same⟩ := there
    obtain ⟨n, front, cut⟩ := (varint_ok (Cut.mod 64)).1 came
    refine ⟨n, front, ?_⟩
    rw [← same, cut]
    exact UInt64.ofNat_mod_size
  · intro there
    obtain ⟨n, front, same⟩ := there
    refine ⟨n % 2 ^ 64, (varint_ok (Cut.mod 64)).2 ⟨n, front, rfl⟩, ?_⟩
    rw [same]
    exact UInt64.ofNat_mod_size

theorem word_number {r rest : Reader} {n : Nat} (front : r.number = some (n, rest)) :
    word r = .ok (UInt64.ofNat n, rest) := word_ok.2 ⟨n, front, rfl⟩

theorem word_none {r : Reader} (front : r.number = none) : (word r).Refused :=
  Read.map_refused (varint_none (Cut.mod 64) front)

theorem varint_eq (n : UInt64) : Writer.varint n = writeVarint n.toNat :=
  (writeVarint_eq (Nat.lt_of_lt_of_le n.toNat_lt (by decide))).symm

theorem word_put (n : UInt64) (pos : Nat) (rest : Bytes) :
    word ⟨pos, Writer.varint n ++ rest⟩ = .ok (n, ⟨pos + (Writer.varint n).length, rest⟩) := by
  have bound : n.toNat < 2 ^ 70 := Nat.lt_of_lt_of_le n.toNat_lt (by decide)
  have read := word_number (number_put bound pos rest)
  rw [UInt64.ofNat_toNat] at read
  exact read

/-- The inference in Rust, by its parts. -/
def inference (m : Machine) : Inferring.Inference Dynamic where
  cut := (· % 2 ^ 64)
  size v := m.usize (UInt64.ofNat v)
  plus := m.plus
  zero := .int 0
  inferred := inferred
  number v := .int (decodeWord (UInt64.ofNat v))

theorem readField_eq : readField m = (inference m).field := by
  funext r
  cases came : varint (· % 2 ^ 64) r with
  | err text =>
    have left : readField m r = .err text := Read.bind_err.2 (Or.inl (Read.map_err.2 came))
    have right : (inference m).field r = .err text := Read.bind_err.2 (Or.inl came)
    rw [left, right]
  | panic =>
    have left : readField m r = .panic := Read.bind_panic.2 (Or.inl (Read.map_panic.2 came))
    have right : (inference m).field r = .panic := Read.bind_panic.2 (Or.inl came)
    rw [left, right]
  | ok pair =>
    obtain ⟨v, rest⟩ := pair
    obtain ⟨n, _, cut⟩ := (varint_ok (Cut.mod 64)).1 came
    have small : v < 2 ^ 64 := cut ▸ Nat.mod_lt _ (by decide)
    have read : word r = .ok (UInt64.ofNat v, rest) := Read.map_ok.2 ⟨v, came, rfl⟩
    have also : varint (inference m).cut r = .ok (v, rest) := came
    rw [readField, Inferring.Inference.field, Read.bind_of_ok read, Read.bind_of_ok also]
    by_cases zero : v = 0
    · have none : UInt64.ofNat v = 0 := by rw [zero]; rfl
      rw [if_pos zero, if_pos none]
      rfl
    · have some : UInt64.ofNat v ≠ 0 := by
        intro same
        have values : (UInt64.ofNat v).toNat = 0 := congrArg UInt64.toNat same
        exact zero ((UInt64.toNat_ofNat_of_lt small).symm.trans values)
      rw [if_neg zero, if_neg some]
      rfl

theorem rust_sound (m : Machine) : (inference m).Sound (2 ^ m.bits) := ⟨Cut.mod 64, fun _ _ within => if_pos within⟩

theorem readText_ok {data : Bytes} {r rest : Reader} {v : Dynamic} :
    readText data r = .ok (v, rest) ↔ ∃ text, v = .str text ∧ data = Foundation.Utf8.encode text ∧ rest = r := by
  unfold readText
  constructor
  · intro came
    cases decoded : Foundation.Utf8.decode? data with
    | some text =>
      rw [decoded] at came
      cases came
      exact ⟨text, rfl, (Foundation.Utf8.decode?_eq_some.1 decoded).symm, rfl⟩
    | none =>
      rw [decoded] at came
      cases came
  · rintro ⟨text, rfl, rfl, rfl⟩
    rw [Foundation.Utf8.decode?_encode]
    rfl

theorem inferred_injective {data more : Bytes} (same : inferred data = inferred more) : data = more := by
  apply Foundation.Utf8.guess_injective _ _ _ same
  · exact fun _ _ same => Dynamic.str.inj same
  · exact fun _ _ same => Dynamic.bytes.inj same
  · intro text bytes impossible
    cases impossible

theorem inferred_ne_int (data : Bytes) (n : Int64) : inferred data ≠ .int n := by
  intro same
  unfold inferred at same
  split at same <;> cases same

theorem inferred_ne_seq (data : Bytes) (items : List Dynamic) : inferred data ≠ .seq items := by
  intro same
  unfold inferred at same
  split at same <;> cases same

theorem take_front {pos : Nat} {data : Bytes} (fits : pos + data.length < 2 ^ m.bits) (rest : Bytes) :
    take m.plus data.length ⟨pos, data ++ rest⟩ = .ok (data, ⟨pos + data.length, rest⟩) := by
  have sum : m.plus (Reader.mk pos (data ++ rest)).pos data.length = some (pos + data.length) := if_pos fits
  have inside : ¬ (Reader.mk pos (data ++ rest)).remaining < data.length := by
    show ¬ (data ++ rest).length < data.length
    rw [List.length_append]
    omega
  rw [take_plain sum, if_neg inside, List.take_left, List.drop_left]

theorem usize_ofNat {len : Nat} (fits : len < 2 ^ m.bits) : m.usize (UInt64.ofNat len) = len := by
  have wide : len < 2 ^ 64 := Nat.lt_of_lt_of_le fits (Nat.pow_le_pow_right (by decide) m.fits)
  rw [Machine.usize, UInt64.toNat_ofNat', Nat.mod_eq_of_lt wide, Nat.mod_eq_of_lt fits]

theorem counted_put {pos : Nat} {data : Bytes} (fits : pos + (Writer.prefixed data).length < 2 ^ m.bits) (rest : Bytes) :
    counted m ⟨pos, Writer.prefixed data ++ rest⟩ = .ok (data, ⟨pos + (Writer.prefixed data).length, rest⟩) := by
  have lengths : (Writer.prefixed data).length = (Writer.varint (UInt64.ofNat data.length)).length + data.length :=
    List.length_append
  rw [lengths] at fits ⊢
  rw [counted, Writer.prefixed, List.append_assoc, Read.bind_of_ok (word_put _ pos _), usize_ofNat (by omega),
    take_front (by omega), Nat.add_assoc]

/-! What is written by a schema is read back by it. -/

mutual

/-- As `Writer::value`, with the length in front of a list. -/
def writeAs : Schema → Dynamic → Bytes
  | .list item, .seq items => Writer.varint (UInt64.ofNat items.length) ++ items.flatMap (writeAs item)
  | .seq schemas, .seq items => writeEach schemas items
  | .map fields, .map items => writeFields fields items
  | _, v => Writer.value v

def writeEach : List Schema → List Dynamic → Bytes
  | schema :: schemas, item :: items => writeAs schema item ++ writeEach schemas items
  | _, _ => []

def writeFields : List (String × Schema) → List (String × Dynamic) → Bytes
  | (_, schema) :: schemas, (_, item) :: items => writeAs schema item ++ writeFields schemas items
  | _, _ => []

end

mutual

/-- The value has the shape the schema describes. The length of a vector is a `usize`. -/
def HasShape (m : Machine) : Schema → Dynamic → Prop
  | .prim .number, .int _ => True
  | .prim .bigint, .int _ => True
  | .prim .u64, .uint _ => True
  | .prim .bool, .bool _ => True
  | .prim .str, .str _ => True
  | .prim .bytes, .bytes _ => True
  | .prim .f64, .float _ => True
  | .list item, .seq items => items.length < 2 ^ m.bits ∧ ∀ v ∈ items, HasShape m item v
  | .seq schemas, .seq items => EachShape m schemas items
  | .map fields, .map items => FieldsShape m fields items
  | _, _ => False

def EachShape (m : Machine) : List Schema → List Dynamic → Prop
  | [], [] => True
  | schema :: schemas, item :: items => HasShape m schema item ∧ EachShape m schemas items
  | _, _ => False

def FieldsShape (m : Machine) : List (String × Schema) → List (String × Dynamic) → Prop
  | [], [] => True
  | (name, schema) :: schemas, (other, item) :: items =>
      name = other ∧ HasShape m schema item ∧ FieldsShape m schemas items
  | _, _ => False

end

/-- The reader takes the value off the front and stops behind it. -/
def ReadsBack (m : Machine) (schema : Schema) (v : Dynamic) : Prop :=
  ∀ nested pos rest, pos + (writeAs schema v).length < 2 ^ m.bits →
    (rust m).value schema nested ⟨pos, writeAs schema v ++ rest⟩ = .ok (v, ⟨pos + (writeAs schema v).length, rest⟩)

theorem prim_back {kind : Primitive} {v : Dynamic} (shape : HasShape m (.prim kind) v) : ReadsBack m (.prim kind) v := by
  intro nested pos rest fits
  show readPrim m kind _ = _
  match kind, v, shape with
  | .number, .int n, _ =>
    refine Read.map_ok.2 ⟨encodeWord n, word_put _ pos rest, ?_⟩
    rw [decodeWord_encodeWord]
  | .bigint, .int n, _ =>
    refine Read.map_ok.2 ⟨encodeWord n, word_put _ pos rest, ?_⟩
    rw [decodeWord_encodeWord]
  | .u64, .uint n, _ => exact Read.map_ok.2 ⟨n, word_put _ pos rest, rfl⟩
  | .bool, .bool b, _ =>
    refine Read.map_ok.2 ⟨if b then 1 else 0, rfl, ?_⟩
    cases b <;> rfl
  | .str, .str text, _ =>
    show (counted m >>= readText) _ = _
    rw [show writeAs (.prim .str) (.str text) = Writer.prefixed (Foundation.Utf8.encode text) from rfl] at fits ⊢
    rw [Read.bind_of_ok (counted_put fits rest), readText, Foundation.Utf8.decode?_encode]
    rfl
  | .bytes, .bytes data, _ => exact Read.map_ok.2 ⟨data, counted_put fits rest, rfl⟩
  | .f64, .float bits, _ =>
    have size := Foundation.Float64.toBytes_length bits
    have within : pos + (Foundation.Float64.toBytes bits).length < 2 ^ m.bits := fits
    have taken := take_front within rest
    rw [size] at taken
    have length : (writeAs (.prim .f64) (.float bits)).length = 8 := size
    refine Read.map_ok.2 ⟨_, ?_, congrArg Dynamic.float (Foundation.Float64.ofBytes_toBytes bits)⟩
    rw [length]
    exact taken

theorem times_back {item : Schema} {items : List Dynamic} (each : ∀ v ∈ items, ReadsBack m item v) (nested : Read Reader Dynamic)
    {pos : Nat} (rest : Bytes) (fits : pos + (items.flatMap (writeAs item)).length < 2 ^ m.bits) :
    ((rust m).value item nested).times items.length ⟨pos, items.flatMap (writeAs item) ++ rest⟩ =
      .ok (items, ⟨pos + (items.flatMap (writeAs item)).length, rest⟩) := by
  induction items generalizing pos with
  | nil => rfl
  | cons v items ih =>
    rw [List.flatMap_cons, List.length_append] at fits ⊢
    have first := each v List.mem_cons_self nested pos (items.flatMap (writeAs item) ++ rest) (by omega)
    have within : pos + (writeAs item v).length + (items.flatMap (writeAs item)).length < 2 ^ m.bits := by omega
    have later := ih (fun other member => each other (List.mem_cons_of_mem _ member)) within
    rw [List.append_assoc]
    refine Read.cons_ok.2 ⟨v, _, items, first, ?_, rfl⟩
    rw [later, Nat.add_assoc]

theorem list_shape {item : Schema} {v : Dynamic} (shape : HasShape m (.list item) v) :
    ∃ items, v = .seq items ∧ items.length < 2 ^ m.bits ∧ ∀ v ∈ items, HasShape m item v := by
  cases v with
  | seq items => exact ⟨items, rfl, shape⟩
  | _ => exact False.elim shape

theorem seq_shape {schemas : List Schema} {v : Dynamic} (shape : HasShape m (.seq schemas) v) :
    ∃ items, v = .seq items ∧ EachShape m schemas items := by
  cases v with
  | seq items => exact ⟨items, rfl, shape⟩
  | _ => exact False.elim shape

theorem map_shape {fields : List (String × Schema)} {v : Dynamic} (shape : HasShape m (.map fields) v) :
    ∃ items, v = .map items ∧ FieldsShape m fields items := by
  cases v with
  | map items => exact ⟨items, rfl, shape⟩
  | _ => exact False.elim shape

theorem list_back {item : Schema} {items : List Dynamic} (short : items.length < 2 ^ m.bits)
    (each : ∀ v ∈ items, ReadsBack m item v) : ReadsBack m (.list item) (.seq items) := by
  intro nested pos rest fits
  have whole : writeAs (.list item) (.seq items) =
      Writer.varint (UInt64.ofNat items.length) ++ items.flatMap (writeAs item) := rfl
  rw [whole, List.length_append] at fits
  have count : (rust m).count ⟨pos, Writer.varint (UInt64.ofNat items.length) ++ (items.flatMap (writeAs item) ++ rest)⟩ =
      .ok (items.length, ⟨pos + (Writer.varint (UInt64.ofNat items.length)).length, items.flatMap (writeAs item) ++ rest⟩) :=
    Read.map_ok.2 ⟨_, word_put _ pos _, usize_ofNat short⟩
  have within : pos + (Writer.varint (UInt64.ofNat items.length)).length + (items.flatMap (writeAs item)).length <
      2 ^ m.bits := by omega
  have read := times_back each (rust m).auto rest within
  rw [whole, List.append_assoc, List.length_append, ← Nat.add_assoc]
  exact Read.bind_ok.2 ⟨_, _, count, Read.map_ok.2 ⟨items, read, rfl⟩⟩

theorem each_back {schemas : List Schema} (back : ∀ schema ∈ schemas, ∀ v, HasShape m schema v → ReadsBack m schema v)
    {items : List Dynamic} (shape : EachShape m schemas items) (nested : Read Reader Dynamic) {pos : Nat} (rest : Bytes)
    (fits : pos + (writeEach schemas items).length < 2 ^ m.bits) :
    (rust m).values schemas nested ⟨pos, writeEach schemas items ++ rest⟩ =
      .ok (items, ⟨pos + (writeEach schemas items).length, rest⟩) := by
  induction schemas generalizing items pos with
  | nil =>
    cases items with
    | nil => rfl
    | cons v items => exact False.elim shape
  | cons schema schemas ih =>
    cases items with
    | nil => exact False.elim shape
    | cons v items =>
      have whole : writeEach (schema :: schemas) (v :: items) = writeAs schema v ++ writeEach schemas items := rfl
      rw [whole, List.length_append] at fits ⊢
      have first := back schema List.mem_cons_self v shape.1 nested pos (writeEach schemas items ++ rest) (by omega)
      have within : pos + (writeAs schema v).length + (writeEach schemas items).length < 2 ^ m.bits := by omega
      have later := ih (fun other member => back other (List.mem_cons_of_mem _ member)) shape.2 within
      rw [List.append_assoc, ← Nat.add_assoc]
      exact Read.cons_ok.2 ⟨v, _, items, first, later, rfl⟩

theorem fields_back {schemas : List (String × Schema)}
    (back : ∀ field ∈ schemas, ∀ v, HasShape m field.2 v → ReadsBack m field.2 v)
    {items : List (String × Dynamic)} (shape : FieldsShape m schemas items) (nested : Read Reader Dynamic) {pos : Nat}
    (rest : Bytes) (fits : pos + (writeFields schemas items).length < 2 ^ m.bits) :
    (rust m).fields schemas nested ⟨pos, writeFields schemas items ++ rest⟩ =
      .ok (items, ⟨pos + (writeFields schemas items).length, rest⟩) := by
  induction schemas generalizing items pos with
  | nil =>
    cases items with
    | nil => rfl
    | cons v items => exact False.elim shape
  | cons field schemas ih =>
    cases items with
    | nil => exact False.elim shape
    | cons v items =>
      obtain ⟨name, schema⟩ := field
      obtain ⟨other, v⟩ := v
      obtain ⟨same, here, there⟩ := shape
      subst same
      have whole : writeFields ((name, schema) :: schemas) ((name, v) :: items) =
          writeAs schema v ++ writeFields schemas items := rfl
      rw [whole, List.length_append] at fits ⊢
      have within : pos + (writeAs schema v).length < 2 ^ m.bits := by omega
      have first := back (name, schema) List.mem_cons_self v here nested pos (writeFields schemas items ++ rest) within
      have beyond : pos + (writeAs schema v).length + (writeFields schemas items).length < 2 ^ m.bits := by omega
      have later := ih (fun other member => back other (List.mem_cons_of_mem _ member)) there beyond
      rw [List.append_assoc, ← Nat.add_assoc]
      exact Read.cons_ok.2 ⟨(name, v), _, items, Read.map_ok.2 ⟨v, first, rfl⟩, later, rfl⟩

theorem shape_back (schema : Schema) : ∀ v, HasShape m schema v → ReadsBack m schema v := by
  induction schema using Schema.induct with
  | auto => exact fun v shape => False.elim shape
  | prim kind => exact fun v shape => prim_back shape
  | list item ih =>
    intro v shape
    obtain ⟨items, rfl, short, each⟩ := list_shape shape
    exact list_back short (fun v member => ih v (each v member))
  | seq schemas ih =>
    intro v shape
    obtain ⟨items, rfl, each⟩ := seq_shape shape
    intro nested pos rest fits
    exact Read.map_ok.2 ⟨items, each_back ih each nested rest fits, rfl⟩
  | map fields ih =>
    intro v shape
    obtain ⟨items, rfl, each⟩ := map_shape shape
    intro nested pos rest fits
    exact Read.bind_ok.2 ⟨items, _, fields_back ih each nested rest fits, rfl⟩

/-- Behind any prefix the reader takes a value of the schema's shape back out of what was
written, whatever follows, and stops where that begins. -/
theorem value_written (m : Machine) {schema : Schema} {v : Dynamic} (shape : HasShape m schema v) (before after : Bytes)
    (slice : (before ++ writeAs schema v ++ after).length < 2 ^ m.bits) :
    (rust m).value schema (rust m).inside (.at (before ++ writeAs schema v ++ after) before.length) =
        .ok (v, .at (before ++ writeAs schema v ++ after) (before.length + (writeAs schema v).length)) ∧
      decodeWith m (writeAs schema v) schema = .ok v := by
  rw [List.length_append, List.length_append] at slice
  constructor
  · have front : Reader.at (before ++ writeAs schema v ++ after) before.length = ⟨before.length, writeAs schema v ++ after⟩ := by
      rw [Reader.at, List.append_assoc, List.drop_left]
    have back : Reader.at (before ++ writeAs schema v ++ after) (before.length + (writeAs schema v).length) =
        ⟨before.length + (writeAs schema v).length, after⟩ := by
      rw [Reader.at, ← List.length_append, List.drop_left]
    rw [front, back]
    exact shape_back schema v shape _ _ _ (by omega)
  · have alone := shape_back schema v shape (rust m).inside 0 [] (by omega)
    rw [List.append_nil] at alone
    refine Dialect.decode_ok.2 ⟨⟨0 + (writeAs schema v).length, []⟩, ?_, rfl⟩
    cases schema with
    | auto => exact False.elim shape
    | _ => exact alone

/-- A struct with a list of pairs and a text, read behind one byte. -/
theorem value_written_nested :
    let schema : Schema := .map [("pairs", .list (.seq [.prim .number, .prim .bool])), ("name", .prim .str)]
    let v : Dynamic := .map [("pairs", .seq [.seq [.int (-3), .bool true]]), ("name", .str "a")]
    decodeWith (.wide true) (writeAs schema v) schema = .ok v := by
  intro schema v
  have shape : HasShape (.wide true) schema v := by
    refine ⟨rfl, ⟨by decide, ?_⟩, rfl, trivial, trivial⟩
    intro pair member
    rw [List.mem_singleton.1 member]
    exact ⟨trivial, trivial, trivial⟩
  have text : Foundation.Utf8.encode "a" = [97] := by decide +kernel
  have written : writeAs schema v = [1, 5, 1, 1, 97] := by
    show writeFields _ _ = _
    simp only [writeFields, writeAs, Writer.value, Writer.prefixed, text]
    decide +kernel
  exact (value_written (.wide true) shape [7] [9] (by rw [written]; decide)).2

end EchoStream.Proto.DynamicCodec
