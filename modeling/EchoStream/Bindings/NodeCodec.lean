import EchoStream.Foundation.Zigzag
import EchoStream.Foundation.Utf8
import EchoStream.Proto.Inferring
import EchoStream.Bindings.JsValues

/-! Payloads in Node, where integers of the language have no bounds. -/

namespace EchoStream.Bindings.NodeCodec
open Foundation Foundation.Reading Foundation.Writing Foundation.Zigzag
open Proto.Messages Proto.Payload Proto.Inferring JsValues

namespace Writer

def prefixed (data : Bytes) : Bytes := writeVarint data.length ++ data

/-- An integer up to `Number.MAX_SAFE_INTEGER` is a varint. -/
def number (bits : Float64.Bits) : Outcome Bytes :=
  if Float64.isFinite bits then
    match Float64.toInt? bits with
    | some n => if n.natAbs ≤ 2 ^ 53 - 1 then .ok (writeVarint (encodeMasked n)) else .ok (Float64.toBytes bits)
    | none => .ok (Float64.toBytes bits)
  else .err "载荷 number 必须是有限值"

def bigint (n : Int) : Bytes := if 0 ≤ n then writeVarint n.toNat else writeVarint (encodeMasked n)

mutual

def value : JsValue → Outcome Bytes
  | .undefined => pure []
  | .null => pure []
  | .bool b => pure [if b then 1 else 0]
  | .number bits => number bits
  | .bigint n => pure (bigint n)
  | .string text => pure (prefixed (Utf8.encode text))
  | .bytes data => pure (prefixed data)
  | .array items => values items
  | .object fields => fieldValues fields

def values : List JsValue → Outcome Bytes
  | [] => pure []
  | item :: items => both (value item) (values items)

def fieldValues : List (String × JsValue) → Outcome Bytes
  | [] => pure []
  | (_, item) :: items => both (value item) (fieldValues items)

end

def list : JsValue → Outcome Bytes
  | .array items => both (pure (writeVarint items.length)) (values items)
  | _ => .err "列表编码需要数组载荷"

/-- A struct that is a field is written without its schema. -/
def field : EncodeSchema → JsValue → Outcome Bytes
  | .list, v => list v
  | _, v => value v

def fields (v : JsValue) : List (String × EncodeSchema) → Outcome Bytes
  | [] => pure []
  | (key, schema) :: schemas => both (field schema (v.property key)) (fields v schemas)

theorem values_eq (items : List JsValue) : values items = joined value items := by
  induction items with
  | nil => rfl
  | cons item items ih => rw [values, ih, joined]

theorem fieldValues_eq (fields : List (String × JsValue)) : fieldValues fields = joined value (fields.map Prod.snd) := by
  induction fields with
  | nil => rfl
  | cons field fields ih => rw [fieldValues, ih, List.map_cons, joined]

theorem fields_eq (v : JsValue) (schemas : List (String × EncodeSchema)) :
    fields v schemas = joined (fun item => field item.2 (v.property item.1)) schemas := by
  induction schemas with
  | nil => rfl
  | cons item schemas ih => rw [fields, ih, joined]

theorem value_leaves (v : JsValue) : value v = joined value v.leaves := write_leaves values_eq fieldValues_eq v

end Writer

def encodePayload (v : JsValue) : EncodeSchema → Outcome Bytes
  | .list => Writer.list v
  | .struct schemas =>
      match v with
      | .object _ => Writer.fields v schemas
      | .bytes _ => Writer.fields v schemas
      | _ => .err "结构体编码需要对象载荷"
  | .auto => Writer.value v

/-- No sum is too large. A length beyond `2 ^ 53` is rounded, and is out of range all the same. -/
def plus (a b : Nat) : Option Nat := some (a + b)

/-- `BigInt.asIntN(64, (v >> 1n) ^ -(v & 1n))` -/
def fromZigzag (v : Nat) : Int := (decodeUnbounded v).bmod (2 ^ 64)

/-- A number where all integers up to there are numbers. -/
def safe (n : Int) : JsValue := if -(2 ^ 53 - 1) ≤ n ∧ n ≤ 2 ^ 53 - 1 then .number (Float64.ofInt n) else .bigint n

def number (v : Nat) : JsValue := safe (fromZigzag v)

def counted : Read Reader Bytes := do
  let len ← varint id
  take plus len

def readPrim : Primitive → Read Reader JsValue
  | .number => number <$> varint id
  | .bigint => (fun v => .bigint (fromZigzag v)) <$> varint id
  | .u64 => (fun (v : Nat) => safe v) <$> varint id
  | .bool => (fun b => .bool (b != 0)) <$> byte "bool 越界"
  | .str => (fun data => .string (Utf8.lenient (Utf8.unmarked data))) <$> counted
  | .bytes => .bytes <$> counted
  | .f64 => (fun data => .number (Float64.ofBytes data)) <$> take plus 8
  | .f32 => (fun data => .number (Float64.ofShortBytes data)) <$> take plus 4

/-- Bytes that may be text, by a decoder that is fatal and drops a mark in front. -/
def inferred (data : Bytes) : JsValue :=
  match Utf8.decode? (Utf8.unmarked data) with
  | some text => .string text
  | none => .bytes data

def inference : Inference JsValue where
  cut := id
  size := id
  plus := plus
  zero := .number 0
  inferred := inferred
  number := number

/-- The property `__proto__` of a new object is its prototype. -/
def record (items : List (String × JsValue)) : JsValue := .object (items.filter (fun item => item.1 != "__proto__"))

/-- `"auto"` is no schema inside of another one. -/
def node : Dialect JsValue where
  prim := readPrim
  count := varint id
  field := inference.field
  null := .undefined
  seq := .array
  record items := pure (record items)
  inner _ := .refuse "未知 schema: auto"

def decodePayload (bytes : Bytes) (schema : Schema) : Outcome JsValue := node.decode bytes schema

end EchoStream.Bindings.NodeCodec
