import EchoStream.Foundation.Zigzag
import EchoStream.Foundation.Writing
import EchoStream.Foundation.Float64
import EchoStream.Foundation.Utf8
import EchoStream.Proto.Inferring

/-! Payloads in Python, where integers have no bounds, and what is written has to be
within 64 bits. -/

namespace EchoStream.Bindings.PythonCodec
open Foundation Foundation.Reading Foundation.Writing Foundation.Zigzag
open Proto.Messages Proto.Payload Proto.Inferring

/-- A tuple is written as a list is. -/
inductive PyValue where
  | none
  | bool (b : Bool)
  | int (n : Int)
  | float (bits : Float64.Bits)
  | str (text : String)
  | bytes (data : Bytes)
  | list (items : List PyValue)
  | dict (fields : List (String × PyValue))

/-- The schemas to encode by: `"list"`, a dictionary, or anything else. -/
inductive PySchema where
  | other
  | list
  | dict (fields : List (String × PySchema))

namespace Writer

def prefixed (data : Bytes) : Bytes := writeVarint data.length ++ data

def int (n : Int) : Outcome Bytes :=
  if -2 ^ 63 ≤ n ∧ n ≤ 2 ^ 63 - 1 then .ok (writeVarint (encodeMasked n))
  else if 0 ≤ n ∧ n ≤ 2 ^ 64 - 1 then .ok (writeVarint n.toNat)
  else .err ("整数超出 u64/i64 范围: " ++ toString n)

mutual

/-- Without a schema. -/
def value : PyValue → Outcome Bytes
  | .none => pure []
  | .bool b => pure [if b then 1 else 0]
  | .int n => int n
  | .float bits => pure (Float64.toBytes bits)
  | .str text => pure (prefixed (Utf8.encode text))
  | .bytes data => pure (prefixed data)
  | .list items => values items
  | .dict fields => fieldValues fields

def values : List PyValue → Outcome Bytes
  | [] => pure []
  | item :: items => both (value item) (values items)

def fieldValues : List (String × PyValue) → Outcome Bytes
  | [] => pure []
  | (_, item) :: items => both (value item) (fieldValues items)

end

theorem values_eq (items : List PyValue) : values items = joined value items := by
  induction items with
  | nil => rfl
  | cons item items ih => rw [values, ih, joined]

theorem fieldValues_eq (fields : List (String × PyValue)) : fieldValues fields = joined value (fields.map Prod.snd) := by
  induction fields with
  | nil => rfl
  | cons field fields ih => rw [fieldValues, ih, List.map_cons, joined]

mutual

/-- By a schema, which only lists and dictionaries look at. -/
def valueBy : PySchema → PyValue → Outcome Bytes
  | .list, .list items => both (pure (writeVarint items.length)) (values items)
  | .dict schemas, .dict fields => fieldsBy fields schemas
  | _, v => value v

def fieldsBy (fields : List (String × PyValue)) : List (String × PySchema) → Outcome Bytes
  | [] => pure []
  | (key, schema) :: schemas =>
      match fields.lookup key with
      | some v => both (valueBy schema v) (fieldsBy fields schemas)
      | none => .err ("缺少字段: " ++ key)

end

theorem fieldsBy_eq (fields : List (String × PyValue)) (schemas : List (String × PySchema)) :
    fieldsBy fields schemas = joined (fun item =>
      match fields.lookup item.1 with
      | some v => valueBy item.2 v
      | none => .err ("缺少字段: " ++ item.1)) schemas := by
  induction schemas with
  | nil => rfl
  | cons item schemas ih =>
    rw [fieldsBy, ih, joined]
    cases fields.lookup item.1 <;> rfl

end Writer

def encode_payload (v : PyValue) (schema : PySchema) : Outcome Bytes := Writer.valueBy schema v

def plus (a b : Nat) : Option Nat := some (a + b)

def fromZigzag (v : Nat) : Int := decodeUnbounded (v % 2 ^ 64)

def counted : Read Reader Bytes := do
  let len ← varint id
  take plus len

def readText (data : Bytes) : Read Reader PyValue :=
  match Utf8.decode? data with
  | some text => pure (.str text)
  | none => .refuse "UnicodeDecodeError"

def readPrim : Primitive → Read Reader PyValue
  | .number => (fun v => .int (fromZigzag v)) <$> varint id
  | .bigint => (fun v => .int (fromZigzag v)) <$> varint id
  | .u64 => (fun (v : Nat) => .int v) <$> varint id
  | .bool => (fun b => .bool (b != 0)) <$> byte "bool 越界"
  | .str => do
      let data ← counted
      readText data
  | .bytes => .bytes <$> counted
  | .f64 => (fun data => .float (Float64.ofBytes data)) <$> take plus 8
  | .f32 => (fun data => .float (Float64.ofShortBytes data)) <$> take plus 4

def inferred (data : Bytes) : PyValue :=
  match Utf8.decode? data with
  | some text => .str text
  | none => .bytes data

def inference : Inference PyValue where
  cut := id
  size := id
  plus := plus
  zero := .int 0
  inferred := inferred
  number v := .int (fromZigzag v)

def python : Dialect PyValue where
  prim := readPrim
  count := varint id
  field := inference.field
  null := .none
  seq := .list
  record items := pure (.dict items)
  inner := id

def decode_payload (bytes : Bytes) (schema : Schema) : Outcome PyValue := python.decode bytes schema

/-- Several arguments are several fields of the payload. -/
def spread : PyValue → List PyValue
  | .none => []
  | .list items => items
  | decoded => [decoded]

end EchoStream.Bindings.PythonCodec
