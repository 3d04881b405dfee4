import EchoStream.Proto.DynamicCodec
import EchoStream.Bindings.JsValues

/-! Payloads in the browser: values of JavaScript become dynamic values of Rust and back,
and what the script adds to the encoder, which is lists and structs. -/

namespace EchoStream.Bindings.WasmCodec
open Foundation Foundation.Reading Foundation.Writing
open Proto Proto.Messages Proto.Payload Proto.DynamicCodec JsValues

/-- An integer up to `2 ^ 53` is one, another number is written as it is. -/
def numberToDynamic (bits : Float64.Bits) : Outcome DynamicCodec.Dynamic :=
  if Float64.isFinite bits then
    match Float64.toInt? bits with
    | some n => if n.natAbs ≤ 2 ^ 53 then .ok (.int (Int64.ofInt n)) else .ok (.float bits)
    | none => .ok (.float bits)
  else .err "载荷 number 必须是有限值"

def bigintToDynamic (n : Int) : Outcome DynamicCodec.Dynamic :=
  if 0 ≤ n ∧ n < 2 ^ 64 then .ok (.uint (UInt64.ofNat n.toNat))
  else if -2 ^ 63 ≤ n ∧ n < 2 ^ 63 then .ok (.int (Int64.ofInt n))
  else .err "bigint 超出 u64/i64 范围"

mutual

def js_to_dynamic : JsValue → Outcome DynamicCodec.Dynamic
  | .undefined => pure .null
  | .null => pure .null
  | .bool b => pure (.bool b)
  | .number bits => numberToDynamic bits
  | .bigint n => bigintToDynamic n
  | .string text => pure (.str text)
  | .bytes data => pure (.bytes data)
  | .array items => do
      let items ← itemsToDynamic items
      pure (.seq items)
  | .object fields => do
      let fields ← fieldsToDynamic fields
      pure (.map fields)

def itemsToDynamic : List JsValue → Outcome (List DynamicCodec.Dynamic)
  | [] => pure []
  | item :: items => do
      let first ← js_to_dynamic item
      let rest ← itemsToDynamic items
      pure (first :: rest)

def fieldsToDynamic : List (String × JsValue) → Outcome (List (String × DynamicCodec.Dynamic))
  | [] => pure []
  | (key, item) :: items => do
      let first ← js_to_dynamic item
      let rest ← fieldsToDynamic items
      pure ((key, first) :: rest)

end

def encode_payload (v : JsValue) : Outcome Bytes := do
  let v ← js_to_dynamic v
  encode v

theorem encode_payload_items (items : List JsValue) : encode_payload (.array items) = joined encode_payload items := by
  induction items with
  | nil => rfl
  | cons item items ih =>
    rw [joined, ← ih]
    rw [encode_payload, encode_payload, encode_payload, js_to_dynamic, js_to_dynamic, itemsToDynamic]
    cases js_to_dynamic item with
    | ok first =>
      cases itemsToDynamic items with
      | ok rest => rfl
      | err text => rfl
      | panic => rfl
    | err text => rfl
    | panic => rfl

theorem encode_payload_fields (fields : List (String × JsValue)) :
    encode_payload (.object fields) = joined encode_payload (fields.map Prod.snd) := by
  induction fields with
  | nil => rfl
  | cons field fields ih =>
    rw [List.map_cons, joined, ← ih]
    rw [encode_payload, encode_payload, encode_payload, js_to_dynamic, js_to_dynamic, fieldsToDynamic]
    cases js_to_dynamic field.2 with
    | ok first =>
      cases fieldsToDynamic fields with
      | ok rest => rfl
      | err text => rfl
      | panic => rfl
    | err text => rfl
    | panic => rfl

theorem encode_payload_leaves (v : JsValue) : encode_payload v = joined encode_payload v.leaves :=
  write_leaves encode_payload_items encode_payload_fields v

def integerToJs (n : Int) : JsValue := if n.natAbs ≤ 2 ^ 53 then .number (Float64.ofInt n) else .bigint n

mutual

def dynamic_to_js : DynamicCodec.Dynamic → JsValue
  | .null => .undefined
  | .bool b => .bool b
  | .int n => integerToJs n.toInt
  | .uint n => integerToJs n.toNat
  | .float bits => .number bits
  | .str text => .string text
  | .bytes data => .bytes data
  | .seq items => .array (itemsToJs items)
  | .map fields => .object (fieldsToJs fields)

def itemsToJs : List DynamicCodec.Dynamic → List JsValue
  | [] => []
  | item :: items => dynamic_to_js item :: itemsToJs items

/-- The property `__proto__` of a new object is its prototype. -/
def fieldsToJs : List (String × DynamicCodec.Dynamic) → List (String × JsValue)
  | [] => []
  | (key, item) :: items =>
      if key = "__proto__" then fieldsToJs items else (key, dynamic_to_js item) :: fieldsToJs items

end

/-- The build for browsers runs on a machine of 32 bits, and wraps. -/
def decode_payload (bytes : Bytes) (schema : Schema) : Outcome JsValue := do
  let v ← decodeWith (.narrow false) bytes schema
  pure (dynamic_to_js v)

/-! What the script adds. -/

def encodeList : JsValue → Outcome Bytes
  | .array items => both (pure (writeVarint items.length)) (joined encode_payload items)
  | _ => .err "列表编码需要数组载荷"

mutual

/-- A value by a schema, at the top or in a struct. -/
def encodeBy : EncodeSchema → JsValue → Outcome Bytes
  | .list, v => encodeList v
  | .struct schemas, v => encodeStruct v schemas
  | .auto, v => encode_payload v

def encodeStruct (v : JsValue) (schemas : List (String × EncodeSchema)) : Outcome Bytes :=
  match v with
  | .object _ => encodeFields v schemas
  | .bytes _ => encodeFields v schemas
  | _ => .err "结构体编码需要对象载荷"

def encodeFields (v : JsValue) : List (String × EncodeSchema) → Outcome Bytes
  | [] => pure []
  | (key, schema) :: schemas => both (encodeBy schema (v.property key)) (encodeFields v schemas)

end

theorem encodeFields_eq (v : JsValue) (schemas : List (String × EncodeSchema)) :
    encodeFields v schemas = joined (fun item => encodeBy item.2 (v.property item.1)) schemas := by
  induction schemas with
  | nil =>
    rw [encodeFields, joined]
    rfl
  | cons item schemas ih => rw [encodeFields, ih, joined]

def encodePayload (v : JsValue) (schema : EncodeSchema) : Outcome Bytes := encodeBy schema v

end EchoStream.Bindings.WasmCodec
