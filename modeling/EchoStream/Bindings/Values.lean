import EchoStream.Bindings.NodeCodec
import EchoStream.Bindings.PythonCodec
import EchoStream.Proto.DynamicCodec

/-! What decoded values have in common in Rust, JavaScript and Python. A number that is
an integer is the same whatever its type, and so is what is not a number. A
struct is its fields. -/

namespace EchoStream.Bindings.Values
open Foundation Foundation.Reading Foundation.Zigzag
open Proto Proto.Messages Proto.Payload Proto.Inferring Proto.DynamicCodec JsValues PythonCodec

inductive Value where
  | null
  | bool (b : Bool)
  | int (n : Int)
  | float (bits : Float64.Bits)
  | str (text : String)
  | bytes (data : Bytes)
  | seq (items : List Value)
  | map (fields : List (String × Value))

def ofFloat (bits : Float64.Bits) : Value :=
  match Float64.toInt? bits with
  | some n => .int n
  | none => if Float64.isNaN bits then .float Float64.quiet else .float bits

mutual

def ofRust : DynamicCodec.Dynamic → Value
  | .null => .null
  | .bool b => .bool b
  | .int n => .int n.toInt
  | .uint n => .int n.toNat
  | .float bits => ofFloat bits
  | .str text => .str text
  | .bytes data => .bytes data
  | .seq items => .seq (ofRustItems items)
  | .map fields => .map (ofRustFields fields)

def ofRustItems : List DynamicCodec.Dynamic → List Value
  | [] => []
  | item :: items => ofRust item :: ofRustItems items

def ofRustFields : List (String × DynamicCodec.Dynamic) → List (String × Value)
  | [] => []
  | (name, item) :: fields => (name, ofRust item) :: ofRustFields fields

end

mutual

def ofPython : PyValue → Value
  | .none => .null
  | .bool b => .bool b
  | .int n => .int n
  | .float bits => ofFloat bits
  | .str text => .str text
  | .bytes data => .bytes data
  | .list items => .seq (ofPythonItems items)
  | .dict fields => .map (ofPythonFields fields)

def ofPythonItems : List PyValue → List Value
  | [] => []
  | item :: items => ofPython item :: ofPythonItems items

def ofPythonFields : List (String × PyValue) → List (String × Value)
  | [] => []
  | (name, item) :: fields => (name, ofPython item) :: ofPythonFields fields

end

mutual

def ofNode : JsValue → Value
  | .undefined => .null
  | .null => .null
  | .bool b => .bool b
  | .number bits => ofFloat bits
  | .bigint n => .int n
  | .string text => .str text
  | .bytes data => .bytes data
  | .array items => .seq (ofNodeItems items)
  | .object fields => .map (ofNodeFields fields)

def ofNodeItems : List JsValue → List Value
  | [] => []
  | item :: items => ofNode item :: ofNodeItems items

def ofNodeFields : List (String × JsValue) → List (String × Value)
  | [] => []
  | (name, item) :: fields => (name, ofNode item) :: ofNodeFields fields

end

theorem ofRustItems_eq (items : List DynamicCodec.Dynamic) : ofRustItems items = items.map ofRust := by
  induction items with
  | nil => rfl
  | cons item items ih => rw [ofRustItems, ih, List.map_cons]

theorem ofRustFields_eq (fields : List (String × DynamicCodec.Dynamic)) :
    ofRustFields fields = fields.map (Dialect.named ofRust) := by
  induction fields with
  | nil => rfl
  | cons field fields ih => rw [ofRustFields, ih, List.map_cons, Dialect.named]

theorem ofPythonItems_eq (items : List PyValue) : ofPythonItems items = items.map ofPython := by
  induction items with
  | nil => rfl
  | cons item items ih => rw [ofPythonItems, ih, List.map_cons]

theorem ofPythonFields_eq (fields : List (String × PyValue)) :
    ofPythonFields fields = fields.map (Dialect.named ofPython) := by
  induction fields with
  | nil => rfl
  | cons field fields ih => rw [ofPythonFields, ih, List.map_cons, Dialect.named]

theorem ofNodeItems_eq (items : List JsValue) : ofNodeItems items = items.map ofNode := by
  induction items with
  | nil => rfl
  | cons item items ih => rw [ofNodeItems, ih, List.map_cons]

theorem ofNodeFields_eq (fields : List (String × JsValue)) : ofNodeFields fields = fields.map (Dialect.named ofNode) := by
  induction fields with
  | nil => rfl
  | cons field fields ih => rw [ofNodeFields, ih, List.map_cons, Dialect.named]

/-- Bytes that may be text, where the text is all of them. -/
def guessed (data : Bytes) : Value :=
  match Utf8.decode? data with
  | some text => .str text
  | none => .bytes data

theorem ofRust_inferred (data : Bytes) : ofRust (DynamicCodec.inferred data) = guessed data := by
  unfold DynamicCodec.inferred guessed
  cases Utf8.decode? data <;> rfl

theorem ofPython_inferred (data : Bytes) : ofPython (PythonCodec.inferred data) = guessed data := by
  unfold PythonCodec.inferred guessed
  cases Utf8.decode? data <;> rfl

theorem guessed_injective {data more : Bytes} (same : guessed data = guessed more) : data = more := by
  apply Utf8.guess_injective _ _ _ same
  · exact fun _ _ same => Value.str.inj same
  · exact fun _ _ same => Value.bytes.inj same
  · intro text bytes impossible
    cases impossible

theorem guessed_ne_int (data : Bytes) (n : Int) : guessed data ≠ .int n := by
  intro same
  unfold guessed at same
  split at same <;> cases same

theorem guessed_ne_seq (data : Bytes) (items : List Value) : guessed data ≠ .seq items := by
  intro same
  unfold guessed at same
  split at same <;> cases same

theorem ofNode_safe (n : Int) : ofNode (NodeCodec.safe n) = .int n := by
  unfold NodeCodec.safe
  split
  · have integer : Float64.toInt? (Float64.ofInt n) = some n := Float64.toInt?_ofInt (by omega)
    show ofFloat _ = _
    rw [ofFloat, integer]
  · rfl

theorem python_number (n : Nat) : ofPython (.int (PythonCodec.fromZigzag n)) = .int (unzigzag (n % 2 ^ 64)) := by
  show Value.int (decodeUnbounded (n % 2 ^ 64)) = _
  rw [decodeUnbounded_eq]

theorem python_on (n : Nat) (r : Reader) : PythonCodec.inference.readOn n r =
    if n ≤ r.remaining then (PythonCodec.inferred <$> take PythonCodec.plus n) r
    else .ok (.int (PythonCodec.fromZigzag n), r) := rfl

theorem python_scalar {r rest : Reader} {v : PyValue} (came : python.field r = .ok (v, rest)) (items : List Value) :
    ofPython v ≠ .seq items := by
  intro same
  rcases Inference.field_value came with rfl | ⟨data, rfl⟩ | ⟨n, rfl⟩
  · cases same
  · exact guessed_ne_seq data items ((ofPython_inferred data).symm.trans same)
  · cases same

end EchoStream.Bindings.Values
