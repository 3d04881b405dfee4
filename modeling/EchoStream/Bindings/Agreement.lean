import EchoStream.Bindings.RustPython
import EchoStream.Bindings.PythonNode

/-! The three readers of payloads, in Rust on a machine of 64 bits, in Python and in Node. They
agree where Rust and Python do not part, nor Python and Node. The struct schemas of the
three are the same list of fields, in the order in which JavaScript lists properties. -/

namespace EchoStream.Bindings.Agreement
open Foundation Foundation.Reading
open Proto Proto.Messages Proto.Payload Proto.DynamicCodec PythonCodec NodeCodec Values

def Together (bytes : Bytes) (schema : Schema) : Prop :=
  RustPython.both.decode bytes schema ≠ .panic ∧ PythonNode.both.decode bytes schema ≠ .panic

def Accepted (checks : Bool) (bytes : Bytes) (schema : Schema) (v : Value) : Prop :=
  (∃ x, decodeWith (.wide checks) bytes schema = .ok x ∧ ofRust x = v) ∧
    (∃ y, decode_payload bytes schema = .ok y ∧ ofPython y = v) ∧
      ∃ z, decodePayload bytes schema = .ok z ∧ ofNode z = v

def Rejected (checks : Bool) (bytes : Bytes) (schema : Schema) : Prop :=
  (decodeWith (.wide checks) bytes schema).Refused ∧ (decode_payload bytes schema).Refused ∧
    (decodePayload bytes schema).Refused

def Agree (checks : Bool) (bytes : Bytes) (schema : Schema) : Prop :=
  (∃ v, Accepted checks bytes schema v) ∨ Rejected checks bytes schema

theorem agree_of_alike {checks : Bool} {bytes : Bytes} {schema : Schema}
    (left : Dialect.Alike ofRust ofPython (decodeWith (.wide checks) bytes schema) (decode_payload bytes schema))
    (right : Dialect.Alike ofPython ofNode (decode_payload bytes schema) (decodePayload bytes schema)) :
    Agree checks bytes schema := by
  rcases left with ⟨x, y, rust, python, same⟩ | ⟨rust, python⟩
  · rcases right with ⟨y', z, again, node, equal⟩ | ⟨⟨text, again⟩, _⟩
    · rw [python] at again
      cases again
      exact Or.inl ⟨ofPython y, ⟨x, rust, same⟩, ⟨y, python, rfl⟩, z, node, equal.symm⟩
    · rw [python] at again
      cases again
  · rcases right with ⟨y, z, again, _, _⟩ | ⟨_, node⟩
    · obtain ⟨text, failed⟩ := python
      rw [failed] at again
      cases again
    · exact Or.inr ⟨rust, python, node⟩

theorem together_of_accepted {checks : Bool} {bytes : Bytes} {schema : Schema} {v : Value}
    (accepted : Accepted checks bytes schema v) : Together bytes schema := by
  obtain ⟨⟨x, rust, rfl⟩, ⟨y, python, same⟩, z, node, equal⟩ := accepted
  have first := (RustPython.rust_python.decode bytes schema (ofRust x)).2 ⟨x, y, rust, python, rfl, same⟩
  have second := (PythonNode.python_node.decode bytes schema (ofRust x)).2 ⟨y, z, python, node, same, equal⟩
  constructor
  · intro panics
    cases first.symm.trans panics
  · intro panics
    cases second.symm.trans panics

/-- Where nothing leads the readers apart they agree. Where something does, they never
accept a payload as the same value. -/
theorem readers_agree (checks : Bool) (bytes : Bytes) (schema : Schema) :
    (Together bytes schema → Agree checks bytes schema) ∧
      (¬ Together bytes schema → ∀ v, ¬ Accepted checks bytes schema v) := by
  constructor
  · rintro ⟨left, right⟩
    apply agree_of_alike
    · exact (RustPython.rust_python.alike_iff bytes schema).2 (Or.inl left)
    · exact (PythonNode.python_node.alike_iff bytes schema).2 (Or.inl right)
  · exact fun parted v accepted => parted (together_of_accepted accepted)

/-- One byte that is not UTF-8 is a replacement character in Node, and malformed elsewhere. -/
theorem readers_differ : ¬ Agree true [1, 0xff] (.prim .str) := by
  have malformed : Utf8.decode? [0xff] = none := by decide +kernel
  have rust : decodeWith (.wide true) [1, 0xff] (.prim .str) = .err "UTF-8 解码失败" := by
    show Dialect.finish (DynamicCodec.readText [0xff] ⟨2, []⟩) = _
    rw [DynamicCodec.readText, malformed]
    rfl
  have node : ∃ z, decodePayload [1, 0xff] (.prim .str) = .ok z := ⟨_, rfl⟩
  rintro (⟨v, ⟨x, accepted, _⟩, _⟩ | ⟨_, _, text, refused⟩)
  · cases rust.symm.trans accepted
  · obtain ⟨z, accepted⟩ := node
    cases accepted.symm.trans refused

end EchoStream.Bindings.Agreement
