import EchoStream.Bindings.Values

/-! The readers in Python and in Node. They part on texts that are not UTF-8 or begin with
a mark, on numbers an odd multiple of 64 bits too large, on `"auto"` inside of another
schema, and on a field that is the prototype of an object. -/

namespace EchoStream.Bindings.PythonNode
open Foundation Foundation.Reading Foundation.Zigzag
open Proto Proto.Messages Proto.Payload Proto.Inferring JsValues PythonCodec Values

/-- The bits beyond the word are even, or each takes them for another number. -/
def bothNumber (n : Nat) : Read Reader Value :=
  if n / 2 ^ 64 % 2 = 0 then pure (.int (unzigzag (n % 2 ^ 64))) else Read.part

def bothText (data : Bytes) : Read Reader Value :=
  match Utf8.decode? data with
  | some text => if Utf8.mark.isPrefixOf data then Read.part else pure (.str text)
  | none => Read.part

/-- Bytes that may be text. A mark in front is text to the one only. -/
def bothInferred (data : Bytes) : Read Reader Value :=
  match Utf8.decode? data with
  | some text => if Utf8.mark.isPrefixOf data then Read.part else pure (.str text)
  | none => pure (.bytes data)

def bothPrim : Primitive → Read Reader Value
  | .number => do
      let n ← Payload.varint id
      bothNumber n
  | .bigint => do
      let n ← Payload.varint id
      bothNumber n
  | .u64 => (fun (n : Nat) => .int n) <$> Payload.varint id
  | .bool => (fun b => .bool (b != 0)) <$> Payload.byte "bool 越界"
  | .str => do
      let data ← PythonCodec.counted
      bothText data
  | .bytes => .bytes <$> PythonCodec.counted
  | .f64 => (fun data => ofFloat (Float64.ofBytes data)) <$> take PythonCodec.plus 8
  | .f32 => (fun data => ofFloat (Float64.ofShortBytes data)) <$> take PythonCodec.plus 4

def bothOn (n : Nat) : Read Reader Value := fun r =>
  if n ≤ r.remaining then (take PythonCodec.plus n >>= bothInferred) r else bothNumber n r

/-- What Python and Node read alike. It panics where they part. -/
def both : Dialect Value where
  prim := bothPrim
  count := Payload.varint id
  field := do
    let n ← Payload.varint id
    if n = 0 then pure (.int 0) else bothOn n
  null := .null
  seq := .seq
  record items := fun r => if ∀ item ∈ items, item.1 ≠ "__proto__" then .ok (.map items, r) else .panic
  inner nested := fun r =>
    match nested r with
    | .err text => .err text
    | _ => .panic

theorem word_agrees (n : Nat) : NodeCodec.fromZigzag n = unzigzag (n % 2 ^ 64) ↔ n / 2 ^ 64 % 2 = 0 := by
  rw [NodeCodec.fromZigzag, decodeUnbounded_eq, Int.bmod_eq_emod, unzigzag, unzigzag]
  split <;> split <;> split <;> omega

theorem number_meets (n : Nat) {v : JsValue} (right : ofNode v = .int (NodeCodec.fromZigzag n)) :
    Meets ofPython ofNode (bothNumber n) (pure (.int (PythonCodec.fromZigzag n))) (pure v) := by
  have left := python_number n
  unfold bothNumber
  by_cases even : n / 2 ^ 64 % 2 = 0
  · rw [if_pos even, ← left]
    apply Meets.give
    rw [left, right, (word_agrees n).2 even]
  · rw [if_neg even]
    apply Meets.apart
    intro input rest other x y came went same
    cases came
    cases went
    rw [left, right] at same
    exact even ((word_agrees n).1 (Value.int.inj same).symm)

/-- A mark in front is a character in Python, and is dropped in Node. -/
theorem marked_meets {data : Bytes} {text : String} (decoded : Utf8.decode? data = some text)
    (made : Option String → JsValue) (string : ∀ text, made (some text) = .string text) :
    Meets ofPython ofNode (if Utf8.mark.isPrefixOf data then Read.part else pure (.str text) : Read Reader Value)
      (pure (.str text)) (pure (made (Utf8.decode? (Utf8.unmarked data)))) := by
  cases marked : Utf8.mark.isPrefixOf data with
  | false =>
    rw [Utf8.unmarked_of_not marked, decoded, string, if_neg Bool.false_ne_true]
    exact Meets.give (x := PyValue.str text) rfl
  | true =>
    rw [Utf8.decode?_unmarked marked] at decoded
    obtain ⟨other, found, rfl⟩ := Option.map_eq_some_iff.1 decoded
    rw [found, string, if_pos rfl]
    apply Meets.apart
    intro input rest last x y came went same
    cases came
    cases went
    exact Utf8.mark_append_ne other (Value.str.inj same)

theorem text_meets (data : Bytes) :
    Meets ofPython ofNode (bothText data) (PythonCodec.readText data)
      (pure (.string (Utf8.lenient (Utf8.unmarked data)))) := by
  unfold bothText PythonCodec.readText Utf8.lenient
  cases decoded : Utf8.decode? data with
  | none =>
    apply Meets.apart
    intro input rest other x y came
    cases came
  | some text =>
    let made := fun (found : Option String) => JsValue.string (match found with
      | some text => text
      | none => String.ofList (Utf8.replaced none (Utf8.unmarked data)))
    exact marked_meets decoded made (fun _ => rfl)

theorem inferred_meets (data : Bytes) :
    Meets ofPython ofNode (bothInferred data) (pure (PythonCodec.inferred data)) (pure (NodeCodec.inferred data)) := by
  unfold bothInferred PythonCodec.inferred NodeCodec.inferred
  cases decoded : Utf8.decode? data with
  | none =>
    have none : Utf8.decode? (Utf8.unmarked data) = none := by
      cases marked : Utf8.mark.isPrefixOf data with
      | false => rwa [Utf8.unmarked_of_not marked]
      | true =>
        rw [Utf8.decode?_unmarked marked] at decoded
        exact Option.map_eq_none_iff.1 decoded
    rw [none]
    exact Meets.give (x := PyValue.bytes data) (y := JsValue.bytes data) rfl
  | some text =>
    let made := fun (found : Option String) => match found with
      | some text => JsValue.string text
      | none => JsValue.bytes data
    exact marked_meets decoded made (fun _ => rfl)

theorem float_meets (len : Nat) (f : Bytes → Float64.Bits) :
    Meets ofPython ofNode ((fun data => ofFloat (f data)) <$> take PythonCodec.plus len)
      ((fun data => .float (f data)) <$> take PythonCodec.plus len)
      ((fun data => .number (f data)) <$> take NodeCodec.plus len) := by
  apply Meets.after (take PythonCodec.plus len)
  intro data
  exact Meets.give (x := PyValue.float (f data)) (y := JsValue.number (f data)) rfl

theorem prim_meets (kind : Primitive) :
    Meets ofPython ofNode (bothPrim kind) (PythonCodec.readPrim kind) (NodeCodec.readPrim kind) := by
  cases kind with
  | number => exact Meets.after (Payload.varint id) (fun n => number_meets n (ofNode_safe _))
  | bigint => exact Meets.after (Payload.varint id) (fun n => number_meets n rfl)
  | u64 => exact Meets.after (Payload.varint id) (fun n => Meets.give (x := PyValue.int n) (ofNode_safe n).symm)
  | bool =>
    apply Meets.after (Payload.byte "bool 越界")
    intro b
    exact Meets.give (x := PyValue.bool (b != 0)) (y := JsValue.bool (b != 0)) rfl
  | str => exact Meets.after PythonCodec.counted text_meets
  | bytes =>
    apply Meets.after PythonCodec.counted
    intro data
    exact Meets.give (x := PyValue.bytes data) (y := JsValue.bytes data) rfl
  | f64 => exact float_meets 8 Float64.ofBytes
  | f32 => exact float_meets 4 Float64.ofShortBytes

theorem node_on (n : Nat) (r : Reader) : NodeCodec.inference.readOn n r =
    if n ≤ r.remaining then (NodeCodec.inferred <$> take NodeCodec.plus n) r else .ok (NodeCodec.number n, r) := rfl

theorem field_meets : Meets ofPython ofNode both.field python.field NodeCodec.node.field := by
  apply Meets.after (Payload.varint id)
  intro n
  by_cases zero : n = 0
  · have none : ofPython (.int 0) = ofNode (.number 0) := rfl
    rw [if_pos zero, if_pos zero, if_pos zero]
    exact Meets.give none
  · rw [if_neg zero, if_neg zero, if_neg zero]
    apply Meets.at_each
    intro r
    rw [bothOn, python_on, node_on]
    by_cases enough : n ≤ r.remaining
    · have taken : Meets ofPython ofNode (take PythonCodec.plus n >>= bothInferred)
          (PythonCodec.inferred <$> take PythonCodec.plus n) (NodeCodec.inferred <$> take NodeCodec.plus n) :=
        Meets.after (take PythonCodec.plus n) inferred_meets
      rw [if_pos enough, if_pos enough, if_pos enough]
      exact taken.fixed r
    · rw [if_neg enough, if_neg enough, if_neg enough]
      exact (number_meets n (ofNode_safe _)).fixed r

theorem node_scalar {r rest : Reader} {v : JsValue} (came : NodeCodec.node.field r = .ok (v, rest)) (items : List Value) :
    ofNode v ≠ .seq items := by
  intro same
  rcases Inference.field_value came with rfl | ⟨data, rfl⟩ | ⟨n, rfl⟩
  · have zero : ofNode (.number 0) = .int 0 := rfl
    cases zero.symm.trans same
  · have same : ofNode (NodeCodec.inferred data) = .seq items := same
    unfold NodeCodec.inferred at same
    split at same <;> cases same
  · cases (ofNode_safe _).symm.trans same

theorem inner_meets {nested : Read Reader Value} {first : Read Reader PyValue} {second : Read Reader JsValue}
    (meets : Meets ofPython ofNode nested first second) :
    Meets ofPython ofNode (both.inner nested) (python.inner first) (NodeCodec.node.inner second) := by
  apply Meets.at_each
  intro r
  by_cases refused : (nested r).Refused
  · obtain ⟨text, came⟩ := refused
    obtain ⟨left, failed⟩ := (meets.refused came).1
    have here : both.inner nested r = .err text := by
      show (match nested r with | .err text => _ | _ => _) = _
      rw [came]
    rw [here]
    show Meets _ _ _ (fun _ => first r) _
    rw [failed]
    exact Meets.refuse text left "未知 schema: auto"
  · have parts : both.inner nested r = .panic := by
      show (match nested r with | .err text => _ | _ => _) = _
      cases came : nested r with
      | ok pair => rfl
      | err text => exact absurd ⟨text, came⟩ refused
      | panic => rfl
    rw [parts]
    apply Meets.apart
    intro input rest other x y _ went
    cases went

theorem ofNode_record (items : List (String × JsValue)) :
    ofNode (NodeCodec.record items) =
      .map ((items.map (Dialect.named ofNode)).filter (fun item => item.1 != "__proto__")) := by
  show Value.map (ofNodeFields _) = _
  rw [ofNodeFields_eq, List.filter_map]
  rfl

theorem record_all {items : List (String × JsValue)}
    (plain : ∀ item ∈ items.map (Dialect.named ofNode), item.1 ≠ "__proto__") :
    ofNode (NodeCodec.record items) = .map (items.map (Dialect.named ofNode)) := by
  have all : (items.map (Dialect.named ofNode)).filter (fun item => item.1 != "__proto__") =
      items.map (Dialect.named ofNode) := List.filter_eq_self.2 (fun item member => bne_iff_ne.2 (plain item member))
  rw [ofNode_record, all]

theorem both_record (items : List (String × Value)) (r : Reader) :
    both.record items r = if ∀ item ∈ items, item.1 ≠ "__proto__" then .ok (.map items, r) else .panic := rfl

theorem record_ok {items : List (String × Value)} {r rest : Reader} {value : Value}
    (came : both.record items r = .ok (value, rest)) :
    (∀ item ∈ items, item.1 ≠ "__proto__") ∧ value = .map items ∧ rest = r := by
  rw [both_record] at came
  split at came
  · rename_i plain
    cases came
    exact ⟨plain, rfl, rfl⟩
  · cases came

theorem python_node : Dialect.Meet ofPython ofNode both python NodeCodec.node where
  prim := prim_meets
  count := Meets.same _
  field := field_meets
  null := ⟨rfl, rfl⟩
  seqs := ⟨fun xs => congrArg Value.seq (ofPythonItems_eq xs), fun ys => congrArg Value.seq (ofNodeItems_eq ys)⟩
  apart _ _ same := Value.seq.inj same
  scalar came := python_scalar came _
  scalars came := node_scalar came _
  record items _ _ _ came := by
    obtain ⟨_, rfl, rfl⟩ := record_ok came
    exact ⟨_, rfl, congrArg Value.map (ofPythonFields_eq items)⟩
  records items _ _ _ came := by
    obtain ⟨plain, rfl, rfl⟩ := record_ok came
    exact ⟨_, rfl, record_all plain⟩
  both items others r _ s _ _ _ came went names same := by
    cases came
    cases went
    have left : ofPython (.dict items) = .map (items.map (Dialect.named ofPython)) :=
      congrArg Value.map (ofPythonFields_eq items)
    have alike := Value.map.inj (left.symm.trans (same.trans (ofNode_record others)))
    -- Nothing is missing in the object, which would be shorter.
    have lengths : (others.map (Dialect.named ofNode)).length = (items.map (Dialect.named ofPython)).length := by
      have sizes := congrArg List.length names
      simp only [List.length_map] at sizes ⊢
      exact sizes.symm
    have whole : (others.map (Dialect.named ofNode)).filter (fun item => item.1 != "__proto__") =
        others.map (Dialect.named ofNode) := by
      apply List.filter_sublist.eq_of_length
      rw [lengths, alike]
    rw [whole] at alike
    have plain : ∀ item ∈ items.map (Dialect.named ofPython), item.1 ≠ "__proto__" := by
      rw [alike]
      exact fun item member => bne_iff_ne.1 (List.filter_eq_self.1 whole item member)
    refine ⟨alike, ?_⟩
    rw [left]
    exact if_pos plain
  built items r text failed := by
    rw [both_record] at failed
    split at failed <;> cases failed
  inner := inner_meets

end EchoStream.Bindings.PythonNode
