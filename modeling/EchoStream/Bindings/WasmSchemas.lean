import EchoStream.Bindings.WasmCodec

/-! Schemas in the browser, which are values of JavaScript themselves. A payload is written
without its types; who knows them describes them by a schema, and what is read by it is
the value again, but for the few values that the two directions do not share. -/

namespace EchoStream.Bindings.WasmSchemas
open Foundation Foundation.Reading
open Proto Proto.Messages Proto.Payload Proto.DynamicCodec JsValues

def namedSchema (text : String) : Outcome Schema :=
  if text = "auto" ∨ text = "json" then .ok .auto
  else if text = "number" ∨ text = "int" ∨ text = "i64" then .ok (.prim .number)
  else if text = "bigint" then .ok (.prim .bigint)
  else if text = "u64" then .ok (.prim .u64)
  else if text = "bool" ∨ text = "boolean" then .ok (.prim .bool)
  else if text = "string" ∨ text = "str" then .ok (.prim .str)
  else if text = "bytes" ∨ text = "buffer" then .ok (.prim .bytes)
  else if text = "f64" ∨ text = "float" then .ok (.prim .f64)
  else if text = "f32" then .ok (.prim .f32)
  else if text = "list" ∨ text = "array" then .ok (.list .auto)
  else .err ("未知 schema: " ++ text)

mutual

/-- The properties of a buffer are its bytes, which are no schemas. -/
def js_to_schema : JsValue → Outcome Schema
  | .undefined => pure .auto
  | .null => pure .auto
  | .string text => namedSchema text
  | .array items => do
      let schemas ← itemsToSchemas items
      pure (.seq schemas)
  | .object fields => do
      let fields ← fieldsToSchemas fields
      pure (.map fields)
  | .bytes [] => pure (.map [])
  | _ => .err "schema 必须是字符串 / 数组 / 对象"

def itemsToSchemas : List JsValue → Outcome (List Schema)
  | [] => pure []
  | item :: items => do
      let first ← js_to_schema item
      let rest ← itemsToSchemas items
      pure (first :: rest)

def fieldsToSchemas : List (String × JsValue) → Outcome (List (String × Schema))
  | [] => pure []
  | (key, item) :: items => do
      let first ← js_to_schema item
      let rest ← fieldsToSchemas items
      pure ((key, first) :: rest)

end

def decode_payload (bytes : Bytes) (schema : JsValue) : Outcome JsValue := do
  let schema ← js_to_schema schema
  WasmCodec.decode_payload bytes schema

/-- The integers that are written as such. -/
def small (bits : Float64.Bits) : Bool :=
  match Float64.toInt? bits with
  | some n => n.natAbs ≤ 2 ^ 53
  | none => false

def signed (text : String) : Prop := text = "number" ∨ text = "int" ∨ text = "i64" ∨ text = "bigint"

mutual

/-- The schema says of every part of the value what it is: there are a value's fields in
its own order, and nothing is left to be inferred. -/
def Describes : JsValue → JsValue → Prop
  | .string kind, .bool _ => kind = "bool" ∨ kind = "boolean"
  | .string kind, .number bits =>
      if small bits then signed kind else Float64.isFinite bits = true ∧ (kind = "f64" ∨ kind = "float")
  | .string kind, .bigint n =>
      if 0 ≤ n then n < 2 ^ 64 ∧ kind = "u64" else -2 ^ 63 ≤ n ∧ signed kind
  | .string kind, .string _ => kind = "string" ∨ kind = "str"
  | .string kind, .bytes _ => kind = "bytes" ∨ kind = "buffer"
  | .array schemas, .array items => DescribesEach schemas items
  | .object schemas, .object fields => DescribesFields schemas fields
  | _, _ => False

def DescribesEach : List JsValue → List JsValue → Prop
  | [], [] => True
  | schema :: schemas, item :: items => Describes schema item ∧ DescribesEach schemas items
  | _, _ => False

def DescribesFields : List (String × JsValue) → List (String × JsValue) → Prop
  | [], [] => True
  | (name, schema) :: schemas, (key, item) :: fields =>
      name = key ∧ Describes schema item ∧ DescribesFields schemas fields
  | _, _ => False

end

mutual

/-- There is one pattern of zero on the other side, an integer up to `2 ^ 53` comes back as
a number, and the property `__proto__` is the prototype of the object that is built. -/
def Kept : JsValue → Prop
  | .number bits => bits ≠ Float64.negativeZero
  | .bigint n => 2 ^ 53 < n.natAbs
  | .array items => KeptEach items
  | .object fields => KeptFields fields
  | _ => True

def KeptEach : List JsValue → Prop
  | [] => True
  | item :: items => Kept item ∧ KeptEach items

def KeptFields : List (String × JsValue) → Prop
  | [] => True
  | (key, item) :: fields => key ≠ "__proto__" ∧ Kept item ∧ KeptFields fields

end

variable {m : Machine}

/-- Both sides of the call understand the schema and the value, and what comes back. -/
structure Understood (m : Machine) (schema v : JsValue) (s : Schema) (d : DynamicCodec.Dynamic) : Prop where
  parsed : js_to_schema schema = .ok s
  sent : WasmCodec.js_to_dynamic v = .ok d
  shape : HasShape m s d
  plain : writeAs s d = Writer.value d
  back : WasmCodec.dynamic_to_js d = v ↔ Kept v

theorem signed_schema {kind : String} (name : signed kind) :
    js_to_schema (.string kind) = .ok (.prim .number) ∨ js_to_schema (.string kind) = .ok (.prim .bigint) := by
  rcases name with rfl | rfl | rfl | rfl
  · exact .inl rfl
  · exact .inl rfl
  · exact .inl rfl
  · exact .inr rfl

theorem understood_signed {kind : String} (name : signed kind) {v : JsValue} {n : Int64}
    (sent : WasmCodec.js_to_dynamic v = .ok (.int n)) (back : WasmCodec.dynamic_to_js (.int n) = v ↔ Kept v) :
    ∃ s d, Understood m (.string kind) v s d := by
  rcases signed_schema name with parsed | parsed
  · exact ⟨_, _, parsed, sent, trivial, rfl, back⟩
  · exact ⟨_, _, parsed, sent, trivial, rfl, back⟩

theorem small_iff {bits : Float64.Bits} : small bits = true ↔ ∃ n, Float64.toInt? bits = some n ∧ n.natAbs ≤ 2 ^ 53 := by
  unfold small
  cases Float64.toInt? bits with
  | some n =>
    exact decide_eq_true_iff.trans ⟨fun bound => ⟨n, rfl, bound⟩, fun ⟨_, same, bound⟩ => Option.some_inj.1 same ▸ bound⟩
  | none =>
    refine iff_of_false Bool.false_ne_true ?_
    rintro ⟨n, same, -⟩
    cases same

theorem understood_number {kind : String} {bits : Float64.Bits} (described : Describes (.string kind) (.number bits)) :
    ∃ s d, Understood m (.string kind) (.number bits) s d := by
  unfold Describes at described
  split at described
  · rename_i integer
    obtain ⟨n, stands, bound⟩ := small_iff.1 integer
    refine understood_signed described (n := Int64.ofInt n) ?_ ?_
    · rw [WasmCodec.js_to_dynamic, WasmCodec.numberToDynamic, if_pos (Float64.isFinite_of_integer stands), stands]
      exact if_pos bound
    · rw [WasmCodec.dynamic_to_js, Int64.toInt_ofInt_of_le (by omega) (by omega), WasmCodec.integerToJs, if_pos bound, Kept,
        ← Float64.ofInt_of_toInt? stands]
      exact ⟨fun same => JsValue.number.inj same, fun same => congrArg JsValue.number same⟩
  · rename_i other
    obtain ⟨finite, name⟩ := described
    have sent : WasmCodec.js_to_dynamic (.number bits) = .ok (.float bits) := by
      rw [WasmCodec.js_to_dynamic, WasmCodec.numberToDynamic, if_pos finite]
      cases stands : Float64.toInt? bits with
      | some n => exact if_neg (fun bound => other (small_iff.2 ⟨n, stands, bound⟩))
      | none => rfl
    have kept : Kept (.number bits) := by
      rw [Kept]
      rintro rfl
      exact other (by decide)
    have parsed : js_to_schema (.string kind) = .ok (.prim .f64) := by
      rcases name with rfl | rfl <;> rfl
    exact ⟨_, _, parsed, sent, trivial, rfl, iff_of_true rfl kept⟩

theorem understood_bigint {kind : String} {n : Int} (described : Describes (.string kind) (.bigint n)) :
    ∃ s d, Understood m (.string kind) (.bigint n) s d := by
  have kept : (if n.natAbs ≤ 2 ^ 53 then JsValue.number (Float64.ofInt n) else .bigint n) = .bigint n ↔ 2 ^ 53 < n.natAbs := by
    split
    · rename_i bound
      exact iff_of_false (fun same => by cases same) (Nat.not_lt.2 bound)
    · rename_i beyond
      exact iff_of_true rfl (Nat.lt_of_not_le beyond)
  unfold Describes at described
  split at described
  · rename_i positive
    obtain ⟨fits, rfl⟩ := described
    refine ⟨.prim .u64, .uint (UInt64.ofNat n.toNat), rfl, ?_, trivial, rfl, ?_⟩
    · rw [WasmCodec.js_to_dynamic, WasmCodec.bigintToDynamic, if_pos ⟨positive, fits⟩]
    · have value : ((UInt64.ofNat n.toNat).toNat : Int) = n := by
        rw [UInt64.toNat_ofNat_of_lt' (show n.toNat < 2 ^ 64 by omega)]
        omega
      rw [WasmCodec.dynamic_to_js, value, WasmCodec.integerToJs, Kept]
      exact kept
  · rename_i negative
    obtain ⟨fits, name⟩ := described
    refine understood_signed name (n := Int64.ofInt n) ?_ ?_
    · rw [WasmCodec.js_to_dynamic, WasmCodec.bigintToDynamic, if_neg (fun here => negative here.1),
        if_pos ⟨fits, by omega⟩]
    · rw [WasmCodec.dynamic_to_js, Int64.toInt_ofInt_of_le fits (by omega), WasmCodec.integerToJs, Kept]
      exact kept

/-- The same of a row of them. -/
structure EachUnderstood (m : Machine) (schemas items : List JsValue) (ss : List Schema)
    (ds : List DynamicCodec.Dynamic) : Prop where
  parsed : itemsToSchemas schemas = .ok ss
  sent : WasmCodec.itemsToDynamic items = .ok ds
  shape : EachShape m ss ds
  plain : writeEach ss ds = Writer.values ds
  back : WasmCodec.itemsToJs ds = items ↔ KeptEach items

theorem EachUnderstood.cons {schema item : JsValue} {schemas items : List JsValue} {s : Schema} {ss : List Schema}
    {d : DynamicCodec.Dynamic} {ds : List DynamicCodec.Dynamic} (first : Understood m schema item s d)
    (others : EachUnderstood m schemas items ss ds) :
    EachUnderstood m (schema :: schemas) (item :: items) (s :: ss) (d :: ds) where
  parsed := by
    rw [itemsToSchemas, first.parsed, others.parsed]
    rfl
  sent := by
    rw [WasmCodec.itemsToDynamic, first.sent, others.sent]
    rfl
  shape := ⟨first.shape, others.shape⟩
  plain := by rw [writeEach, Writer.values, first.plain, others.plain]
  back := by
    rw [WasmCodec.itemsToJs, KeptEach, ← first.back, ← others.back]
    exact List.cons_eq_cons

theorem EachUnderstood.array {schemas items : List JsValue} {ss : List Schema} {ds : List DynamicCodec.Dynamic}
    (each : EachUnderstood m schemas items ss ds) : Understood m (.array schemas) (.array items) (.seq ss) (.seq ds) where
  parsed := by
    rw [js_to_schema, each.parsed]
    rfl
  sent := by
    rw [WasmCodec.js_to_dynamic, each.sent]
    rfl
  shape := each.shape
  plain := each.plain
  back := by
    rw [WasmCodec.dynamic_to_js, Kept, ← each.back]
    exact ⟨fun same => JsValue.array.inj same, fun same => congrArg JsValue.array same⟩

/-- The same of the properties of an object. There are no more of them afterwards. -/
structure FieldsUnderstood (m : Machine) (schemas fields : List (String × JsValue)) (ss : List (String × Schema))
    (ds : List (String × DynamicCodec.Dynamic)) : Prop where
  parsed : fieldsToSchemas schemas = .ok ss
  sent : WasmCodec.fieldsToDynamic fields = .ok ds
  shape : FieldsShape m ss ds
  plain : writeFields ss ds = Writer.fieldValues ds
  many : (WasmCodec.fieldsToJs ds).length ≤ fields.length
  back : WasmCodec.fieldsToJs ds = fields ↔ KeptFields fields

theorem FieldsUnderstood.cons {key : String} {schema item : JsValue} {schemas fields : List (String × JsValue)} {s : Schema}
    {ss : List (String × Schema)} {d : DynamicCodec.Dynamic} {ds : List (String × DynamicCodec.Dynamic)}
    (first : Understood m schema item s d) (others : FieldsUnderstood m schemas fields ss ds) :
    FieldsUnderstood m ((key, schema) :: schemas) ((key, item) :: fields) ((key, s) :: ss) ((key, d) :: ds) where
  parsed := by
    rw [fieldsToSchemas, first.parsed, others.parsed]
    rfl
  sent := by
    rw [WasmCodec.fieldsToDynamic, first.sent, others.sent]
    rfl
  shape := ⟨rfl, first.shape, others.shape⟩
  plain := by rw [writeFields, Writer.fieldValues, first.plain, others.plain]
  many := by
    have fewer := others.many
    rw [WasmCodec.fieldsToJs, List.length_cons]
    split
    · omega
    · rw [List.length_cons]
      omega
  back := by
    rw [WasmCodec.fieldsToJs, KeptFields, ← first.back, ← others.back]
    by_cases prototype : key = "__proto__"
    · rw [if_pos prototype]
      refine iff_of_false ?_ (fun kept => kept.1 prototype)
      -- one property is missing
      intro same
      have fewer := others.many
      rw [same, List.length_cons] at fewer
      omega
    · rw [if_neg prototype, List.cons_eq_cons, Prod.mk.injEq]
      exact ⟨fun same => ⟨prototype, same.1.2, same.2⟩, fun kept => ⟨⟨rfl, kept.2.1⟩, kept.2.2⟩⟩

theorem FieldsUnderstood.object {schemas fields : List (String × JsValue)} {ss : List (String × Schema)}
    {ds : List (String × DynamicCodec.Dynamic)} (each : FieldsUnderstood m schemas fields ss ds) :
    Understood m (.object schemas) (.object fields) (.map ss) (.map ds) where
  parsed := by
    rw [js_to_schema, each.parsed]
    rfl
  sent := by
    rw [WasmCodec.js_to_dynamic, each.sent]
    rfl
  shape := each.shape
  plain := each.plain
  back := by
    rw [WasmCodec.dynamic_to_js, Kept, ← each.back]
    exact ⟨fun same => JsValue.object.inj same, fun same => congrArg JsValue.object same⟩

/-- By induction on the value; its items and its properties are told along with it. -/
theorem understood (v : JsValue) : ∀ schema, Describes schema v → ∃ s d, Understood m schema v s d := by
  refine @JsValue.rec (fun v => ∀ schema, Describes schema v → ∃ s d, Understood m schema v s d)
    (fun items => ∀ schemas, DescribesEach schemas items → ∃ ss ds, EachUnderstood m schemas items ss ds)
    (fun fields => ∀ schemas, DescribesFields schemas fields → ∃ ss ds, FieldsUnderstood m schemas fields ss ds)
    (fun field => ∀ schema, Describes schema field.2 → ∃ s d, Understood m schema field.2 s d)
    ?undefined ?null ?bool ?number ?bigint ?string ?bytes ?array ?object ?nil ?cons ?none ?more (fun _ _ ih => ih) v
  case undefined =>
    intro schema described
    cases schema <;> exact False.elim described
  case null =>
    intro schema described
    cases schema <;> exact False.elim described
  case bool =>
    intro b schema described
    cases schema with
    | string kind =>
      have parsed : js_to_schema (.string kind) = .ok (.prim .bool) := by
        rcases described with rfl | rfl <;> rfl
      exact ⟨_, .bool b, parsed, rfl, trivial, rfl, iff_of_true rfl trivial⟩
    | _ => exact False.elim described
  case number =>
    intro bits schema described
    cases schema with
    | string kind => exact understood_number described
    | _ => exact False.elim described
  case bigint =>
    intro n schema described
    cases schema with
    | string kind => exact understood_bigint described
    | _ => exact False.elim described
  case string =>
    intro text schema described
    cases schema with
    | string kind =>
      have parsed : js_to_schema (.string kind) = .ok (.prim .str) := by
        rcases described with rfl | rfl <;> rfl
      exact ⟨_, .str text, parsed, rfl, trivial, rfl, iff_of_true rfl trivial⟩
    | _ => exact False.elim described
  case bytes =>
    intro data schema described
    cases schema with
    | string kind =>
      have parsed : js_to_schema (.string kind) = .ok (.prim .bytes) := by
        rcases described with rfl | rfl <;> rfl
      exact ⟨_, .bytes data, parsed, rfl, trivial, rfl, iff_of_true rfl trivial⟩
    | _ => exact False.elim described
  case array =>
    intro items ih schema described
    cases schema with
    | array schemas =>
      obtain ⟨ss, ds, each⟩ := ih schemas described
      exact ⟨_, _, each.array⟩
    | _ => exact False.elim described
  case object =>
    intro fields ih schema described
    cases schema with
    | object schemas =>
      obtain ⟨ss, ds, each⟩ := ih schemas described
      exact ⟨_, _, each.object⟩
    | _ => exact False.elim described
  case nil =>
    intro schemas described
    cases schemas with
    | nil => exact ⟨[], [], rfl, rfl, trivial, rfl, iff_of_true rfl trivial⟩
    | cons schema schemas => exact False.elim described
  case cons =>
    intro item items first others schemas described
    cases schemas with
    | nil => exact False.elim described
    | cons schema schemas =>
      obtain ⟨s, d, here⟩ := first schema described.1
      obtain ⟨ss, ds, there⟩ := others schemas described.2
      exact ⟨_, _, .cons here there⟩
  case none =>
    intro schemas described
    cases schemas with
    | nil => exact ⟨[], [], rfl, rfl, trivial, rfl, Nat.le_refl 0, iff_of_true rfl trivial⟩
    | cons schema schemas => exact False.elim described
  case more =>
    rintro ⟨key, item⟩ fields first others schemas described
    cases schemas with
    | nil => exact False.elim described
    | cons schema schemas =>
      obtain ⟨name, schema⟩ := schema
      obtain ⟨rfl, described, rest⟩ := described
      obtain ⟨s, d, here⟩ := first schema described
      obtain ⟨ss, ds, there⟩ := others schemas rest
      exact ⟨_, _, .cons here there⟩

/-- A value that a schema describes can be sent. Read by the schema there is a value on the
other side, and it is the same exactly if everything in it is kept. The bytes have to fit
into the memory of the browser. -/
theorem described_returns {schema v : JsValue} (described : Describes schema v) :
    ∃ bytes, WasmCodec.encode_payload v = .ok bytes ∧
      (bytes.length < 2 ^ 32 →
        (∃ w, decode_payload bytes schema = .ok w) ∧ (decode_payload bytes schema = .ok v ↔ Kept v)) := by
  obtain ⟨s, d, known⟩ : ∃ s d, Understood (.narrow false) schema v s d := understood v schema described
  refine ⟨Writer.value d, ?_, ?_⟩
  · rw [WasmCodec.encode_payload, known.sent]
    rfl
  · intro short
    have read : decodeWith (.narrow false) (Writer.value d) s = .ok d := by
      have within : 0 + (writeAs s d).length < 2 ^ (Machine.narrow false).bits := by
        rw [Nat.zero_add, known.plain]
        exact short
      have alone := shape_back s d known.shape (rust (.narrow false)).inside 0 [] within
      rw [List.append_nil, known.plain] at alone
      refine Dialect.decode_ok.2 ⟨⟨0 + (Writer.value d).length, []⟩, ?_, rfl⟩
      cases s with
      | auto => exact False.elim known.shape
      | _ => exact alone
    have back : decode_payload (Writer.value d) schema = .ok (WasmCodec.dynamic_to_js d) := by
      rw [decode_payload, known.parsed]
      show WasmCodec.decode_payload (Writer.value d) s = _
      rw [WasmCodec.decode_payload, read]
      rfl
    rw [back, ← known.back]
    exact ⟨⟨_, rfl⟩, fun same => Outcome.ok.inj same, fun same => congrArg Outcome.ok same⟩

/-- A struct with a whole number, a large `BigInt` and a pair, of which the pair's number is
the negative zero. -/
theorem described_returns_struct :
    let schema : JsValue := .object [("id", .string "int"), ("at", .string "u64"), ("pair", .array [.string "bool", .string "int"])]
    let v : JsValue := .object [("id", .number (Float64.ofInt 7)), ("at", .bigint (2 ^ 60)),
      ("pair", .array [.bool true, .number Float64.negativeZero])]
    Describes schema v ∧ ¬ Kept v ∧
      ∃ bytes, WasmCodec.encode_payload v = .ok bytes ∧
        (bytes.length < 2 ^ 32 →
          (∃ w, decode_payload bytes schema = .ok w) ∧ (decode_payload bytes schema = .ok v ↔ Kept v)) := by
  intro schema v
  have seven : small (Float64.ofInt 7) = true := by decide
  have zero : small Float64.negativeZero = true := by decide
  have number : Describes (.string "int") (.number (Float64.ofInt 7)) := by
    rw [Describes, if_pos seven]
    exact .inr (.inl rfl)
  have negative : Describes (.string "int") (.number Float64.negativeZero) := by
    rw [Describes, if_pos zero]
    exact .inr (.inl rfl)
  have large : Describes (.string "u64") (.bigint (2 ^ 60)) := by
    rw [Describes, if_pos (by decide)]
    exact ⟨by decide, rfl⟩
  have described : Describes schema v := ⟨rfl, number, rfl, large, rfl, ⟨.inl rfl, negative, trivial⟩, trivial⟩
  exact ⟨described, fun kept => kept.2.2.2.2.2.1.2.1 rfl, described_returns described⟩

end EchoStream.Bindings.WasmSchemas
