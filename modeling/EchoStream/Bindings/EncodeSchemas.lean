import Mathlib.Data.List.Perm.Basic
import EchoStream.Bindings.EncodeValues

/-! The encoders in Node, for browsers and in Python by a schema, which says what fields
there are and which of them are lists. Numbers apart they part on structs that are fields of the
struct at the top, which Node writes without their schema. -/

namespace EchoStream.Bindings.EncodeSchemas
open Foundation Foundation.Reading Foundation.Writing
open Proto Proto.Messages Proto.Payload JsValues PythonCodec Values EncodeValues

mutual

def toPySchema : EncodeSchema → PySchema
  | .auto => .other
  | .list => .list
  | .struct schemas => .dict (toPySchemas schemas)

def toPySchemas : List (String × EncodeSchema) → List (String × PySchema)
  | [] => []
  | (name, schema) :: schemas => (name, toPySchema schema) :: toPySchemas schemas

end

theorem schema_induct {holds : EncodeSchema → Prop} (auto : holds .auto) (list : holds .list)
    (struct : ∀ schemas, (∀ field ∈ schemas, holds field.2) → holds (.struct schemas)) (schema : EncodeSchema) :
    holds schema := by
  refine @EncodeSchema.rec holds (fun schemas => ∀ field ∈ schemas, holds field.2) (fun field => holds field.2) auto list
    struct ?_ ?_ (fun _ _ here => here) schema
  · exact fun _ member => absurd member List.not_mem_nil
  · exact fun _ _ here there => List.forall_mem_cons.2 ⟨here, there⟩

def fieldOf (fields : List (String × Value)) (key : String) : Value := (fields.lookup key).getD .null

mutual

/-- A list where the schema has a list, and a struct with just the fields of the schema
where it has a struct, in any order. No encoder looks at the other types. -/
def Conforms : EncodeSchema → Value → Prop
  | .auto, _ => True
  | .list, .seq _ => True
  | .struct schemas, .map fields =>
      (fields.map Prod.fst).Nodup ∧ (fields.map Prod.fst).Perm (schemas.map Prod.fst) ∧ EachConforms fields schemas
  | _, _ => False

def EachConforms (fields : List (String × Value)) : List (String × EncodeSchema) → Prop
  | [] => True
  | (key, schema) :: schemas => Conforms schema (fieldOf fields key) ∧ EachConforms fields schemas

end

theorem eachConforms_iff (fields : List (String × Value)) (schemas : List (String × EncodeSchema)) :
    EachConforms fields schemas ↔ ∀ field ∈ schemas, Conforms field.2 (fieldOf fields field.1) := by
  induction schemas with
  | nil => exact iff_of_true trivial (fun _ member => absurd member List.not_mem_nil)
  | cons field schemas ih => rw [EachConforms, ih, List.forall_mem_cons]

theorem struct_conforms {schemas : List (String × EncodeSchema)} {fields : List (String × Value)}
    (conforms : Conforms (.struct schemas) (.map fields)) {field : String × EncodeSchema} (member : field ∈ schemas) :
    field.1 ∈ fields.map Prod.fst ∧ Conforms field.2 (fieldOf fields field.1) := by
  obtain ⟨_, keys, each⟩ := conforms
  exact ⟨keys.mem_iff.2 (List.mem_map_of_mem member), (eachConforms_iff fields schemas).1 each field member⟩

/-! What is written, in order: the number of items of a list, or a leaf. -/

inductive Part where
  | count (n : Nat)
  | leaf (v : Value)

def Part.write (write : Value → Outcome Bytes) : Part → Outcome Bytes
  | .count n => pure (writeVarint n)
  | .leaf v => write v

def Part.leaf? : Part → Option Value
  | .count _ => none
  | .leaf v => some v

mutual

/-- By the schema, all the way down. -/
def parts : EncodeSchema → Value → List Part
  | .auto, v => (leaves v).map .leaf
  | .list, .seq items => .count items.length :: (leaves (.seq items)).map .leaf
  | .struct schemas, .map fields => fieldParts fields schemas
  | _, _ => []

def fieldParts (fields : List (String × Value)) : List (String × EncodeSchema) → List Part
  | [] => []
  | (key, schema) :: schemas => parts schema (fieldOf fields key) ++ fieldParts fields schemas

end

theorem fieldParts_eq (fields : List (String × Value)) (schemas : List (String × EncodeSchema)) :
    fieldParts fields schemas = schemas.flatMap (fun field => parts field.2 (fieldOf fields field.1)) := by
  induction schemas with
  | nil => rfl
  | cons field schemas ih => rw [fieldParts, ih, List.flatMap_cons]

/-- As Node has it, where only the struct at the top has a schema. -/
def nodeField : EncodeSchema → Value → List Part
  | .struct _, v => (leaves v).map .leaf
  | schema, v => parts schema v

def nodeParts : EncodeSchema → Value → List Part
  | .struct schemas, .map fields => schemas.flatMap (fun field => nodeField field.2 (fieldOf fields field.1))
  | schema, v => parts schema v

/-! The encoders write the parts. -/

theorem lookup_named {α β : Type} (f : α → β) (fields : List (String × α)) (key : String) :
    (fields.map (Dialect.named f)).lookup key = (fields.lookup key).map f := by
  induction fields with
  | nil => rfl
  | cons field fields ih =>
    rw [List.map_cons, Dialect.named, List.lookup_cons, List.lookup_cons, ih]
    cases key == field.1 <;> rfl

theorem lookup_field {fields : List (String × Value)} {key : String} (there : key ∈ fields.map Prod.fst) :
    fields.lookup key = some (fieldOf fields key) := by
  obtain ⟨field, member, rfl⟩ := List.mem_map.1 there
  have found : (fields.lookup field.1).isSome := List.lookup_isSome_iff.2 ⟨field, member, BEq.rfl⟩
  obtain ⟨v, same⟩ := Option.isSome_iff_exists.1 found
  rw [fieldOf, same]
  rfl

theorem property_field {fields : List (String × Value)} {key : String} (there : key ∈ fields.map Prod.fst) :
    (toJs (.map fields)).property key = toJs (fieldOf fields key) := by
  show ((toJsFields fields).lookup key).getD .undefined = _
  rw [toJsFields_eq, lookup_named, lookup_field there]
  rfl

theorem leaf_parts {write : Value → Outcome Bytes} (values : List Value) :
    joined (Part.write write) (values.map .leaf) = joined write values := joined_map Part.leaf values

theorem list_parts {write : Value → Outcome Bytes} (written : ∀ v, write v = joined write (leaves v)) (items : List Value) :
    joined (Part.write write) (parts .list (.seq items)) = both (pure (writeVarint items.length)) (joined write items) := by
  have inside : joined write (leaves (.seq items)) = joined write items := by
    rw [leaves, leavesOfItems_eq, joined_flatMap]
    exact joined_congr (fun item _ => (written item).symm)
  rw [parts, joined, leaf_parts, inside]
  rfl

theorem browser_list (items : List Value) :
    WasmCodec.encodeList (toJs (.seq items)) = joined (Part.write browser) (parts .list (.seq items)) := by
  rw [list_parts browser_leaves]
  show both (pure (writeVarint (toJsItems items).length)) (joined WasmCodec.encode_payload (toJsItems items)) = _
  rw [toJsItems_eq, List.length_map, joined_map]
  rfl

theorem node_list (items : List Value) :
    NodeCodec.Writer.list (toJs (.seq items)) = joined (Part.write node) (parts .list (.seq items)) := by
  rw [list_parts node_leaves]
  show both (pure (writeVarint (toJsItems items).length)) (NodeCodec.Writer.values (toJsItems items)) = _
  rw [NodeCodec.Writer.values_eq, toJsItems_eq, List.length_map, joined_map]
  rfl

theorem browser_parts {schema : EncodeSchema} {v : Value} (conforms : Conforms schema v) :
    WasmCodec.encodeBy schema (toJs v) = joined (Part.write browser) (parts schema v) := by
  induction schema using schema_induct generalizing v with
  | auto =>
    rw [parts, leaf_parts, ← browser_leaves, WasmCodec.encodeBy]
    rfl
  | list =>
    rw [WasmCodec.encodeBy]
    cases v with
    | seq items => exact browser_list items
    | _ => exact False.elim conforms
  | struct schemas ih =>
    cases v with
    | map fields =>
      have object : WasmCodec.encodeBy (.struct schemas) (toJs (.map fields)) =
          WasmCodec.encodeFields (toJs (.map fields)) schemas := by
        rw [WasmCodec.encodeBy, toJs, WasmCodec.encodeStruct]
      rw [object, WasmCodec.encodeFields_eq, parts, fieldParts_eq, joined_flatMap]
      apply joined_congr
      intro field member
      obtain ⟨there, inside⟩ := struct_conforms conforms member
      rw [property_field there, ih field member inside]
    | _ => exact False.elim conforms

theorem toPySchemas_eq (schemas : List (String × EncodeSchema)) :
    toPySchemas schemas = schemas.map (Dialect.named toPySchema) := by
  induction schemas with
  | nil => rfl
  | cons field schemas ih => rw [toPySchemas, ih, List.map_cons, Dialect.named]

theorem python_parts {schema : EncodeSchema} {v : Value} (conforms : Conforms schema v) :
    PythonCodec.Writer.valueBy (toPySchema schema) (toPython v) = joined (Part.write python) (parts schema v) := by
  induction schema using schema_induct generalizing v with
  | auto =>
    rw [parts, leaf_parts, ← python_leaves]
    cases v <;> rfl
  | list =>
    cases v with
    | seq items =>
      rw [list_parts python_leaves]
      show both (pure (writeVarint (toPythonItems items).length)) (PythonCodec.Writer.values (toPythonItems items)) = _
      rw [PythonCodec.Writer.values_eq, toPythonItems_eq, List.length_map, joined_map]
      rfl
    | _ => exact False.elim conforms
  | struct schemas ih =>
    cases v with
    | map fields =>
      show PythonCodec.Writer.fieldsBy (toPythonFields fields) (toPySchemas schemas) = joined _ (fieldParts fields schemas)
      rw [PythonCodec.Writer.fieldsBy_eq, toPySchemas_eq, joined_map, fieldParts_eq, joined_flatMap]
      apply joined_congr
      intro field member
      obtain ⟨there, inside⟩ := struct_conforms conforms member
      have found : (toPythonFields fields).lookup field.1 = some (toPython (fieldOf fields field.1)) := by
        rw [toPythonFields_eq, lookup_named, lookup_field there]
        rfl
      rw [Dialect.named, found]
      exact ih field member inside
    | _ => exact False.elim conforms

theorem node_field {schema : EncodeSchema} {v : Value} (conforms : Conforms schema v) :
    NodeCodec.Writer.field schema (toJs v) = joined (Part.write node) (nodeField schema v) := by
  cases schema with
  | auto =>
    show node v = joined _ ((leaves v).map Part.leaf)
    rw [leaf_parts, ← node_leaves]
  | list =>
    cases v with
    | seq items => exact node_list items
    | _ => exact False.elim conforms
  | struct schemas =>
    show node v = joined _ ((leaves v).map Part.leaf)
    rw [leaf_parts, ← node_leaves]

theorem node_parts {schema : EncodeSchema} {v : Value} (conforms : Conforms schema v) :
    NodeCodec.encodePayload (toJs v) schema = joined (Part.write node) (nodeParts schema v) := by
  cases schema with
  | auto => exact node_field conforms
  | list =>
    cases v with
    | seq items => exact node_list items
    | _ => exact False.elim conforms
  | struct schemas =>
    cases v with
    | map fields =>
      show NodeCodec.Writer.fields (toJs (.map fields)) schemas = joined _ (schemas.flatMap _)
      rw [NodeCodec.Writer.fields_eq, joined_flatMap]
      apply joined_congr
      intro field member
      obtain ⟨there, inside⟩ := struct_conforms conforms member
      rw [property_field there, node_field inside]
    | _ => exact False.elim conforms

/-! The leaves are the same, in whatever order. -/

/-- In the order of the schema. -/
def leavesBy (schema : EncodeSchema) (v : Value) : List Value := (parts schema v).filterMap Part.leaf?

theorem mem_leavesBy {schema : EncodeSchema} {v leaf : Value} :
    leaf ∈ leavesBy schema v ↔ Part.leaf leaf ∈ parts schema v := by
  rw [leavesBy, List.mem_filterMap]
  constructor
  · rintro ⟨part, member, same⟩
    cases part with
    | count n => cases same
    | leaf other =>
      cases same
      exact member
  · exact fun member => ⟨.leaf leaf, member, rfl⟩

theorem filterMap_leaf (values : List Value) : (values.map Part.leaf).filterMap Part.leaf? = values := by
  rw [List.filterMap_map]
  exact List.filterMap_some

theorem fieldOf_keys {fields : List (String × Value)} (distinct : (fields.map Prod.fst).Nodup) :
    (fields.map Prod.fst).map (fieldOf fields) = fields.map Prod.snd := by
  induction fields with
  | nil => rfl
  | cons field fields ih =>
    rw [List.map_cons, List.nodup_cons] at distinct
    have others : (fields.map Prod.fst).map (fieldOf (field :: fields)) = (fields.map Prod.fst).map (fieldOf fields) := by
      apply List.map_congr_left
      intro key member
      have other : key ≠ field.1 := fun same => distinct.1 (same ▸ member)
      rw [fieldOf, fieldOf, List.lookup_cons, beq_false_of_ne other]
    have first : fieldOf (field :: fields) field.1 = field.2 := by
      rw [fieldOf, List.lookup_cons_self]
      rfl
    rw [List.map_cons, List.map_cons, List.map_cons, others, ih distinct.2, first]

theorem leavesBy_perm {schema : EncodeSchema} {v : Value} (conforms : Conforms schema v) :
    (leavesBy schema v).Perm (leaves v) := by
  induction schema using schema_induct generalizing v with
  | auto =>
    rw [leavesBy, parts, filterMap_leaf]
  | list =>
    cases v with
    | seq items =>
      rw [leavesBy, parts, List.filterMap_cons, Part.leaf?, filterMap_leaf]
    | _ => exact False.elim conforms
  | struct schemas ih =>
    cases v with
    | map fields =>
      obtain ⟨distinct, keys, _⟩ := id conforms
      rw [leavesBy, parts, fieldParts_eq, List.filterMap_flatMap]
      have inside := List.Perm.flatMap_left schemas
        (fun field member => ih field member (struct_conforms conforms member).2)
      refine inside.trans ?_
      have outside := List.Perm.flatMap_right (fun key => leaves (fieldOf fields key)) keys.symm
      rw [List.flatMap_map] at outside
      have own : (fields.map Prod.fst).flatMap (fun key => leaves (fieldOf fields key)) = leaves (.map fields) := by
        rw [leaves, leavesOfFields_eq, ← fieldOf_keys distinct]
        exact (List.flatMap_map _ _ _).symm
      exact outside.trans (List.Perm.of_eq own)
    | _ => exact False.elim conforms

/-! What Node leaves out. -/

mutual

/-- There is no list in the schema. -/
def plain : EncodeSchema → Bool
  | .auto => true
  | .list => false
  | .struct schemas => plainFields schemas

def plainFields : List (String × EncodeSchema) → Bool
  | [] => true
  | (_, schema) :: schemas => plain schema && plainFields schemas

end

theorem plainFields_iff (schemas : List (String × EncodeSchema)) :
    plainFields schemas = true ↔ ∀ field ∈ schemas, plain field.2 = true := by
  induction schemas with
  | nil => exact iff_of_true rfl (fun _ member => absurd member List.not_mem_nil)
  | cons field schemas ih => rw [plainFields, Bool.and_eq_true, ih, List.forall_mem_cons]

theorem plain_iff {schema : EncodeSchema} {v : Value} (conforms : Conforms schema v) :
    plain schema = true ↔ ∀ n, Part.count n ∉ parts schema v := by
  induction schema using schema_induct generalizing v with
  | auto =>
    apply iff_of_true rfl
    intro n member
    obtain ⟨_, _, impossible⟩ := List.mem_map.1 member
    cases impossible
  | list =>
    cases v with
    | seq items => exact iff_of_false Bool.false_ne_true (fun none => none _ List.mem_cons_self)
    | _ => exact False.elim conforms
  | struct schemas ih =>
    cases v with
    | map fields =>
      rw [plain, plainFields_iff, parts, fieldParts_eq]
      constructor
      · intro lists n member
        obtain ⟨field, inside, here⟩ := List.mem_flatMap.1 member
        exact (ih field inside (struct_conforms conforms inside).2).1 (lists field inside) n here
      · intro none field inside
        apply (ih field inside (struct_conforms conforms inside).2).2
        exact fun n here => none n (List.mem_flatMap.2 ⟨field, inside, here⟩)
    | _ => exact False.elim conforms

theorem all_leaves {list : List Part} (none : ∀ n, Part.count n ∉ list) :
    (list.filterMap Part.leaf?).map Part.leaf = list := by
  induction list with
  | nil => rfl
  | cons part list ih =>
    have rest := ih (fun n member => none n (List.mem_cons_of_mem _ member))
    cases part with
    | count n => exact absurd List.mem_cons_self (none n)
    | leaf v =>
      rw [List.filterMap_cons, Part.leaf?, List.map_cons, rest]

theorem parts_room {write : Value → Outcome Bytes} {list : List Part}
    (total : ∀ leaf ∈ list.filterMap Part.leaf?, ∃ bytes, write leaf = .ok bytes) :
    ∃ out front, joined (Part.write write) list = .ok out ∧ joined write (list.filterMap Part.leaf?) = .ok front ∧
      front.length ≤ out.length ∧ (out.length ≤ front.length → ∀ n, Part.count n ∉ list) := by
  induction list with
  | nil => exact ⟨[], [], rfl, rfl, Nat.le_refl _, fun _ _ member => absurd member List.not_mem_nil⟩
  | cons part list ih =>
    cases part with
    | count n =>
      obtain ⟨out, front, whole, leaves, room, none⟩ := ih total
      have some := writeVarint_pos n
      refine ⟨writeVarint n ++ out, front, both_ok.2 ⟨_, out, rfl, whole, rfl⟩, leaves, ?_, ?_⟩
      · rw [List.length_append]
        omega
      · rw [List.length_append]
        intro short
        omega
    | leaf v =>
      obtain ⟨bytes, wrote⟩ := total v List.mem_cons_self
      obtain ⟨out, front, whole, leaves, room, none⟩ := ih (fun leaf member => total leaf (List.mem_cons_of_mem _ member))
      refine ⟨bytes ++ out, bytes ++ front, both_ok.2 ⟨bytes, out, wrote, whole, rfl⟩,
        both_ok.2 ⟨bytes, front, wrote, leaves, rfl⟩, ?_, ?_⟩
      · rw [List.length_append, List.length_append]
        omega
      · rw [List.length_append, List.length_append]
        intro short n member
        rcases List.mem_cons.1 member with same | later
        · cases same
        · exact none (by omega) n later

/-- The leaves alone, in the value's own order, take no more room than by the schema. They
are the same bytes where the schema has no list and its order makes no difference. -/
theorem leaves_fit {schema : EncodeSchema} {v : Value} (conforms : Conforms schema v)
    (total : ∀ leaf ∈ leaves v, ∃ bytes, python leaf = .ok bytes) :
    Fits (joined (Part.write python) (parts schema v)) (joined python (leaves v)) ∧
      (joined python (leaves v) = joined (Part.write python) (parts schema v) ↔
        plain schema = true ∧ joined python (leaves v) = joined python (leavesBy schema v)) := by
  have reordered := leavesBy_perm conforms
  have each : ∀ leaf ∈ leavesBy schema v, ∃ bytes, python leaf = .ok bytes :=
    fun leaf member => total leaf (reordered.mem_iff.1 member)
  obtain ⟨out, front, whole, inOrder, room, none⟩ := parts_room each
  have own := joined_written total
  have lengths : ((leaves v).flatMap (fun leaf => written (python leaf))).length = front.length := by
    have front' : front = (leavesBy schema v).flatMap (fun leaf => written (python leaf)) :=
      Outcome.ok.inj (inOrder.symm.trans (joined_written each))
    rw [front']
    exact (List.Perm.flatMap_right _ reordered).length_eq.symm
  constructor
  · refine ⟨out, whole, fun other also => ?_⟩
    rw [own] at also
    cases also
    omega
  · constructor
    · intro same
      have bytes : (leaves v).flatMap (fun leaf => written (python leaf)) = out :=
        Outcome.ok.inj (own.symm.trans (same.trans whole))
      have counts := none (by rw [← bytes, lengths])
      refine ⟨(plain_iff conforms).2 counts, ?_⟩
      rw [same, leavesBy, ← leaf_parts, all_leaves counts]
    · rintro ⟨lists, same⟩
      rw [same, leavesBy, ← leaf_parts, all_leaves ((plain_iff conforms).1 lists)]

/-! When all three write the same. -/

/-- No list is inside of a field that is a struct, and the bytes of its leaves are the same in
its own order and in that of the schema. -/
def SteadyField : EncodeSchema → Value → Prop
  | .struct schemas, v =>
      plainFields schemas = true ∧ joined python (leaves v) = joined python (leavesBy (.struct schemas) v)
  | _, _ => True

def Steady : EncodeSchema → Value → Prop
  | .struct schemas, .map fields => ∀ field ∈ schemas, SteadyField field.2 (fieldOf fields field.1)
  | _, _ => True

def Safe (v : Value) : Prop := ∀ leaf ∈ leaves v, SafeLeaf leaf

def Fine (v : Value) : Prop := ∀ leaf ∈ leaves v, FineLeaf leaf

/-- All three encoders write the value, to the same bytes. -/
def WrittenAlike (schema : EncodeSchema) (v : Value) : Prop :=
  ∃ out, NodeCodec.encodePayload (toJs v) schema = .ok out ∧ WasmCodec.encodePayload (toJs v) schema = .ok out ∧
    encode_payload (toPython v) (toPySchema schema) = .ok out

theorem field_leaves {fields : List (String × Value)} {key : String} (there : key ∈ fields.map Prod.fst) {leaf : Value}
    (member : leaf ∈ leaves (fieldOf fields key)) : leaf ∈ leaves (.map fields) := by
  have found := lookup_field there
  generalize fieldOf fields key = own at found member
  obtain ⟨front, back, whole, _⟩ := List.lookup_eq_some_iff.1 found
  have inside : own ∈ fields.map Prod.snd := by
    rw [whole, List.map_append, List.map_cons]
    exact List.mem_append_right _ List.mem_cons_self
  rw [leaves, leavesOfFields_eq]
  exact List.mem_flatMap.2 ⟨own, inside, member⟩

theorem mem_nodeParts {schema : EncodeSchema} {v leaf : Value} (conforms : Conforms schema v)
    (member : Part.leaf leaf ∈ nodeParts schema v) : leaf ∈ leaves v := by
  have whole : ∀ {schema v}, Conforms schema v → Part.leaf leaf ∈ parts schema v → leaf ∈ leaves v :=
    fun conforms member => (leavesBy_perm conforms).mem_iff.1 (mem_leavesBy.2 member)
  cases schema with
  | auto => exact whole conforms member
  | list => exact whole conforms member
  | struct schemas =>
    cases v with
    | map fields =>
      obtain ⟨field, inside, here⟩ := List.mem_flatMap.1 member
      obtain ⟨there, own⟩ := struct_conforms conforms inside
      apply field_leaves there
      revert here
      cases same : field.2 with
      | struct _ =>
        intro here
        obtain ⟨other, found, equal⟩ := List.mem_map.1 here
        cases equal
        exact found
      | _ => exact fun here => whole (same ▸ own) here
    | _ => exact False.elim conforms

/-- The browser's encoder and Python's differ only in floats. -/
theorem browser_python_iff {schema : EncodeSchema} {v : Value} (conforms : Conforms schema v) (safe : Safe v) :
    Same (joined (Part.write python) (parts schema v)) (joined (Part.write browser) (parts schema v)) ↔ Fine v := by
  have each : ∀ leaf ∈ leaves v, _ := fun leaf member => leaf_written (isLeaf_of_mem v leaf member) (safe leaf member)
  have reordered := leavesBy_perm conforms
  have inside : ∀ leaf, Part.leaf leaf ∈ parts schema v ↔ leaf ∈ leaves v :=
    fun leaf => mem_leavesBy.symm.trans reordered.mem_iff
  rw [joined_same_iff]
  · constructor
    · exact fun same leaf member => (each leaf member).2.1.1 (same _ ((inside leaf).2 member))
    · intro fine part member
      cases part with
      | count n => rfl
      | leaf v =>
        have own := (inside v).1 member
        exact (each v own).2.1.2 (fine v own)
  · intro part member
    cases part with
    | count n => exact Fits.of_eq rfl rfl
    | leaf v => exact (each v ((inside v).1 member)).1

theorem field_fits {schema : EncodeSchema} {v : Value} (conforms : Conforms schema v)
    (total : ∀ leaf ∈ leaves v, ∃ bytes, python leaf = .ok bytes) :
    Fits (joined (Part.write python) (parts schema v)) (joined (Part.write python) (nodeField schema v)) ∧
      (joined (Part.write python) (nodeField schema v) = joined (Part.write python) (parts schema v) ↔
        SteadyField schema v) := by
  have inside := leaves_fit conforms total
  have same : Fits (joined (Part.write python) (parts schema v)) (joined (Part.write python) (parts schema v)) := by
    obtain ⟨out, wrote, _⟩ := inside.1
    exact Fits.of_eq wrote rfl
  cases schema with
  | auto => exact ⟨same, iff_of_true rfl trivial⟩
  | list => exact ⟨same, iff_of_true rfl trivial⟩
  | struct schemas =>
    rw [nodeField, leaf_parts]
    exact inside

/-- Without floats that are integers Node's encoder and Python's differ in structs in the struct. -/
theorem steady_iff {schema : EncodeSchema} {v : Value} (conforms : Conforms schema v)
    (total : ∀ leaf ∈ leaves v, ∃ bytes, python leaf = .ok bytes) :
    Same (joined (Part.write python) (parts schema v)) (joined (Part.write python) (nodeParts schema v)) ↔
      Steady schema v := by
  obtain ⟨out, wrote, _⟩ := (leaves_fit conforms total).1
  cases schema with
  | auto => exact iff_of_true (Same.of_eq rfl wrote) trivial
  | list => exact iff_of_true (Same.of_eq rfl wrote) trivial
  | struct schemas =>
    cases v with
    | map fields =>
      have fits : ∀ field ∈ schemas, _ := fun field member =>
        have ⟨there, inside⟩ := struct_conforms conforms member
        field_fits inside (fun leaf here => total leaf (field_leaves there here))
      rw [parts, fieldParts_eq, nodeParts, joined_flatMap, joined_flatMap,
        joined_same_iff fun field member => (fits field member).1]
      exact forall₂_congr fun field member => (fits field member).2
    | _ => exact False.elim conforms

/-- The three encoders write a value that conforms to the schema to the same bytes just when
JavaScript takes none of its floats for an integer, and Node loses nothing with the schemas
that it drops. -/
theorem encoders_by_schema_iff {schema : EncodeSchema} {v : Value} (conforms : Conforms schema v) (safe : Safe v) :
    WrittenAlike schema v ↔ Fine v ∧ Steady schema v := by
  have each : ∀ leaf ∈ leaves v, _ := fun leaf member => leaf_written (isLeaf_of_mem v leaf member) (safe leaf member)
  have total : ∀ leaf ∈ leaves v, ∃ bytes, python leaf = .ok bytes :=
    fun leaf member => (each leaf member).1.imp fun _ fit => fit.1
  have swap : Fine v → joined (Part.write node) (nodeParts schema v) = joined (Part.write python) (nodeParts schema v) := by
    intro fine
    apply joined_congr
    intro part member
    cases part with
    | count n => rfl
    | leaf v =>
      have own := mem_nodeParts conforms member
      exact (each v own).2.2 (fine v own)
  obtain ⟨out, wrote, _⟩ := (leaves_fit conforms total).1
  rw [WrittenAlike, node_parts conforms, WasmCodec.encodePayload, browser_parts conforms, encode_payload,
    python_parts conforms, ← browser_python_iff conforms safe, ← steady_iff conforms total, same_ok wrote, same_ok wrote, wrote]
  constructor
  · rintro ⟨bytes, left, mid, right⟩
    cases right
    have fine : Fine v := (browser_python_iff conforms safe).1 ((same_ok wrote).2 mid)
    rw [swap fine] at left
    exact ⟨mid, left⟩
  · rintro ⟨mid, left⟩
    have fine : Fine v := (browser_python_iff conforms safe).1 ((same_ok wrote).2 mid)
    rw [← swap fine] at left
    exact ⟨out, left, mid, rfl⟩

/-- A list behind a struct, which stand the other way around in the value. -/
theorem encoders_by_schema_both :
    let schema : EncodeSchema := .struct [("point", .struct [("x", .auto), ("y", .auto)]), ("items", .list)]
    let v : Value :=
      .map [("items", .seq [.float 0x4004000000000000]), ("point", .map [("x", .int (-1)), ("y", .bool true)])]
    WrittenAlike schema v := by
  intro schema v
  have distinct : ["items", "point"].Nodup ∧ ["x", "y"].Nodup := by decide
  have inside : Conforms (.struct [("x", .auto), ("y", .auto)]) (.map [("x", .int (-1)), ("y", .bool true)]) :=
    ⟨distinct.2, List.Perm.refl _, trivial, trivial, trivial⟩
  have conforms : Conforms schema v := ⟨distinct.1, List.Perm.swap "point" "items" [], inside, trivial, trivial⟩
  have all : leaves v = [.float 0x4004000000000000, .int (-1), .bool true] := rfl
  have each : ∀ {holds : Value → Prop}, holds (.float 0x4004000000000000) → holds (.int (-1)) → holds (.bool true) →
      ∀ leaf ∈ leaves v, holds leaf := by
    intro holds first second third leaf member
    rw [all] at member
    simp only [List.mem_cons, List.not_mem_nil, or_false] at member
    rcases member with rfl | rfl | rfl
    · exact first
    · exact second
    · exact third
  have broken : Float64.toInt? 0x4004000000000000 = none := by decide +kernel
  have fine : FineLeaf (.float 0x4004000000000000) := by
    refine ⟨by decide +kernel, fun n integer => ?_⟩
    cases broken.symm.trans integer
  apply (encoders_by_schema_iff conforms (each trivial (show Int.natAbs (-1) ≤ _ by decide) trivial)).2
  refine ⟨each fine trivial trivial, ?_⟩
  intro field member
  simp only [List.mem_cons, List.not_mem_nil, or_false] at member
  rcases member with rfl | rfl
  · exact ⟨rfl, rfl⟩
  · trivial

/-- An empty list in a struct in a struct is nothing in Node, and a zero elsewhere. -/
theorem encoders_by_schema_differ :
    let schema : EncodeSchema := .struct [("a", .struct [("x", .list)])]
    let v : Value := .map [("a", .map [("x", .seq [])])]
    Conforms schema v ∧ Safe v ∧ ¬ WrittenAlike schema v := by
  intro schema v
  have node : NodeCodec.encodePayload (toJs v) schema = .ok [] := rfl
  have python : encode_payload (toPython v) (toPySchema schema) = .ok [0] := by decide +kernel
  refine ⟨⟨by decide, List.Perm.refl _, ⟨by decide, List.Perm.refl _, trivial, trivial⟩, trivial⟩,
    fun _ member => absurd member List.not_mem_nil, ?_⟩
  rintro ⟨out, left, _, right⟩
  cases node.symm.trans left
  cases python.symm.trans right

end EchoStream.Bindings.EncodeSchemas
