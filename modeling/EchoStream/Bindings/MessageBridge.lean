import Mathlib.Data.List.Induction
import Mathlib.Data.List.TakeWhile
import EchoStream.Bindings.StreamMetadata
import EchoStream.Proto.Postcard

/-! The messages as objects of JavaScript. An object lists its properties in an order of
its own, numbers are floating point, and the metadata of a stream is an object as well. -/

namespace EchoStream.Bindings.MessageBridge
open Foundation
open Proto Proto.Messages
open JsValues StreamMetadata

section Objects

/-- `Reflect.set`. The key of the prototype makes no property. -/
def setProperty (fields : List (String × JsValue)) (key : String) (value : JsValue) : List (String × JsValue) :=
  if key = "__proto__" then fields
  else if key ∈ fields.map Prod.fst then fields.map (fun field => if field.1 = key then (key, value) else field)
  else
    fields.takeWhile (fun field => precedes field.1 key) ++
      (key, value) :: fields.dropWhile (fun field => precedes field.1 key)

def objectOf (fields : List (String × JsValue)) : List (String × JsValue) :=
  fields.foldl (fun made field => setProperty made field.1 field.2) []

/-- The keys of an object that was made by setting its properties. -/
def Ordered (keys : List String) : Prop := Listed keys ∧ "__proto__" ∉ keys

instance (keys : List String) : Decidable (Ordered keys) := inferInstanceAs (Decidable (_ ∧ _))

theorem write_of_index? {key : String} {n : Nat} (index : index? key = some n) : Decimal.write n = key :=
  of_decide_eq_true (Option.filter_eq_some_iff.1 index).2

theorem precedes_ne {first second : String} (earlier : precedes first second = true) : first ≠ second := by
  rintro rfl
  unfold precedes at earlier
  cases index : index? first with
  | none => simp [index] at earlier
  | some n => simp [index] at earlier

theorem precedes_of_not {first second : String} (distinct : first ≠ second) (not : precedes first second = false) :
    precedes second first = true ∧ (index? second).isSome := by
  unfold precedes at not ⊢
  cases before : index? first with
  | none =>
    cases after : index? second with
    | none => simp [before, after, distinct] at not
    | some j => exact ⟨rfl, rfl⟩
  | some i =>
    cases after : index? second with
    | none => simp [before, after] at not
    | some j =>
      rw [before, after] at not
      have apart : i ≠ j := by
        rintro rfl
        exact distinct ((write_of_index? before).symm.trans (write_of_index? after))
      exact ⟨decide_eq_true (by have := of_decide_eq_false not; omega), rfl⟩

theorem precedes_trans {first second third : String} (index : (index? first).isSome)
    (earlier : precedes first second = true) (later : precedes second third = true) : precedes first third = true := by
  unfold precedes at earlier later ⊢
  obtain ⟨i, at_first⟩ := Option.isSome_iff_exists.1 index
  rw [at_first] at earlier ⊢
  cases at_third : index? third with
  | none => rfl
  | some k =>
    cases at_second : index? second with
    | none => simp [at_second, at_third] at later
    | some j =>
      rw [at_second] at earlier later
      rw [at_third] at later
      have low := of_decide_eq_true earlier
      have high := of_decide_eq_true later
      exact decide_eq_true (Nat.lt_trans low high)

theorem keys_replaced (fields : List (String × JsValue)) (key : String) (value : JsValue) :
    (fields.map (fun field => if field.1 = key then (key, value) else field)).map Prod.fst = fields.map Prod.fst := by
  rw [List.map_map]
  refine List.map_congr_left fun field _ => ?_
  by_cases same : field.1 = key
  · rw [Function.comp_apply, if_pos same, same]
  · rw [Function.comp_apply, if_neg same]

theorem setProperty_ordered {fields : List (String × JsValue)} (ordered : Ordered (fields.map Prod.fst)) (key : String)
    (value : JsValue) : Ordered ((setProperty fields key value).map Prod.fst) := by
  unfold setProperty
  split
  · exact ordered
  · rename_i named
    split
    · rw [keys_replaced]
      exact ordered
    · rename_i fresh
      obtain ⟨pairs, own⟩ := ordered
      have parts := List.takeWhile_append_dropWhile (p := fun field : String × JsValue => precedes field.1 key) (l := fields)
      rw [← parts, List.map_append] at pairs own fresh
      rw [List.map_append, List.map_cons]
      obtain ⟨front, back, across⟩ := List.pairwise_append.1 pairs
      have before : ∀ first ∈ (fields.takeWhile (fun field => precedes field.1 key)).map Prod.fst, precedes first key = true := by
        intro first among
        obtain ⟨field, inside, rfl⟩ := List.mem_map.1 among
        have taken := List.mem_takeWhile_imp inside
        exact taken
      have after : ∀ second ∈ (fields.dropWhile (fun field => precedes field.1 key)).map Prod.fst, precedes key second = true := by
        cases rest : fields.dropWhile (fun field => precedes field.1 key) with
        | nil =>
          intro second among
          cases among
        | cons field fields' =>
          have stopped : precedes field.1 key = false := by
            have head := List.head?_dropWhile_not (fun field : String × JsValue => precedes field.1 key) fields
            rw [rest] at head
            exact head
          rw [rest] at fresh back
          have distinct : field.1 ≠ key := by
            intro same
            exact fresh (List.mem_append_right _ (same ▸ List.mem_cons_self ..))
          obtain ⟨first, index⟩ := precedes_of_not distinct stopped
          intro second among
          rcases List.mem_cons.1 among with rfl | later
          · exact first
          · exact precedes_trans index first ((List.pairwise_cons.1 back).1 second later)
      refine ⟨List.pairwise_append.2 ⟨front, List.pairwise_cons.2 ⟨after, back⟩, ?_⟩, ?_⟩
      · intro first among second later
        rcases List.mem_cons.1 later with rfl | further
        · exact before first among
        · exact across first among second further
      · intro among
        rcases List.mem_append.1 among with inside | inside
        · exact own (List.mem_append_left _ inside)
        · rcases List.mem_cons.1 inside with same | further
          · exact named same.symm
          · exact own (List.mem_append_right _ further)

theorem objectOf_concat (fields : List (String × JsValue)) (field : String × JsValue) :
    objectOf (fields ++ [field]) = setProperty (objectOf fields) field.1 field.2 := List.foldl_concat ..

theorem objectOf_ordered (fields : List (String × JsValue)) : Ordered ((objectOf fields).map Prod.fst) := by
  induction fields using List.reverseRecOn with
  | nil => exact ⟨List.Pairwise.nil, List.not_mem_nil⟩
  | append_singleton fields field ih =>
    rw [objectOf_concat]
    exact setProperty_ordered ih field.1 field.2

/-- An object has the properties that it was made of, in their order, if that is the order of an object. -/
theorem objectOf_eq_iff (fields : List (String × JsValue)) : objectOf fields = fields ↔ Ordered (fields.map Prod.fst) := by
  constructor
  · intro same
    rw [← same]
    exact objectOf_ordered fields
  · induction fields using List.reverseRecOn with
    | nil => exact fun _ => rfl
    | append_singleton fields field ih =>
      rintro ⟨pairs, own⟩
      rw [List.map_append] at pairs own
      obtain ⟨front, -, across⟩ := List.pairwise_append.1 pairs
      have before : ∀ first ∈ fields.map Prod.fst, precedes first field.1 = true :=
        fun first among => across first among field.1 (List.mem_singleton_self _)
      have named : field.1 ≠ "__proto__" := by
        intro same
        exact own (List.mem_append_right _ (same ▸ List.mem_singleton_self _))
      have fresh : field.1 ∉ fields.map Prod.fst := fun among => precedes_ne (before _ among) rfl
      have all : ∀ other ∈ fields, precedes other.1 field.1 = true :=
        fun other among => before other.1 (List.mem_map_of_mem among)
      rw [objectOf_concat, ih ⟨front, fun among => own (List.mem_append_left _ among)⟩, setProperty, if_neg named,
        if_neg fresh, List.takeWhile_eq_self_iff.2 all, List.dropWhile_eq_nil_iff.2 all]

theorem mem_of_objectOf {fields : List (String × JsValue)} : ∀ field ∈ objectOf fields, field ∈ fields := by
  induction fields using List.reverseRecOn with
  | nil => exact fun _ among => among
  | append_singleton fields last ih =>
    rw [objectOf_concat, setProperty]
    intro field among
    have older : field ∈ objectOf fields → field ∈ fields ++ [last] := fun known => List.mem_append_left _ (ih field known)
    have newest : last ∈ fields ++ [last] := List.mem_append_right _ (List.mem_singleton_self _)
    split at among
    · exact older among
    · split at among
      · obtain ⟨other, known, same⟩ := List.mem_map.1 among
        split at same
        · exact same ▸ newest
        · exact older (same ▸ known)
      · rcases List.mem_append.1 among with front | back
        · exact older (List.takeWhile_subset _ front)
        · rcases List.mem_cons.1 back with rfl | rest
          · exact newest
          · exact older ((List.dropWhile_sublist _).subset rest)

end Objects

section Messages

-- how a number that is no integer is written, and what the engine says where there is no property to read
variable (fraction : Float64.Bits → String) (thrown : String)

def number (n : Nat) : JsValue := .number (Float64.ofNat n)

/-- A boolean is written as its name, and every such name is read as a boolean. -/
def valueToJs (value : Bytes) : JsValue :=
  match Utf8.decode? value with
  | some text => if text = "true" then .bool true else if text = "false" then .bool false else .string text
  | none => .bytes value

def metadataToJs (metadata : List StreamMetaEntry) : JsValue :=
  .object (objectOf (metadata.map (fun entry => (entry.key, valueToJs entry.value))))

def optionToJs : Option String → JsValue
  | some text => .string text
  | none => .null

def fieldsToJs : Message → List (String × JsValue)
  | .request msg =>
      [("type", .string "request"), ("id", number msg.id.toNat), ("name", .string msg.name), ("data", .bytes msg.data)]
  | .response msg =>
      [("type", .string "response"), ("id", number msg.id.toNat), ("code", number msg.code.code.toNat),
        ("message", optionToJs msg.message), ("data", .bytes msg.data)]
  | .event msg =>
      [("type", .string "event"), ("id", number msg.id.toNat), ("name", .string msg.name), ("data", .bytes msg.data)]
  | .streamOpen msg =>
      [("type", .string "streamOpen"), ("id", number msg.id.toNat), ("name", .string msg.name),
        ("metadata", metadataToJs msg.metadata)]
  | .stream msg =>
      [("type", .string "stream"), ("id", number msg.id.toNat), ("seq", number msg.seq.toNat),
        ("senderTs", number msg.senderTs.millis.toNat), ("data", .bytes msg.data)]
  | .streamEnd msg =>
      [("type", .string "streamEnd"), ("id", number msg.id.toNat), ("code", number msg.code.toNat),
        ("message", optionToJs msg.message), ("metadata", metadataToJs msg.metadata)]

def messageToJs (msg : Message) : JsValue := .object (objectOf (fieldsToJs msg))

def reflectGet (obj : JsValue) (key : String) : Except String JsValue :=
  match obj with
  | .object _ | .array _ | .bytes _ => .ok (obj.property key)
  | _ => .error ("字段 " ++ key ++ " 读取失败: " ++ thrown)

def getStr (obj : JsValue) (key : String) : Except String String := do
  match ← reflectGet thrown obj key with
  | .string text => .ok text
  | _ => .error ("字段 " ++ key ++ " 必须是字符串")

def getU64 (obj : JsValue) (key : String) : Except String UInt64 := do
  match ← reflectGet thrown obj key with
  | .number bits =>
      if Float64.isFinite bits && Float64.nonnegative bits then .ok (Float64.toUInt64 bits)
      else .error ("字段 " ++ key ++ " 必须是整数")
  | .bigint n => if 0 ≤ n ∧ n < 2 ^ 64 then .ok (UInt64.ofNat n.toNat) else .error ("字段 " ++ key ++ " 超出 u64 范围")
  | _ => .error ("字段 " ++ key ++ " 必须是整数")

def getOptStr (obj : JsValue) (key : String) : Except String (Option String) := do
  match ← reflectGet thrown obj key with
  | .null | .undefined => .ok none
  | .string text => .ok (some text)
  | _ => .error ("字段 " ++ key ++ " 必须是字符串或 null")

def getBytes (obj : JsValue) (key : String) : Except String Bytes := do
  match ← reflectGet thrown obj key with
  | .bytes data => .ok data
  | _ => .error ("字段 " ++ key ++ " 必须是 Uint8Array")

def jsToMessage (v : JsValue) : Except String Message := do
  let ty ← getStr thrown v "type"
  let id ← getU64 thrown v "id"
  match ty with
  | "request" => return .request ⟨id, ← getStr thrown v "name", ← getBytes thrown v "data"⟩
  | "response" =>
      return .response ⟨id, ⟨(← getU64 thrown v "code").toUInt16⟩, ← getOptStr thrown v "message", ← getBytes thrown v "data"⟩
  | "event" => return .event ⟨id, ← getStr thrown v "name", ← getBytes thrown v "data"⟩
  | "streamOpen" => return .streamOpen ⟨id, ← getStr thrown v "name", ← getMetadata fraction v⟩
  | "stream" =>
      return .stream ⟨id, ← getU64 thrown v "seq", ⟨← getU64 thrown v "senderTs"⟩, ← getBytes thrown v "data"⟩
  | "streamEnd" =>
      return .streamEnd ⟨id, (← getU64 thrown v "code").toUInt16, ← getOptStr thrown v "message", ← getMetadata fraction v⟩
  | other => .error ("未知消息类型: " ++ other)

def encodeMessage (codec : Postcard.Codec Message) (v : JsValue) : Except String Bytes :=
  (jsToMessage fraction thrown v).bind (fun msg => (codec.toAllocvec msg).mapError ("编码失败: " ++ ·))

def decodeMessage (codec : Postcard.Codec Message) (bytes : Bytes) : Except String JsValue :=
  ((codec.fromBytes bytes).mapError ("解码失败: " ++ ·)).map messageToJs

/-- The messages that are the same as objects. -/
def Bridged : Message → Prop
  | .request msg => Float64.Exact msg.id
  | .response msg => Float64.Exact msg.id
  | .event msg => Float64.Exact msg.id
  | .streamOpen msg => Float64.Exact msg.id ∧ Ordered (msg.metadata.map StreamMetaEntry.key)
  | .stream msg => Float64.Exact msg.id ∧ Float64.Exact msg.seq ∧ Float64.Exact msg.senderTs.millis
  | .streamEnd msg => Float64.Exact msg.id ∧ Ordered (msg.metadata.map StreamMetaEntry.key)

theorem fieldsToJs_ordered (msg : Message) : Ordered ((fieldsToJs msg).map Prod.fst) := by
  cases msg with
  | request msg => exact (by decide : Ordered ["type", "id", "name", "data"])
  | response msg => exact (by decide : Ordered ["type", "id", "code", "message", "data"])
  | event msg => exact (by decide : Ordered ["type", "id", "name", "data"])
  | streamOpen msg => exact (by decide : Ordered ["type", "id", "name", "metadata"])
  | stream msg => exact (by decide : Ordered ["type", "id", "seq", "senderTs", "data"])
  | streamEnd msg => exact (by decide : Ordered ["type", "id", "code", "message", "metadata"])

theorem messageToJs_eq (msg : Message) : messageToJs msg = .object (fieldsToJs msg) := by
  rw [messageToJs, (objectOf_eq_iff _).2 (fieldsToJs_ordered msg)]

theorem jsEntry_valueToJs (key : String) (value : Bytes) :
    jsEntry fraction (key, valueToJs value) = .ok (some ⟨key, value⟩) := by
  unfold valueToJs
  cases decoded : Utf8.decode? value with
  | none => rfl
  | some text =>
    have encoded : Utf8.encode text = value := Utf8.decode?_eq_some.1 decoded
    rw [← encoded]
    dsimp only
    by_cases yes : text = "true"
    · rw [if_pos yes, yes]
      rfl
    · by_cases no : text = "false"
      · rw [if_neg yes, if_pos no, no]
        rfl
      · rw [if_neg yes, if_neg no]
        rfl

theorem collect_mem {α : Type} {entry : α → Except String (Option StreamMetaEntry)} {made : α → StreamMetaEntry}
    {items : List α} (each : ∀ item ∈ items, entry item = .ok (some (made item))) :
    collect entry items = .ok (items.map made) := by
  induction items with
  | nil => rfl
  | cons item rest ih =>
    rw [collect, each item (List.mem_cons_self ..)]
    dsimp only
    rw [ih (fun other later => each other (List.mem_cons_of_mem _ later))]
    rfl

section Getters

variable (fields : List (String × JsValue)) (key : String)

theorem getStr_of {text : String} (found : fields.lookup key = some (.string text)) :
    getStr thrown (.object fields) key = .ok text := by
  rw [getStr, reflectGet, JsValue.property, found]
  rfl

theorem getU64_of {n : UInt64} (found : fields.lookup key = some (number n.toNat)) :
    getU64 thrown (.object fields) key = .ok (Float64.toUInt64 (Float64.ofNat n.toNat)) := by
  obtain ⟨finite, positive⟩ := Float64.ofNat_finite n
  rw [getU64, reflectGet, JsValue.property, found]
  show (if Float64.isFinite (Float64.ofNat n.toNat) && Float64.nonnegative (Float64.ofNat n.toNat) then _ else _) = _
  rw [finite, positive]
  rfl

theorem getCode_of {n : UInt16} (found : fields.lookup key = some (number n.toNat)) :
    getU64 thrown (.object fields) key = .ok n.toUInt64 := by
  have wide : n.toUInt64.toNat = n.toNat := UInt16.toNat_toUInt64 n
  have small : n.toUInt64.toNat < 2 ^ 53 := by
    have below := n.toNat_lt
    omega
  rw [← wide] at found
  rw [getU64_of thrown fields key found, (Float64.toUInt64_ofNat _).2 (Float64.exact_of_small small)]

theorem getOptStr_of {text : Option String} (found : fields.lookup key = some (optionToJs text)) :
    getOptStr thrown (.object fields) key = .ok text := by
  rw [getOptStr, reflectGet, JsValue.property, found]
  cases text <;> rfl

theorem getBytes_of {data : Bytes} (found : fields.lookup key = some (.bytes data)) :
    getBytes thrown (.object fields) key = .ok data := by
  rw [getBytes, reflectGet, JsValue.property, found]
  rfl

/-- Metadata comes back as it was if its keys are those of an object, in the order of an object. -/
theorem getMetadata_of {metadata : List StreamMetaEntry} (found : fields.lookup "metadata" = some (metadataToJs metadata)) :
    ∃ entries, getMetadata fraction (.object fields) = .ok entries ∧
      (entries = metadata ↔ Ordered (metadata.map StreamMetaEntry.key)) := by
  let field : StreamMetaEntry → String × JsValue := fun entry => (entry.key, valueToJs entry.value)
  let entry : String × JsValue → StreamMetaEntry :=
    fun item => ((jsEntry fraction item).toOption.bind id).getD ⟨item.1, []⟩
  have back : ∀ known, entry (field known) = known := by
    intro known
    show ((jsEntry fraction (known.key, valueToJs known.value)).toOption.bind id).getD _ = known
    rw [jsEntry_valueToJs]
    rfl
  have listed : ∀ item ∈ objectOf (metadata.map field), field (entry item) = item ∧ jsEntry fraction item = .ok (some (entry item)) := by
    intro item among
    obtain ⟨known, -, rfl⟩ := List.mem_map.1 (mem_of_objectOf item among)
    rw [back]
    exact ⟨rfl, jsEntry_valueToJs fraction known.key known.value⟩
  have keys : (metadata.map field).map Prod.fst = metadata.map StreamMetaEntry.key := by
    rw [List.map_map]
    rfl
  refine ⟨(objectOf (metadata.map field)).map entry, ?_, ?_⟩
  · rw [getMetadata, JsValue.property, found]
    exact collect_mem fun item among => (listed item among).2
  · rw [← keys, ← objectOf_eq_iff]
    constructor
    · intro same
      conv_rhs => rw [← same, List.map_map]
      exact (List.map_id'' (fun _ => rfl) _).symm.trans (List.map_congr_left fun item among => (listed item among).1.symm)
    · intro same
      rw [same, List.map_map]
      exact (List.map_congr_left fun known _ => back known).trans (List.map_id _)

end Getters

def passed (n : UInt64) : UInt64 := Float64.toUInt64 (Float64.ofNat n.toNat)

theorem passed_iff (n : UInt64) : passed n = n ↔ Float64.Exact n := Float64.toUInt64_ofNat n

theorem jsToMessage_messageToJs (msg : Message) :
    jsToMessage fraction thrown (messageToJs msg) = .ok msg ↔ Bridged msg := by
  rw [messageToJs_eq]
  cases msg with
  | request msg =>
    have read : jsToMessage fraction thrown (.object (fieldsToJs (.request msg))) =
        .ok (.request ⟨passed msg.id, msg.name, msg.data⟩) := by
      rw [jsToMessage, getStr_of thrown _ "type" rfl, getU64_of thrown _ "id" rfl, getStr_of thrown _ "name" rfl,
        getBytes_of thrown _ "data" rfl]
      rfl
    obtain ⟨id, name, data⟩ := msg
    rw [read, Bridged, ← passed_iff]
    simp
  | response msg =>
    have code : getU64 thrown (.object (fieldsToJs (.response msg))) "code" = .ok msg.code.code.toUInt64 :=
      getCode_of thrown _ "code" rfl
    have read : jsToMessage fraction thrown (.object (fieldsToJs (.response msg))) =
        .ok (.response ⟨passed msg.id, ⟨msg.code.code.toUInt64.toUInt16⟩, msg.message, msg.data⟩) := by
      rw [jsToMessage, getStr_of thrown _ "type" rfl, getU64_of thrown _ "id" rfl, code, getOptStr_of thrown _ "message" rfl,
        getBytes_of thrown _ "data" rfl]
      rfl
    obtain ⟨id, ⟨code⟩, message, data⟩ := msg
    rw [read, Bridged, ← passed_iff]
    simp
  | event msg =>
    have read : jsToMessage fraction thrown (.object (fieldsToJs (.event msg))) =
        .ok (.event ⟨passed msg.id, msg.name, msg.data⟩) := by
      rw [jsToMessage, getStr_of thrown _ "type" rfl, getU64_of thrown _ "id" rfl, getStr_of thrown _ "name" rfl,
        getBytes_of thrown _ "data" rfl]
      rfl
    obtain ⟨id, name, data⟩ := msg
    rw [read, Bridged, ← passed_iff]
    simp
  | streamOpen msg =>
    obtain ⟨entries, metadata, keys⟩ := getMetadata_of fraction (fieldsToJs (.streamOpen msg)) rfl
    have read : jsToMessage fraction thrown (.object (fieldsToJs (.streamOpen msg))) =
        .ok (.streamOpen ⟨passed msg.id, msg.name, entries⟩) := by
      rw [jsToMessage, getStr_of thrown _ "type" rfl, getU64_of thrown _ "id" rfl, getStr_of thrown _ "name" rfl, metadata]
      rfl
    rw [read, Bridged, ← passed_iff, ← keys]
    obtain ⟨id, name, metadata⟩ := msg
    simp
  | stream msg =>
    have read : jsToMessage fraction thrown (.object (fieldsToJs (.stream msg))) =
        .ok (.stream ⟨passed msg.id, passed msg.seq, ⟨passed msg.senderTs.millis⟩, msg.data⟩) := by
      rw [jsToMessage, getStr_of thrown _ "type" rfl, getU64_of thrown _ "id" rfl, getU64_of thrown _ "seq" rfl,
        getU64_of thrown _ "senderTs" rfl, getBytes_of thrown _ "data" rfl]
      rfl
    obtain ⟨id, seq, ⟨millis⟩, data⟩ := msg
    rw [read, Bridged, ← passed_iff, ← passed_iff, ← passed_iff]
    simp
  | streamEnd msg =>
    obtain ⟨entries, metadata, keys⟩ := getMetadata_of fraction (fieldsToJs (.streamEnd msg)) rfl
    have code : getU64 thrown (.object (fieldsToJs (.streamEnd msg))) "code" = .ok msg.code.toUInt64 :=
      getCode_of thrown _ "code" rfl
    have read : jsToMessage fraction thrown (.object (fieldsToJs (.streamEnd msg))) =
        .ok (.streamEnd ⟨passed msg.id, msg.code.toUInt64.toUInt16, msg.message, entries⟩) := by
      rw [jsToMessage, getStr_of thrown _ "type" rfl, getU64_of thrown _ "id" rfl, code, getOptStr_of thrown _ "message" rfl,
        metadata]
      rfl
    rw [read, Bridged, ← passed_iff, ← keys]
    obtain ⟨id, code, message, metadata⟩ := msg
    simp

theorem mapError_eq_ok {ε ε' α : Type} {say : ε → ε'} {outcome : Except ε α} {value : α} :
    outcome.mapError say = .ok value ↔ outcome = .ok value := by
  cases outcome <;> simp [Except.mapError]

/-- Bytes of a message that become an object and are bytes again. The numbers must have no
more than 53 bits in use, or be the largest there is, and metadata must have the keys of an
object in the order of an object. -/
theorem bridge_exact_iff {codec : Postcard.Codec Message} (inverse : codec.Inverse) {msg : Message} {payload : Bytes}
    (encoded : codec.toAllocvec msg = .ok payload) :
    (decodeMessage codec payload).bind (encodeMessage fraction thrown codec) = .ok payload ↔ Bridged msg := by
  have decoded : decodeMessage codec payload = .ok (messageToJs msg) := by
    rw [decodeMessage, inverse msg payload encoded]
    rfl
  rw [decoded, ← jsToMessage_messageToJs fraction thrown, Except.bind, encodeMessage]
  cases back : jsToMessage fraction thrown (messageToJs msg) with
  | error e =>
    constructor <;> intro same <;> cases same
  | ok other =>
    rw [Except.bind, mapError_eq_ok, Except.ok.injEq]
    constructor
    · intro same
      -- the bytes of both are the same, and only one message has them
      exact Except.ok.inj ((inverse other payload same).symm.trans (inverse msg payload encoded))
    · intro same
      rw [same]
      exact encoded

/-- The frame of a stream, with indices among the keys of its metadata. -/
private def counted (first second : UInt8) : Bytes := [3, 7, 2, 97, 118, 3, 1, first, 1, 98, 1, second, 1, 97, 3, 102, 112, 115, 0]

theorem bridge_exact_iff_indices :
    (decodeMessage Postcard.wire (counted 50 57)).bind (encodeMessage (fun _ => "") "TypeError" Postcard.wire) =
        .ok (counted 50 57) ∧
      (decodeMessage Postcard.wire (counted 57 50)).bind (encodeMessage (fun _ => "") "TypeError" Postcard.wire) ≠
        .ok (counted 57 50) := by
  have kept : Postcard.wire.toAllocvec (.streamOpen ⟨7, "av", [⟨"2", [98]⟩, ⟨"9", [97]⟩, ⟨"fps", []⟩]⟩) = .ok (counted 50 57) := by
    decide +kernel
  have turned : Postcard.wire.toAllocvec (.streamOpen ⟨7, "av", [⟨"9", [98]⟩, ⟨"2", [97]⟩, ⟨"fps", []⟩]⟩) = .ok (counted 57 50) := by
    decide +kernel
  constructor
  · exact (bridge_exact_iff _ _ Postcard.wire_inverse kept).2 ⟨Float64.exact_of_small (by decide), by decide +kernel⟩
  · intro same
    have bridged := (bridge_exact_iff _ _ Postcard.wire_inverse turned).1 same
    exact absurd bridged.2 (by decide +kernel)

end Messages

end EchoStream.Bindings.MessageBridge
