import Mathlib.Data.List.Nodup
import EchoStream.Bindings.PythonCodec
import EchoStream.Bindings.JsValues
import EchoStream.Proto.Metadata

/-! The metadata of a stream as the bindings take it. Each of them goes over a dictionary
of its language and asks the values for their kinds, in an order of its own. -/

namespace EchoStream.Bindings.StreamMetadata
open Foundation
open Proto Proto.Messages Proto.Metadata
open PythonCodec JsValues

/-- The entries one after the other, up to the first that is refused. -/
def collect {α : Type} (entry : α → Except String (Option StreamMetaEntry)) : List α → Except String (List StreamMetaEntry)
  | [] => .ok []
  | item :: rest =>
      match entry item with
      | .error e => .error e
      | .ok found => (collect entry rest).map (found.toList ++ ·)

/-- A number of serde_json, an integer or not. -/
inductive JsonNumber where
  | integer (n : Int)
  | float (bits : Float64.Bits)

inductive Json where
  | null
  | bool (b : Bool)
  | number (n : JsonNumber)
  | string (text : String)
  | array (items : List Json)
  | object (fields : List (String × Json))

section Node

-- how serde_json writes what is no integer
variable (floatText : Float64.Bits → String)

def JsonNumber.text : JsonNumber → String
  | .integer n => toString n
  | .float bits => floatText bits

def jsonEntry : String × Json → Except String (Option StreamMetaEntry)
  | (k, .string s) => .ok (some (str k s))
  | (k, .number n) => .ok (some (str k (n.text floatText)))
  | (k, .bool b) => .ok (some (str k (if b then "true" else "false")))
  | (_, .null) => .ok none
  | (k, _) => .error ("metadata 值 " ++ k ++ " 类型不支持（仅字符串/数字/布尔）")

def jsonMetaToEntries : Json → Except String (List StreamMetaEntry)
  | .object fields => collect (jsonEntry floatText) fields
  | _ => .error "metadata 必须是对象"

end Node

section Python

def extractString : PyValue → Option String
  | .str text => some text
  | _ => none

/-- A boolean is an integer in Python. -/
def extractI64 : PyValue → Option Int
  | .int n => if -2 ^ 63 ≤ n ∧ n < 2 ^ 63 then some n else none
  | .bool b => some (if b then 1 else 0)
  | _ => none

def extractBool : PyValue → Option Bool
  | .bool b => some b
  | _ => none

/-- `n as u64` -/
def asU64 (n : Int) : UInt64 := UInt64.ofNat (n % 2 ^ 64).toNat

def pyEntry (item : PyValue × PyValue) : Except String (Option StreamMetaEntry) :=
  match extractString item.1 with
  | none => .error "TypeError"
  | some key =>
      match extractString item.2 with
      | some s => .ok (some (str key s))
      | none =>
          match extractI64 item.2 with
          | some n => .ok (some (num key (asU64 n)))
          | none =>
              match extractBool item.2 with
              | some b => .ok (some (Metadata.bool key b))
              | none => .error ("metadata 值 " ++ key ++ " 类型不支持（仅字符串/数字/布尔）")

/-- What `create_stream_with_metadata` makes of its dictionary. -/
def dictToEntries (metadata : List (PyValue × PyValue)) : Except String (List StreamMetaEntry) := collect pyEntry metadata

end Python

section Wasm

-- how a number that is no integer is written
variable (fraction : Float64.Bits → String)

/-- The text of an `f64`. There is a zero with a sign. -/
def f64Text (bits : Float64.Bits) : String :=
  match Float64.toInt? bits with
  | some n => if n = 0 ∧ Float64.negative bits then "-0" else toString n
  | none => fraction bits

def ownProperties : JsValue → Option (List (String × JsValue))
  | .object fields => some fields
  | .array items =>
      some (items.mapIdx (fun i item => (toString i, item)) ++ [("length", .number (Float64.ofInt items.length))])
  | .bytes data => some (data.mapIdx (fun i byte => (toString i, .number (Float64.ofInt byte.toNat))))
  | _ => none

def jsEntry : String × JsValue → Except String (Option StreamMetaEntry)
  | (key, .string s) => .ok (some (str key s))
  | (key, .bool b) => .ok (some (Metadata.bool key b))
  | (key, .bytes data) => .ok (some ⟨key, data⟩)
  | (key, .number bits) => .ok (some (str key (f64Text fraction bits)))
  | (key, .bigint n) => .ok (some (str key (toString n)))
  | _ => .error "metadata 值必须是字符串 / 数字 / 布尔 / Uint8Array"

/-- The metadata is a property of the object. -/
def getMetadata (obj : JsValue) : Except String (List StreamMetaEntry) :=
  match obj.property "metadata" with
  | .undefined => .ok []
  | .null => .ok []
  | metadata =>
      match ownProperties metadata with
      | some fields => collect (jsEntry fraction) fields
      | none => .error "metadata 必须是对象"

end Wasm

/-- A value of any of the languages. All numbers of JavaScript up to there are integers. -/
inductive MetaValue where
  | text (s : String)
  | flag (b : Bool)
  | integer (n : Int) (safe : n.natAbs ≤ 2 ^ 53 - 1)

structure MetaMap where
  entries : List (String × MetaValue)
  distinct : (entries.map Prod.fst).Nodup

namespace MetaValue

/-- `whole` are the integers that Node hands over as such and not as floats. -/
def toJson (whole : Int → Bool) : MetaValue → Json
  | .text s => .string s
  | .flag b => .bool b
  | .integer n _ => .number (if whole n then .integer n else .float (Float64.ofInt n))

def toPy : MetaValue → PyValue
  | .text s => .str s
  | .flag b => .bool b
  | .integer n _ => .int n

def toJs : MetaValue → JsValue
  | .text s => .string s
  | .flag b => .bool b
  | .integer n _ => .number (Float64.ofInt n)

end MetaValue

def entryOf : String × MetaValue → StreamMetaEntry
  | (key, .text s) => str key s
  | (key, .flag b) => Metadata.bool key b
  | (key, .integer n _) => str key (toString n)

/-- The outcome is what the map says, up to the order of the entries. -/
def Right (map : MetaMap) (outcome : Except String (List StreamMetaEntry)) : Prop :=
  ∃ entries, outcome = .ok entries ∧ entries.Perm (map.entries.map entryOf)

/-- Three dictionaries of the map, each in an order of its own, give what the map says.
`wrap` is what the function of the web is given of its dictionary. -/
def Agree (whole : Int → Bool) (floatText fraction : Float64.Bits → String) (wrap : JsValue → JsValue) (map : MetaMap) : Prop :=
  ∀ node py js : List (String × MetaValue), node.Perm map.entries → py.Perm map.entries → js.Perm map.entries →
    Right map (jsonMetaToEntries floatText (.object (node.map (fun item => (item.1, item.2.toJson whole))))) ∧
    Right map (dictToEntries (py.map (fun item => (.str item.1, item.2.toPy)))) ∧
    Right map (getMetadata fraction (wrap (.object (js.map (fun item => (item.1, item.2.toJs))))))

/-- The object of a message has the metadata as a property. -/
def message (metadata : JsValue) : JsValue := .object [("metadata", metadata)]

/-- A text, or an integer that is not negative and that Node hands over as such. -/
def Kept (whole : Int → Bool) : MetaValue → Prop
  | .text _ => True
  | .flag _ => False
  | .integer n _ => 0 ≤ n ∧ whole n = true

theorem collect_map {α : Type} {entry : α → Except String (Option StreamMetaEntry)} {f : String × MetaValue → α}
    {g : String × MetaValue → StreamMetaEntry} (each : ∀ item, entry (f item) = .ok (some (g item)))
    (items : List (String × MetaValue)) : collect entry (items.map f) = .ok (items.map g) := by
  induction items with
  | nil => rfl
  | cons item rest ih =>
    rw [List.map_cons, collect, each, ih]
    rfl

theorem str_injective {key a b : String} (same : str key a = str key b) : a = b := by
  have texts := congrArg (fun entry => Utf8.lenient entry.value) same
  simp only [str, lenient_encode] at texts
  exact texts

theorem write_ne_negative (m : Nat) {n : Int} (negative : n < 0) : Decimal.write m ≠ toString n := by
  intro same
  cases n with
  | ofNat k => exact absurd negative (Int.not_lt.2 (Int.natCast_nonneg k))
  | negSucc k =>
    have chars := congrArg String.toList same
    have digits : (Decimal.write m).toList = Nat.toDigits 10 m := Nat.toList_repr
    have signed : (toString (Int.negSucc k)).toList = '-' :: (toString (k + 1)).toList := String.toList_append
    rw [digits, signed] at chars
    have sign : '-'.isDigit := Nat.isDigit_of_mem_toDigits (by decide) (by decide) (chars ▸ List.mem_cons_self ..)
    cases sign

theorem asU64_write {n : Int} (safe : n.natAbs ≤ 2 ^ 53 - 1) : Decimal.write (asU64 n).toNat = toString n ↔ 0 ≤ n := by
  constructor
  · intro same
    by_contra negative
    exact write_ne_negative _ (Int.not_le.1 negative) same
  · intro positive
    obtain ⟨m, rfl⟩ := Int.eq_ofNat_of_zero_le positive
    have kept : (asU64 m).toNat = m := by
      rw [asU64, UInt64.toNat_ofNat']
      omega
    rw [kept]
    rfl

theorem f64Text_ofInt (fraction : Float64.Bits → String) {n : Int} (safe : n.natAbs ≤ 2 ^ 53 - 1) :
    f64Text fraction (Float64.ofInt n) = toString n := by
  have integer : Float64.toInt? (Float64.ofInt n) = some n := Float64.toInt?_ofInt (Nat.le_trans safe (Nat.sub_le ..))
  rw [f64Text, integer]
  by_cases zero : n = 0
  · rw [zero]
    rfl
  · exact if_neg (fun both => zero both.1)

def nodeOf (whole : Int → Bool) (floatText : Float64.Bits → String) : String × MetaValue → StreamMetaEntry
  | (key, .text s) => str key s
  | (key, .flag b) => Metadata.bool key b
  | (key, .integer n _) => str key (if whole n then toString n else floatText (Float64.ofInt n))

def pyOf : String × MetaValue → StreamMetaEntry
  | (key, .text s) => str key s
  | (key, .flag b) => num key (if b then 1 else 0)
  | (key, .integer n _) => num key (asU64 n)

theorem jsonEntry_of (whole : Int → Bool) (floatText : Float64.Bits → String) (item : String × MetaValue) :
    jsonEntry floatText (item.1, item.2.toJson whole) = .ok (some (nodeOf whole floatText item)) := by
  obtain ⟨key, value⟩ := item
  cases value with
  | text s => rfl
  | flag b => rfl
  | integer n safe =>
    rw [nodeOf, MetaValue.toJson, jsonEntry]
    cases whole n <;> rfl

theorem pyEntry_of (item : String × MetaValue) : pyEntry (.str item.1, item.2.toPy) = .ok (some (pyOf item)) := by
  obtain ⟨key, value⟩ := item
  cases value with
  | text s => rfl
  | flag b => cases b <;> rfl
  | integer n safe =>
    have within : -2 ^ 63 ≤ n ∧ n < 2 ^ 63 := by omega
    have extracted : extractI64 (.int n) = some n := if_pos within
    simp only [pyEntry, extractString, MetaValue.toPy, extracted]
    rfl

theorem jsEntry_of (fraction : Float64.Bits → String) (item : String × MetaValue) :
    jsEntry fraction (item.1, item.2.toJs) = .ok (some (entryOf item)) := by
  obtain ⟨key, value⟩ := item
  cases value with
  | text s => rfl
  | flag b => rfl
  | integer n safe => rw [MetaValue.toJs, jsEntry, f64Text_ofInt fraction safe, entryOf]

theorem nodeOf_eq {whole : Int → Bool} {floatText : Float64.Bits → String} (pointed : ∀ bits (n : Int), floatText bits ≠ toString n)
    (key : String) {n : Int} (safe : n.natAbs ≤ 2 ^ 53 - 1) :
    nodeOf whole floatText (key, .integer n safe) = entryOf (key, .integer n safe) ↔ whole n = true := by
  rw [nodeOf, entryOf]
  cases whole n with
  | true => exact ⟨fun _ => rfl, fun _ => rfl⟩
  | false =>
    constructor
    · intro same
      exact absurd (str_injective same) (pointed _ n)
    · rintro ⟨⟩

theorem pyOf_eq (key : String) {n : Int} (safe : n.natAbs ≤ 2 ^ 53 - 1) :
    pyOf (key, .integer n safe) = entryOf (key, .integer n safe) ↔ 0 ≤ n := by
  rw [← asU64_write safe]
  constructor
  · exact str_injective
  · exact congrArg (str key)

theorem pyOf_flag (key : String) (b : Bool) : pyOf (key, .flag b) ≠ entryOf (key, .flag b) := by
  intro same
  have texts : Decimal.write (if b then (1 : UInt64) else 0).toNat = if b then "true" else "false" := str_injective same
  revert texts
  cases b <;> decide

theorem eq_of_perm {map : MetaMap} {f : String × MetaValue → StreamMetaEntry} (keyed : ∀ item, (f item).key = item.1)
    (perm : (map.entries.map f).Perm (map.entries.map entryOf)) {item : String × MetaValue} (member : item ∈ map.entries) :
    f item = entryOf item := by
  obtain ⟨other, among, same⟩ := List.mem_map.1 (perm.mem_iff.1 (List.mem_map_of_mem member))
  have keys : other.1 = item.1 := by
    rw [← keyed item, ← same]
    rcases other with ⟨key, text | flag | integer⟩ <;> rfl
  rw [← same, List.inj_on_of_nodup_map map.distinct among member keys]

theorem right_of_map {map : MetaMap} {f : String × MetaValue → StreamMetaEntry} (each : ∀ item ∈ map.entries, f item = entryOf item)
    {items : List (String × MetaValue)} (perm : items.Perm map.entries) : Right map (.ok (items.map f)) := by
  refine ⟨_, rfl, (perm.map f).trans ?_⟩
  rw [List.map_congr_left each]

theorem map_of_right {map : MetaMap} {f : String × MetaValue → StreamMetaEntry} (keyed : ∀ item, (f item).key = item.1)
    (right : Right map (.ok (map.entries.map f))) : ∀ item ∈ map.entries, f item = entryOf item := by
  obtain ⟨entries, same, perm⟩ := right
  cases same
  exact fun item member => eq_of_perm keyed perm member

section

variable {whole : Int → Bool} {floatText fraction : Float64.Bits → String} {map : MetaMap}

theorem node_outcome (items : List (String × MetaValue)) :
    jsonMetaToEntries floatText (.object (items.map (fun item => (item.1, item.2.toJson whole)))) =
      .ok (items.map (nodeOf whole floatText)) := collect_map (jsonEntry_of whole floatText) items

theorem py_outcome (items : List (String × MetaValue)) :
    dictToEntries (items.map (fun item => (.str item.1, item.2.toPy))) = .ok (items.map pyOf) := collect_map pyEntry_of items

theorem js_outcome (items : List (String × MetaValue)) :
    getMetadata fraction (message (.object (items.map (fun item => (item.1, item.2.toJs))))) = .ok (items.map entryOf) :=
  collect_map (jsEntry_of fraction) items

/-- A dictionary taken for the object of a message has no entries for it, or is refused. -/
theorem js_unwrapped (items : List (String × MetaValue)) {entries : List StreamMetaEntry}
    (accepted : getMetadata fraction (.object (items.map (fun item => (item.1, item.2.toJs)))) = .ok entries) : entries = [] := by
  rw [getMetadata, JsValue.property] at accepted
  cases found : (items.map (fun item => (item.1, item.2.toJs))).lookup "metadata" with
  | none =>
    rw [found] at accepted
    cases accepted
    rfl
  | some value =>
    obtain ⟨before, after, parts, -⟩ := List.lookup_eq_some_iff.1 found
    have member : ("metadata", value) ∈ before ++ ("metadata", value) :: after :=
      List.mem_append_right before (List.mem_cons_self ..)
    obtain ⟨item, -, same⟩ := List.mem_map.1 (parts ▸ member)
    have made : item.2.toJs = value := congrArg Prod.snd same
    rw [found, ← made] at accepted
    rcases item with ⟨key, text | flag | integer⟩ <;> cases accepted

end

/-- The three bindings make of the metadata of a message what it says just when it has no
boolean, no negative integer and no integer that Node hands over as a float. Given the
metadata itself in place of the message, that of the web makes nothing of any. -/
theorem bindings_agree_iff (whole : Int → Bool) (floatText fraction : Float64.Bits → String)
    (pointed : ∀ bits (n : Int), floatText bits ≠ toString n) (map : MetaMap) :
    (Agree whole floatText fraction message map ↔ ∀ item ∈ map.entries, Kept whole item.2) ∧
      (Agree whole floatText fraction id map ↔ map.entries = []) := by
  constructor
  · constructor
    · intro agree
      obtain ⟨node, py, -⟩ := agree map.entries map.entries map.entries (.refl _) (.refl _) (.refl _)
      rw [node_outcome] at node
      rw [py_outcome] at py
      have nodes := map_of_right (by rintro ⟨key, text | flag | integer⟩ <;> rfl) node
      have pys := map_of_right (by rintro ⟨key, text | flag | integer⟩ <;> rfl) py
      rintro ⟨key, value⟩ member
      cases value with
      | text s => trivial
      | flag b => exact absurd (pys _ member) (pyOf_flag key b)
      | integer n safe => exact ⟨(pyOf_eq key safe).1 (pys _ member), (nodeOf_eq pointed key safe).1 (nodes _ member)⟩
    · intro kept node py js nodes pys jss
      rw [node_outcome, py_outcome, js_outcome]
      refine ⟨right_of_map ?_ nodes, right_of_map ?_ pys, right_of_map (fun _ _ => rfl) jss⟩
      · rintro ⟨key, value⟩ member
        have keep := kept _ member
        cases value with
        | text s => rfl
        | flag b => exact keep.elim
        | integer n safe => exact (nodeOf_eq pointed key safe).2 keep.2
      · rintro ⟨key, value⟩ member
        have keep := kept _ member
        cases value with
        | text s => rfl
        | flag b => exact keep.elim
        | integer n safe => exact (pyOf_eq key safe).2 keep.1
  · constructor
    · intro agree
      obtain ⟨-, -, entries, accepted, perm⟩ := agree map.entries map.entries map.entries (.refl _) (.refl _) (.refl _)
      rw [js_unwrapped map.entries accepted] at perm
      exact List.map_eq_nil_iff.1 perm.nil_eq.symm
    · intro empty node py js nodes pys jss
      rw [empty] at nodes pys jss
      cases nodes.eq_nil
      cases pys.eq_nil
      cases jss.eq_nil
      refine ⟨⟨[], rfl, ?_⟩, ⟨[], rfl, ?_⟩, ⟨[], rfl, ?_⟩⟩ <;> rw [empty] <;> exact .refl _

theorem pointed_ne {text : String} (point : '.' ∈ text.toList) (n : Int) : text ≠ toString n := by
  rintro rfl
  have digits : ∀ m : Nat, '.' ∈ (toString m).toList → False := by
    intro m among
    have chars : (toString m).toList = Nat.toDigits 10 m := Nat.toList_repr
    have digit : '.'.isDigit := Nat.isDigit_of_mem_toDigits (by decide) (by decide) (chars ▸ among)
    cases digit
  cases n with
  | ofNat m => exact digits m point
  | negSucc k =>
    have signed : (toString (Int.negSucc k)).toList = '-' :: (toString (k + 1)).toList := String.toList_append
    rw [signed] at point
    rcases List.mem_cons.1 point with sign | among
    · exact absurd sign (by decide)
    · exact digits (k + 1) among

/-- The integers of 32 bits, signed or not. -/
private def short (n : Int) : Bool := decide (-(2 ^ 31) ≤ n ∧ n < 2 ^ 32)

private def half (_ : Float64.Bits) : String := "0.5"

private def opus : MetaMap := ⟨[("codec", .text "opus"), ("channels", .integer 2 (by decide))], by decide⟩

theorem bindings_agree_iff_opus : Agree short half half message opus := by
  have point : '.' ∈ "0.5".toList := by decide
  refine (bindings_agree_iff short half half (fun _ => pointed_ne point) opus).1.2 ?_
  intro item member
  rcases List.mem_pair.1 member with rfl | rfl
  · trivial
  · exact ⟨by decide, by decide⟩

private def live : MetaMap := ⟨[("live", .flag true)], by decide⟩

private def early : MetaMap := ⟨[("offset", .integer (-1) (by decide))], by decide⟩

/-- Python writes a boolean as a number, and a negative number as a large one. -/
theorem python_apart : ¬ Agree short half half message live ∧ ¬ Agree short half half message early := by
  constructor
  · intro agree
    have py := (agree live.entries live.entries live.entries (.refl _) (.refl _) (.refl _)).2.1
    rw [py_outcome] at py
    have each := map_of_right (by rintro ⟨key, text | flag | integer⟩ <;> rfl) py
    exact pyOf_flag "live" true (each _ (List.mem_singleton_self _))
  · intro agree
    have py := (agree early.entries early.entries early.entries (.refl _) (.refl _) (.refl _)).2.1
    rw [py_outcome] at py
    have each := map_of_right (by rintro ⟨key, text | flag | integer⟩ <;> rfl) py
    exact absurd ((pyOf_eq "offset" (by decide)).1 (each _ (List.mem_singleton_self _))) (by decide)

end EchoStream.Bindings.StreamMetadata
