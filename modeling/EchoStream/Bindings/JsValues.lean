import EchoStream.Foundation.Decimal
import EchoStream.Foundation.Float64
import EchoStream.Foundation.Writing
import EchoStream.Proto.Payload

/-! The values of JavaScript that payloads are made of, and the schemas they are written
by. A number is the pattern of its bits, and a text has no lone surrogates. -/

namespace EchoStream.Bindings.JsValues
open Foundation Foundation.Reading Foundation.Writing
open Proto.Messages

/-- An object has its own enumerable properties, in the order of their keys. -/
inductive JsValue where
  | undefined
  | null
  | bool (b : Bool)
  | number (bits : Float64.Bits)
  | bigint (n : Int)
  | string (text : String)
  | bytes (data : Bytes)
  | array (items : List JsValue)
  | object (fields : List (String × JsValue))

/-- A key that is written as the index of an array. -/
def index? (key : String) : Option Nat := (Decimal.parse (2 ^ 32 - 1) key).filter (fun n => Decimal.write n = key)

/-- The properties are listed by their indices, and then as they were made. -/
def precedes (first second : String) : Bool :=
  match index? first, index? second with
  | some i, some j => decide (i < j)
  | some _, none => true
  | none, some _ => false
  | none, none => decide (first ≠ second)

abbrev Listed (keys : List String) : Prop := keys.Pairwise (fun first second => precedes first second = true)

/-- The integer a number or a `BigInt` stands for. -/
def JsValue.integer? : JsValue → Option Int
  | .number bits => Float64.toInt? bits
  | .bigint n => some n
  | _ => none

/-- `value[key]`. Nothing is inherited here. -/
def JsValue.property (key : String) : JsValue → JsValue
  | .object fields => (fields.lookup key).getD .undefined
  | _ => .undefined

mutual

/-- What is in the value, in order, that is neither an array nor an object. -/
def JsValue.leaves : JsValue → List JsValue
  | .array items => leavesOfItems items
  | .object fields => leavesOfFields fields
  | v => [v]

def leavesOfItems : List JsValue → List JsValue
  | [] => []
  | item :: items => item.leaves ++ leavesOfItems items

def leavesOfFields : List (String × JsValue) → List JsValue
  | [] => []
  | (_, item) :: fields => item.leaves ++ leavesOfFields fields

end

def JsValue.isLeaf : JsValue → Bool
  | .array _ => false
  | .object _ => false
  | _ => true

theorem isLeaf_of_mem (v : JsValue) : ∀ leaf ∈ v.leaves, leaf.isLeaf = true := by
  have single : ∀ {v : JsValue}, v.isLeaf = true → ∀ leaf ∈ [v], leaf.isLeaf = true :=
    fun here leaf member => List.mem_singleton.1 member ▸ here
  refine @JsValue.rec (fun v => ∀ leaf ∈ v.leaves, leaf.isLeaf = true)
    (fun items => ∀ leaf ∈ leavesOfItems items, leaf.isLeaf = true)
    (fun fields => ∀ leaf ∈ leavesOfFields fields, leaf.isLeaf = true)
    (fun field => ∀ leaf ∈ field.2.leaves, leaf.isLeaf = true)
    (single rfl) (single rfl) (fun _ => single rfl) (fun _ => single rfl) (fun _ => single rfl) (fun _ => single rfl)
    (fun _ => single rfl) (fun _ ih => ih) (fun _ ih => ih) ?_ ?_ ?_ ?_ (fun _ _ ih => ih) v
  · exact fun _ member => absurd member List.not_mem_nil
  · exact fun item items first rest => List.forall_mem_append.2 ⟨first, rest⟩
  · exact fun _ member => absurd member List.not_mem_nil
  · exact fun field fields first rest => List.forall_mem_append.2 ⟨first, rest⟩

theorem write_leaves {write : JsValue → Outcome Bytes} (array : ∀ items, write (.array items) = joined write items)
    (object : ∀ fields, write (.object fields) = joined write (fields.map Prod.snd)) (v : JsValue) :
    write v = joined write v.leaves := by
  refine @JsValue.rec (fun v => write v = joined write v.leaves)
    (fun items => joined write items = joined write (leavesOfItems items))
    (fun fields => joined write (fields.map Prod.snd) = joined write (leavesOfFields fields))
    (fun field => write field.2 = joined write field.2.leaves)
    (joined_single _).symm (joined_single _).symm (fun _ => (joined_single _).symm) (fun _ => (joined_single _).symm)
    (fun _ => (joined_single _).symm) (fun _ => (joined_single _).symm) (fun _ => (joined_single _).symm)
    (fun items ih => (array items).trans ih) (fun fields ih => (object fields).trans ih) rfl ?_ rfl ?_
    (fun _ _ ih => ih) v
  · intro item items first rest
    rw [joined, leavesOfItems, joined_append, first, rest]
  · intro field fields first rest
    rw [List.map_cons, joined, leavesOfFields, joined_append, first, rest]

/-- Several arguments are several fields of the payload. -/
def spreadArgs : JsValue → List JsValue
  | .undefined => []
  | .null => []
  | .array items => items
  | decoded => [decoded]

/-- The schemas to encode by. All but lists and structs are `auto`. -/
inductive EncodeSchema where
  | auto
  | list
  | struct (fields : List (String × EncodeSchema))

end EchoStream.Bindings.JsValues
