import Mathlib.Algebra.Group.Nat.Defs
import EchoStream.Foundation.Decimal
import EchoStream.Foundation.Utf8
import EchoStream.Proto.Messages

/-! Entries of metadata: made from text and from numbers, which are written in decimal,
and looked up by their keys, the first of a key counting. -/

namespace EchoStream.Proto.Metadata
open Foundation
open Messages

def str (key value : String) : StreamMetaEntry := ⟨key, Utf8.encode value⟩

def num (key : String) (value : UInt64) : StreamMetaEntry := ⟨key, Utf8.encode (Decimal.write value.toNat)⟩

def bool (key : String) (value : Bool) : StreamMetaEntry := ⟨key, Utf8.encode (if value then "true" else "false")⟩

/-- The text of the first entry of the key, with replacements where it is none. -/
def get (metadata : List StreamMetaEntry) (key : String) : Option String :=
  (metadata.find? (fun entry => entry.key = key)).map (fun entry => Utf8.lenient entry.value)

def parseU64 (text : String) : Option UInt64 := (Decimal.parse (2 ^ 64) text).map UInt64.ofNat

@[simp] theorem str_key (key value : String) : (str key value).key = key := rfl

theorem lenient_encode (text : String) : Utf8.lenient (Utf8.encode text) = text := by
  rw [Utf8.lenient, Utf8.decode?_encode]

@[simp] theorem get_nil (key : String) : get [] key = none := rfl

@[simp] theorem get_str (key value : String) (rest : List StreamMetaEntry) (other : String) :
    get (str key value :: rest) other = if key = other then some value else get rest other := by
  rw [get, List.find?_cons, str_key]
  by_cases same : key = other
  · rw [if_pos same, decide_eq_true same]
    exact congrArg some (lenient_encode value)
  · rw [if_neg same, decide_eq_false same]
    rfl

@[simp] theorem get_num (key : String) (value : UInt64) (rest : List StreamMetaEntry) (other : String) :
    get (num key value :: rest) other = if key = other then some (Decimal.write value.toNat) else get rest other :=
  get_str key _ rest other

theorem get_append (first second : List StreamMetaEntry) (key : String) :
    get (first ++ second) key = (get first key).or (get second key) := by
  rw [get, List.find?_append]
  cases found : first.find? (fun entry => entry.key = key) with
  | none => rw [get, found]; rfl
  | some entry => rw [get, found]; rfl

@[simp] theorem parseU64_write (value : UInt64) : parseU64 (Decimal.write value.toNat) = some value := by
  rw [parseU64, Decimal.parse_write value.toNat_lt]
  exact congrArg some UInt64.ofNat_toNat

end EchoStream.Proto.Metadata
