import EchoStream.Proto.DynamicLimits

/-! What the inference makes of a payload, written again. A number is written in fewest
groups, whatever was read, and bytes behind their length. So no part gets longer, and a
varint that was beyond what follows still is: the inference splits what was written into
the same fields. -/

namespace EchoStream.Proto.Reencoding
open Foundation.Formats Foundation.Reading Foundation.Zigzag
open Messages Payload Inferring Inferring.Inference DynamicCodec DynamicLimits

/-- The places where the inference begins a turn of its loop, which is where it reads a varint. -/
inductive Turns (m : Machine) (r : Reader) : Reader → Prop where
  | start : Turns m r r
  | next {s t : Reader} {value : DynamicCodec.Dynamic} (there : Turns m r s) (read : readField m s = .ok (value, t)) : Turns m r t

/-- Every varint that the inference reads is in fewest groups, and a number of 64 bits. -/
def Minimal (m : Machine) (r : Reader) : Prop :=
  ∀ s n rest, Turns m r s → s.number = some (n, rest) → n < 2 ^ 64 ∧ s.rest = writeVarint n ++ rest.rest

variable {m : Machine} {checks : Bool} {bytes later : Bytes} {values : List DynamicCodec.Dynamic} {n : Nat}

theorem Turns.trans {r s t : Reader} (first : Turns m r s) (second : Turns m s t) : Turns m r t := by
  induction second with
  | start => exact first
  | next _ read ih => exact .next ih read

theorem Minimal.next {r s : Reader} {value : DynamicCodec.Dynamic} (minimal : Minimal m r) (read : readField m r = .ok (value, s)) :
    Minimal m s :=
  fun t n rest there => minimal t n rest ((Turns.start.next read).trans there)

theorem values_cons (value : DynamicCodec.Dynamic) (values : List DynamicCodec.Dynamic) :
    Writer.values (value :: values) = Writer.value value ++ Writer.values values := rfl

theorem value_pack (values : List DynamicCodec.Dynamic) : Writer.value ((rust m).pack values) = Writer.values values := by
  match values with
  | [] => rfl
  | [value] => exact (List.append_nil _).symm
  | first :: second :: rest => rfl

/-- What becomes of a varint: the number is cut to 64 bits and written in fewest groups. -/
def rewritten (n : Nat) : Bytes := putGroups 10 (n % 2 ^ 64)

theorem word_cut (n : Nat) : (UInt64.ofNat (n % 2 ^ 64)).toNat = n % 2 ^ 64 :=
  UInt64.toNat_ofNat_of_lt' (Nat.mod_lt _ (by decide))

theorem rewritten_front (n : Nat) (rest : Bytes) : getGroups 127 10 (rewritten n ++ rest) = some (n % 2 ^ 64, rest) := by
  have small : n % 2 ^ 64 < 2 ^ 64 := Nat.mod_lt _ (by decide)
  exact getGroups_putGroups (by decide) (Nat.lt_of_lt_of_le small (by decide)) rest

theorem rewritten_shorter (front : getGroups 127 10 bytes = some (n, later)) :
    (rewritten n).length + later.length ≤ bytes.length := by
  have least := getGroups_shortest front
  have cut : (rewritten n).length ≤ (putGroups 10 n).length := putGroups_mono 10 (Nat.mod_le _ _)
  omega

theorem usize_cut (n : Nat) : (inference (.wide checks)).size (n % 2 ^ 64) = n % 2 ^ 64 :=
  usize_ofNat (m := .wide checks) (Nat.mod_lt _ (by decide))

theorem value_zero : Writer.value (.int 0) = rewritten 0 := by decide +kernel

theorem value_number (n : Nat) : Writer.value (.int (decodeWord (UInt64.ofNat (n % 2 ^ 64)))) = rewritten n := by
  show putGroups 10 (encodeWord (decodeWord (UInt64.ofNat (n % 2 ^ 64)))).toNat = _
  rw [encodeWord_decodeWord, word_cut, rewritten]

theorem value_inferred {data : Bytes} (size : data.length = n % 2 ^ 64) :
    Writer.value (DynamicCodec.inferred data) = rewritten n ++ data := by
  have whole : Writer.value (DynamicCodec.inferred data) = Writer.prefixed data := by
    unfold DynamicCodec.inferred
    cases decoded : Foundation.Utf8.decode? data with
    | some text =>
      show Writer.prefixed (Foundation.Utf8.encode text) = _
      rw [Foundation.Utf8.decode?_eq_some.1 decoded]
    | none => rfl
  rw [whole, Writer.prefixed, Writer.varint, size, word_cut, rewritten]

theorem sized_again {data rest : Bytes} (some : n % 2 ^ 64 ≠ 0) (length : data.length = n % 2 ^ 64)
    (splits : Splits (inference (.wide checks)) rest values) :
    Splits (inference (.wide checks)) (rewritten n ++ (data ++ rest)) (DynamicCodec.inferred data :: values) := by
  have cut : (inference (.wide checks)).cut (n % 2 ^ 64) = n % 2 ^ 64 := Nat.mod_mod n _
  have size : (inference (.wide checks)).size ((inference (.wide checks)).cut (n % 2 ^ 64)) = data.length := by
    rw [cut, usize_cut, length]
  have field := @Splits.sized _ (inference (.wide checks)) _ _ _ values (rewritten_front n (data ++ rest))
  rw [size, List.take_left, List.drop_left, cut] at field
  exact field some (by rw [List.length_append]; exact Nat.le_add_right _ _) splits

theorem number_again {rest : Bytes} (some : n % 2 ^ 64 ≠ 0) (short : rest.length < n % 2 ^ 64)
    (splits : Splits (inference (.wide checks)) rest values) :
    Splits (inference (.wide checks)) (rewritten n ++ rest) ((inference (.wide checks)).number (n % 2 ^ 64) :: values) := by
  have cut : (inference (.wide checks)).cut (n % 2 ^ 64) = n % 2 ^ 64 := Nat.mod_mod n _
  have field := @Splits.number _ (inference (.wide checks)) _ _ _ values (rewritten_front n rest)
  rw [cut, usize_cut] at field
  exact field some short splits

/-- What was written again falls into the same fields, and is no longer. -/
theorem splits_again (splits : Splits (inference (.wide checks)) bytes values) :
    Splits (inference (.wide checks)) (Writer.values values) values ∧ (Writer.values values).length ≤ bytes.length := by
  induction splits with
  | nothing => exact ⟨.nothing, Nat.le_refl 0⟩
  | @zero bytes later n values front none _ ih =>
    have shorter := rewritten_shorter front
    have cut : n % 2 ^ 64 = 0 := none
    have written : Writer.values (.int 0 :: values) = rewritten n ++ Writer.values values := by
      rw [values_cons, value_zero, rewritten, rewritten, cut, Nat.zero_mod]
    have again : (inference (.wide checks)).cut (n % 2 ^ 64) = 0 := by
      rw [cut]
      rfl
    rw [show (inference (.wide checks)).zero = .int 0 from rfl, written, List.length_append]
    exact ⟨.zero (rewritten_front n _) again ih.1, by omega⟩
  | @sized bytes later n values front some enough _ ih =>
    have shorter := rewritten_shorter front
    have size : (inference (.wide checks)).size ((inference (.wide checks)).cut n) = n % 2 ^ 64 := usize_cut n
    rw [size] at ih enough ⊢
    have length : (later.take (n % 2 ^ 64)).length = n % 2 ^ 64 := List.length_take_of_le enough
    have written : Writer.values (DynamicCodec.inferred (later.take (n % 2 ^ 64)) :: values) =
        rewritten n ++ (later.take (n % 2 ^ 64) ++ Writer.values values) := by
      rw [values_cons, value_inferred length, List.append_assoc]
    rw [show (inference (.wide checks)).inferred = DynamicCodec.inferred from rfl, written, List.length_append,
      List.length_append, length]
    refine ⟨sized_again some length ih.1, ?_⟩
    have left := ih.2
    rw [List.length_drop] at left
    omega
  | @number bytes later n values front some short _ ih =>
    have shorter := rewritten_shorter front
    have size : (inference (.wide checks)).size ((inference (.wide checks)).cut n) = n % 2 ^ 64 := usize_cut n
    rw [size] at short
    have written : Writer.values ((inference (.wide checks)).number ((inference (.wide checks)).cut n) :: values) =
        rewritten n ++ Writer.values values := by
      rw [values_cons]
      exact congrArg (· ++ _) (value_number n)
    rw [written, List.length_append]
    exact ⟨number_again some (by omega) ih.1, by omega⟩

theorem number_front {pos : Nat} (front : getGroups 127 10 bytes = some (n, later)) :
    (Reader.mk pos bytes).number = some (n, ⟨pos + (bytes.length - later.length), later⟩) := by
  rw [Reader.number, front, Option.map_some]

theorem Minimal.front {pos : Nat} (minimal : Minimal m ⟨pos, bytes⟩) (front : getGroups 127 10 bytes = some (n, later)) :
    n % 2 ^ 64 = n ∧ bytes = rewritten n ++ later := by
  obtain ⟨small, shape⟩ := minimal _ n _ .start (number_front front)
  have cut : n % 2 ^ 64 = n := Nat.mod_eq_of_lt small
  have fewest : writeVarint n = putGroups 10 n := writeVarint_eq (Nat.lt_of_lt_of_le small (by decide))
  refine ⟨cut, ?_⟩
  rw [rewritten, cut, ← fewest]
  exact shape

theorem minimal_same {pos : Nat} (splits : Splits (inference (.wide checks)) bytes values) (slice : pos + bytes.length < 2 ^ 64)
    (minimal : Minimal (.wide checks) ⟨pos, bytes⟩) : Writer.values values = bytes := by
  induction splits generalizing pos with
  | nothing => rfl
  | @zero bytes later n values front none _ ih =>
    have shorter := getGroups_length front
    have read := field_front (rust_sound (.wide checks)) slice front
    rw [if_pos none, ← readField_eq] at read
    have same := ih (by omega) (minimal.next read)
    obtain ⟨cut, shape⟩ := minimal.front front
    have nothing : n = 0 := cut.symm.trans none
    rw [shape, values_cons, same, nothing]
    exact congrArg (· ++ _) value_zero
  | @sized bytes later n values front some enough _ ih =>
    have shorter := getGroups_length front
    have read := field_front (rust_sound (.wide checks)) slice front
    rw [if_neg some, if_pos enough, ← readField_eq] at read
    have size : (inference (.wide checks)).size ((inference (.wide checks)).cut n) = n % 2 ^ 64 := usize_cut n
    rw [size] at ih enough read ⊢
    have same := ih (by rw [List.length_drop]; omega) (minimal.next read)
    have length : (later.take (n % 2 ^ 64)).length = n % 2 ^ 64 := List.length_take_of_le enough
    rw [(minimal.front front).2, values_cons, same]
    have field : Writer.value (DynamicCodec.inferred (later.take (n % 2 ^ 64))) = _ := value_inferred length
    rw [show (inference (.wide checks)).inferred = DynamicCodec.inferred from rfl, field, List.append_assoc,
      List.take_append_drop]
  | @number bytes later n values front some short _ ih =>
    have shorter := getGroups_length front
    have read := field_front (rust_sound (.wide checks)) slice front
    rw [if_neg some, if_neg (Nat.not_le_of_lt short), ← readField_eq] at read
    have same := ih (by omega) (minimal.next read)
    rw [(minimal.front front).2, values_cons, same]
    exact congrArg (· ++ _) (value_number n)

theorem wide_splits {v : DynamicCodec.Dynamic} (slice : bytes.length < 2 ^ 64) (some : bytes ≠ []) :
    decodeWith (.wide checks) bytes .auto = .ok v ↔
      ∃ values, Splits (inference (.wide checks)) bytes values ∧ v = (rust (.wide checks)).pack values := by
  have start : 0 + bytes.length < 2 ^ 64 := by omega
  rw [decodeWith, Dialect.decode_ok]
  constructor
  · rintro ⟨rest, came, _⟩
    obtain ⟨values, splits, same, _⟩ := (auto_iff readField_eq (rust_sound (.wide checks)) start some).1 came
    exact ⟨values, splits, same⟩
  · rintro ⟨values, splits, same⟩
    exact ⟨_, (auto_iff readField_eq (rust_sound (.wide checks)) start some).2 ⟨values, splits, same, rfl⟩, rfl⟩

/-- What a payload is decoded to is encoded, and decoded to the same again. Where the
payload was minimal it is encoded to that very payload. -/
theorem decoded_again (checks : Bool) (slice : Slice) {v : DynamicCodec.Dynamic}
    (decoded : decodeWith (.wide checks) slice.bytes .auto = .ok v) :
    ∃ out, encode v = .ok out ∧ decodeWith (.wide checks) out .auto = .ok v ∧
      (Minimal (.wide checks) (.new slice.bytes) → out = slice.bytes) := by
  have short : slice.bytes.length < 2 ^ 64 := Nat.lt_trans slice.short (by decide)
  refine ⟨Writer.value v, rfl, ?_⟩
  by_cases empty : slice.bytes = []
  · rw [empty] at decoded ⊢
    cases decoded
    exact ⟨rfl, fun _ => rfl⟩
  · obtain ⟨values, splits, rfl⟩ := (wide_splits short empty).1 decoded
    obtain ⟨again, shorter⟩ := splits_again splits
    rw [value_pack]
    have some : Writer.values values ≠ [] := by
      intro nothing
      rw [nothing] at again
      cases values with
      | nil => exact empty (splits_nil.1 splits)
      | cons value values => exact not_splits_nothing again
    refine ⟨(wide_splits (Nat.lt_of_le_of_lt shorter short) some).2 ⟨values, again, rfl⟩, fun minimal => ?_⟩
    exact minimal_same splits (by omega) minimal

/-- Ten in two groups and twenty in one are written in one group each. -/
theorem decoded_again_pair : ∃ out, encode (.seq [.int 10, .int 20]) = .ok out ∧
    decodeWith (.wide true) out .auto = .ok (.seq [.int 10, .int 20]) := by
  obtain ⟨out, wrote, again, _⟩ := decoded_again true ⟨[0x94, 0x00, 0x28], by decide⟩ (v := .seq [.int 10, .int 20]) rfl
  exact ⟨out, wrote, again⟩

end EchoStream.Proto.Reencoding
