import EchoStream.Proto.DynamicCodec

/-! A single number, text or piece of binary data, encoded and inferred again. A varint
alone has nothing behind it, so it is no length, unless it is cut to one of no bytes: on a
machine of 32 bits the number 2³¹ becomes an empty text. -/

namespace EchoStream.Proto.SingleValues
open Foundation.Formats Foundation.Reading Foundation.Zigzag
open Messages Payload Inferring Inferring.Inference DynamicCodec

variable {m : Machine}

/-- A number, a text that is not empty, or binary data that is not empty and no text. -/
inductive Single : DynamicCodec.Dynamic → Prop where
  | int (n : Int64) : Single (.int n)
  | str {text : String} (some : text ≠ "") : Single (.str text)
  | bytes {data : Bytes} (some : data ≠ []) (binary : Foundation.Utf8.decode? data = none) : Single (.bytes data)

/-- What is encoded is decoded to itself, without a schema. -/
def Back (m : Machine) (v : DynamicCodec.Dynamic) : Prop :=
  ∃ payload, encode v = .ok payload ∧ decodeWith m payload .auto = .ok v

/-- A number other than zero of whose varint `v as usize` leaves nothing. -/
def CutToZero (m : Machine) : DynamicCodec.Dynamic → Prop
  | .int n => n ≠ 0 ∧ zigzag n.toInt % 2 ^ m.bits = 0
  | _ => False

theorem back_iff {v : DynamicCodec.Dynamic} : Back m v ↔ decodeWith m (Writer.value v) .auto = .ok v := by
  constructor
  · intro back
    obtain ⟨payload, wrote, read⟩ := back
    cases wrote
    exact read
  · exact fun read => ⟨Writer.value v, rfl, read⟩

theorem varint_front (w : UInt64) (rest : Bytes) : getGroups 127 10 (Writer.varint w ++ rest) = some (w.toNat, rest) :=
  getGroups_putGroups (by decide) (Nat.lt_of_lt_of_le w.toNat_lt (by decide)) rest

theorem varint_not_nil (w : UInt64) (rest : Bytes) : Writer.varint w ++ rest ≠ [] := by
  intro empty
  have front := varint_front w rest
  rw [empty] at front
  cases front

theorem word_uncut (w : UInt64) : (inference m).cut w.toNat = w.toNat := Nat.mod_eq_of_lt w.toNat_lt

theorem word_size (w : UInt64) : (inference m).size ((inference m).cut w.toNat) = m.usize w := by
  rw [word_uncut]
  exact congrArg m.usize (UInt64.ofNat_toNat)

theorem decoded_field {bytes : Bytes} (slice : bytes.length < 2 ^ m.bits) (some : bytes ≠ []) {v : DynamicCodec.Dynamic}
    (splits : Splits (inference m) bytes [v]) : decodeWith m bytes .auto = .ok v := by
  have start : 0 + bytes.length < 2 ^ m.bits := by omega
  have read : (rust m).auto ⟨0, bytes⟩ = .ok (v, ⟨0 + bytes.length, []⟩) :=
    (auto_iff readField_eq (rust_sound m) start some).2 ⟨[v], splits, rfl, rfl⟩
  exact Dialect.decode_ok.2 ⟨_, read, rfl⟩

/-- A varint alone is zero, or what its length of nothing is inferred to be, or a number. -/
theorem varint_decoded (w : UInt64) (slice : (Writer.varint w).length < 2 ^ m.bits) :
    decodeWith m (Writer.varint w) .auto =
      .ok (if w = 0 then .int 0 else if m.usize w = 0 then DynamicCodec.inferred [] else .int (decodeWord w)) := by
  have front : getGroups 127 10 (Writer.varint w) = some (w.toNat, []) := by
    have alone := varint_front w []
    rwa [List.append_nil] at alone
  have some : Writer.varint w ≠ [] := by
    have alone := varint_not_nil w []
    rwa [List.append_nil] at alone
  have zero : (inference m).cut w.toNat = 0 ↔ w = 0 := by
    rw [word_uncut]
    exact UInt64.toNat_inj (b := 0)
  apply decoded_field slice some
  by_cases none : w = 0
  · rw [if_pos none]
    exact .zero front (zero.2 none) .nothing
  · rw [if_neg none]
    by_cases lost : m.usize w = 0
    · have enough : (inference m).size ((inference m).cut w.toNat) ≤ ([] : Bytes).length := by
        rw [word_size, lost]
        exact Nat.le_refl 0
      have field := @Splits.sized _ (inference m) _ _ _ [] front (mt zero.1 none) enough
      rw [List.take_nil, List.drop_nil] at field
      rw [if_pos lost]
      exact field .nothing
    · have short : ([] : Bytes).length < (inference m).size ((inference m).cut w.toNat) := by
        rw [word_size]
        exact Nat.pos_of_ne_zero lost
      have field := Splits.number front (mt zero.1 none) short .nothing
      rw [word_uncut] at field
      have number : (inference m).number w.toNat = .int (decodeWord w) :=
        congrArg (fun w => Dynamic.int (decodeWord w)) UInt64.ofNat_toNat
      rw [if_neg lost, ← number]
      exact field

theorem prefixed_decoded {data : Bytes} (some : data ≠ []) (slice : (Writer.prefixed data).length < 2 ^ m.bits) :
    decodeWith m (Writer.prefixed data) .auto = .ok (DynamicCodec.inferred data) := by
  have lengths : (Writer.prefixed data).length = (Writer.varint (UInt64.ofNat data.length)).length + data.length :=
    List.length_append
  have short : data.length < 2 ^ m.bits := by omega
  have wide : data.length < 2 ^ 64 := Nat.lt_of_lt_of_le short (Nat.pow_le_pow_right (by decide) m.fits)
  have front := varint_front (UInt64.ofNat data.length) data
  have size : (inference m).size ((inference m).cut (UInt64.ofNat data.length).toNat) = data.length := by
    rw [word_size, usize_ofNat short]
  have more : (inference m).cut (UInt64.ofNat data.length).toNat ≠ 0 := by
    rw [word_uncut, UInt64.toNat_ofNat_of_lt' wide]
    exact mt List.length_eq_zero_iff.1 some
  have field := @Splits.sized _ (inference m) _ _ _ [] front more
  rw [size, List.take_length, List.drop_length] at field
  exact decoded_field slice (varint_not_nil _ data) (field (Nat.le_refl _) .nothing)

theorem encodeWord_eq_zero {n : Int64} : encodeWord n = 0 ↔ n = 0 := by
  rw [← UInt64.toNat_inj, encodeWord_toNat]
  show zigzag n.toInt = 0 ↔ n = 0
  rw [zigzag_eq_zero]
  exact Int64.toInt_inj (y := 0)

theorem int_back_iff {n : Int64} (slice : (Writer.value (.int n)).length < 2 ^ m.bits) :
    Back m (.int n) ↔ ¬ CutToZero m (.int n) := by
  have size : m.usize (encodeWord n) = zigzag n.toInt % 2 ^ m.bits := congrArg (· % 2 ^ m.bits) (encodeWord_toNat n)
  rw [back_iff, show Writer.value (.int n) = Writer.varint (encodeWord n) from rfl, varint_decoded _ slice, size]
  by_cases zero : n = 0
  · have none : ¬ CutToZero m (.int n) := fun cut => cut.1 zero
    rw [if_pos (encodeWord_eq_zero.2 zero), zero]
    exact iff_of_true rfl (zero ▸ none)
  · rw [if_neg (mt encodeWord_eq_zero.1 zero)]
    by_cases lost : zigzag n.toInt % 2 ^ m.bits = 0
    · rw [if_pos lost]
      apply iff_of_false
      · intro same
        exact inferred_ne_int [] n (Outcome.ok.inj same)
      · exact not_not_intro ⟨zero, lost⟩
    · rw [if_neg lost, decodeWord_encodeWord]
      exact iff_of_true rfl (fun cut => lost cut.2)

theorem str_back {text : String} (some : text ≠ "") (slice : (Writer.value (.str text)).length < 2 ^ m.bits) :
    Back m (.str text) := by
  have more : Foundation.Utf8.encode text ≠ [] := by
    intro empty
    have decoded : Foundation.Utf8.decode? [] = Option.some text := Foundation.Utf8.decode?_eq_some.2 empty
    have nothing : Foundation.Utf8.decode? [] = Option.some "" := Foundation.Utf8.decode?_encode ""
    exact some (Option.some.inj (decoded.symm.trans nothing))
  have again : DynamicCodec.inferred (Foundation.Utf8.encode text) = .str text := by
    rw [DynamicCodec.inferred, Foundation.Utf8.decode?_encode]
  rw [back_iff, ← again]
  exact again ▸ prefixed_decoded more slice

theorem bytes_back {data : Bytes} (some : data ≠ []) (binary : Foundation.Utf8.decode? data = none)
    (slice : (Writer.value (.bytes data)).length < 2 ^ m.bits) : Back m (.bytes data) := by
  have again : DynamicCodec.inferred data = .bytes data := by rw [DynamicCodec.inferred, binary]
  rw [back_iff, ← again]
  exact again ▸ prefixed_decoded some slice

theorem wide_uncut (wide : m.bits = 64) (v : DynamicCodec.Dynamic) : ¬ CutToZero m v := by
  intro cut
  cases v with
  | int n =>
    obtain ⟨some, none⟩ := cut
    have small : zigzag n.toInt < 2 ^ 64 := encodeWord_toNat n ▸ (encodeWord n).toNat_lt
    rw [wide, Nat.mod_eq_of_lt small] at none
    exact some ((Int64.toInt_inj (y := 0)).1 (zigzag_eq_zero.1 none))
  | _ => exact cut

/-- A single value whose encoding fits into memory is decoded to itself just when it is
not a number that is cut to zero. With 64 bits none is. -/
theorem single_back_iff (m : Machine) {v : DynamicCodec.Dynamic} (single : Single v)
    (slice : (Writer.value v).length < 2 ^ m.bits) : (Back m v ↔ ¬ CutToZero m v) ∧ (m.bits = 64 → Back m v) := by
  have just : Back m v ↔ ¬ CutToZero m v := by
    cases single with
    | int n => exact int_back_iff slice
    | str some => exact iff_of_true (str_back some slice) (fun cut => cut)
    | bytes some binary => exact iff_of_true (bytes_back some binary slice) (fun cut => cut)
  exact ⟨just, fun wide => just.2 (wide_uncut wide v)⟩

/-- The most negative number has a varint of ten bytes. -/
theorem single_back_least : Back (.wide true) (.int Int64.minValue) :=
  (single_back_iff (.wide true) (.int Int64.minValue) (by decide +kernel)).2 rfl

/-- With 32 bits 2³¹ comes back as an empty text. -/
theorem cut_to_text : encode (.int 2147483648) = .ok [0x80, 0x80, 0x80, 0x80, 0x10] ∧
    decodeWith (.narrow true) [0x80, 0x80, 0x80, 0x80, 0x10] .auto = .ok (.str "") ∧
    ¬ ∀ v, Single v → Back (.narrow true) v := by
  have wrote : encode (.int 2147483648) = .ok [0x80, 0x80, 0x80, 0x80, 0x10] := by
    show Outcome.ok (putGroups 10 (encodeWord 2147483648).toNat) = _
    decide +kernel
  have read : decodeWith (.narrow true) [0x80, 0x80, 0x80, 0x80, 0x10] .auto = .ok (.str "") := rfl
  refine ⟨wrote, read, ?_⟩
  intro all
  obtain ⟨payload, again, back⟩ := all _ (.int 2147483648)
  rw [wrote] at again
  cases again
  rw [read] at back
  cases back

end EchoStream.Proto.SingleValues
