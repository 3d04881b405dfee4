import EchoStream.Proto.DynamicCodec
import EchoStream.Bindings.NodeCodec
import EchoStream.Bindings.PythonCodec

/-! Lists of values whose types are inferred. The length in front says how many items
follow, but the inference of the first item takes all the bytes, so a list comes
back only if it has no second one. -/

namespace EchoStream.Bindings.Lists
open Foundation Foundation.Reading Foundation.Writing
open Proto Proto.Messages Proto.Payload Proto.DynamicCodec Proto.Inferring JsValues PythonCodec

section
variable {α : Type} {d : Dialect α} {i : Inference α} {limit : Nat} {items : List α} {write : α → Bytes}
variable (infers : d.field = i.field) (sound : i.Sound limit) (distinct : Function.Injective d.seq)
include infers sound distinct

theorem list_short {bytes : Bytes} (some : ∀ x ∈ items, x ≠ d.null)
    (decoded : d.decode bytes (.list .auto) = .ok (d.seq items)) : items.length ≤ 1 := by
  obtain ⟨rest, came, _⟩ := Dialect.decode_ok.1 decoded
  obtain ⟨len, mid, _, later⟩ := Read.bind_ok.1 came
  obtain ⟨values, went, same⟩ := Read.map_ok.1 later
  have same : values = items := distinct same
  subst same
  have lengths := Read.times_length went
  by_contra several
  obtain ⟨count, more⟩ : ∃ count, len = count + 2 := ⟨len - 2, by omega⟩
  subst more
  have tail := items_null infers sound.cuts went
  have second : d.null ∈ values := by
    apply List.mem_of_mem_tail
    rw [tail]
    exact List.mem_cons_self
  exact some _ second rfl

omit distinct in
theorem list_back
    (counts : ∀ k rest, k ≤ 1 → k < limit → d.count ⟨0, writeVarint k ++ rest⟩ = .ok (k, ⟨(writeVarint k).length, rest⟩))
    (survives : ∀ x ∈ items, d.decode (write x) .auto = .ok x) (short : items.length ≤ 1)
    (slice : (writeVarint items.length ++ items.flatMap write).length < limit) :
    d.decode (writeVarint items.length ++ items.flatMap write) (.list .auto) = .ok (d.seq items) := by
  rw [List.length_append] at slice
  have front := writeVarint_pos items.length
  have enough : items.length < limit := by
    have room : items.length ≤ 1 + (items.flatMap write).length := by omega
    omega
  have count := counts items.length (items.flatMap write) short enough
  apply Dialect.decode_ok.2
  match items, short with
  | [], _ => exact ⟨_, Read.bind_ok.2 ⟨0, _, count, rfl⟩, rfl⟩
  | [x], _ =>
    have alone : [x].flatMap write = write x := List.flatMap_singleton _ _
    rw [alone] at count slice ⊢
    have read := auto_moved infers sound (survives x (List.mem_singleton_self x)) _ slice
    refine ⟨⟨(writeVarint 1).length + (write x).length, []⟩, Read.bind_ok.2 ⟨1, _, count, Read.map_ok.2 ⟨[x], ?_, rfl⟩⟩, rfl⟩
    exact Read.cons_ok.2 ⟨x, _, [], read, rfl, rfl⟩

end

/-! The three codecs. -/

theorem node_sound (limit : Nat) : NodeCodec.inference.Sound limit := ⟨Cut.whole, fun _ _ _ => rfl⟩

theorem python_sound (limit : Nat) : PythonCodec.inference.Sound limit := ⟨Cut.whole, fun _ _ _ => rfl⟩

theorem varint_put {k : Nat} (short : k ≤ 1) (rest : Bytes) :
    Payload.varint id ⟨0, writeVarint k ++ rest⟩ = .ok (k, ⟨(writeVarint k).length, rest⟩) := by
  have bound : k < 2 ^ 70 := Nat.lt_of_le_of_lt short (by decide)
  have read := varint_some Cut.whole (number_put bound 0 rest)
  rw [← writeVarint_eq bound, Nat.zero_add] at read
  exact read

theorem writeAs_auto (v : DynamicCodec.Dynamic) : writeAs .auto v = DynamicCodec.Writer.value v := by
  cases v <;> rfl

theorem rust_list_iff (m : Machine) {items : List DynamicCodec.Dynamic}
    (survives : ∀ x ∈ items, decodeWith m (DynamicCodec.Writer.value x) .auto = .ok x ∧ x ≠ .null)
    (slice : (writeAs (.list .auto) (.seq items)).length < 2 ^ m.bits) :
    decodeWith m (writeAs (.list .auto) (.seq items)) (.list .auto) = .ok (.seq items) ↔ items.length ≤ 1 := by
  have infers : (rust m).field = (DynamicCodec.inference m).field := readField_eq
  have distinct : Function.Injective (rust m).seq := fun _ _ same => Dynamic.seq.inj same
  constructor
  · exact list_short infers (rust_sound m) distinct (fun x member => (survives x member).2)
  · intro short
    have counted : (UInt64.ofNat items.length).toNat = items.length :=
      UInt64.toNat_ofNat_of_lt (Nat.lt_of_le_of_lt short (by decide))
    have whole : writeAs (.list .auto) (.seq items) =
        writeVarint items.length ++ items.flatMap DynamicCodec.Writer.value := by
      show DynamicCodec.Writer.varint (UInt64.ofNat items.length) ++ items.flatMap (writeAs .auto) = _
      rw [varint_eq, counted, funext writeAs_auto]
    rw [whole] at slice ⊢
    apply list_back infers (rust_sound m) _ (fun x member => (survives x member).1) short slice
    intro k rest small within
    have number : (UInt64.ofNat k).toNat = k := UInt64.toNat_ofNat_of_lt (Nat.lt_of_le_of_lt small (by decide))
    have read := word_put (UInt64.ofNat k) 0 rest
    rw [varint_eq, number, Nat.zero_add] at read
    exact Read.map_ok.2 ⟨_, read, usize_ofNat within⟩

theorem node_list_iff {items : List JsValue}
    (survives : ∀ x ∈ items, Returns (NodeCodec.encodePayload x .auto) (NodeCodec.decodePayload · .auto) x ∧ x ≠ .undefined) :
    Returns (NodeCodec.encodePayload (.array items) .list) (NodeCodec.decodePayload · (.list .auto)) (.array items) ↔
      items.length ≤ 1 := by
  have infers : NodeCodec.node.field = NodeCodec.inference.field := rfl
  have distinct : Function.Injective NodeCodec.node.seq := fun _ _ same => JsValue.array.inj same
  constructor
  · rintro ⟨bytes, _, decoded⟩
    exact list_short infers (node_sound 0) distinct (fun x member => (survives x member).2) decoded
  · intro short
    have wrote : ∀ x ∈ items, ∃ bytes, NodeCodec.Writer.value x = .ok bytes :=
      fun x member => (survives x member).1.imp fun _ both => both.1
    have back : ∀ x ∈ items, NodeCodec.node.decode (written (NodeCodec.Writer.value x)) .auto = .ok x := by
      intro x member
      obtain ⟨bytes, wrote, decoded⟩ := (survives x member).1
      have same : NodeCodec.Writer.value x = .ok bytes := wrote
      rw [same]
      exact decoded
    refine ⟨writeVarint items.length ++ items.flatMap (fun x => written (NodeCodec.Writer.value x)), ?_, ?_⟩
    · apply both_ok.2
      exact ⟨_, _, rfl, (NodeCodec.Writer.values_eq items).trans (joined_written wrote), rfl⟩
    · exact list_back infers (node_sound _) (fun k rest small _ => varint_put small rest) back short (Nat.lt_succ_self _)

theorem python_list_iff {items : List PyValue}
    (survives : ∀ x ∈ items, Returns (encode_payload x .other) (decode_payload · .auto) x ∧ x ≠ .none) :
    Returns (encode_payload (.list items) .list) (decode_payload · (.list .auto)) (.list items) ↔ items.length ≤ 1 := by
  have infers : python.field = PythonCodec.inference.field := rfl
  have distinct : Function.Injective python.seq := fun _ _ same => PyValue.list.inj same
  constructor
  · rintro ⟨bytes, _, decoded⟩
    exact list_short infers (python_sound 0) distinct (fun x member => (survives x member).2) decoded
  · intro short
    have wrote : ∀ x ∈ items, ∃ bytes, PythonCodec.Writer.value x = .ok bytes :=
      fun x member => (survives x member).1.imp fun _ both => both.1
    have back : ∀ x ∈ items, python.decode (written (PythonCodec.Writer.value x)) .auto = .ok x := by
      intro x member
      obtain ⟨bytes, wrote, decoded⟩ := (survives x member).1
      have same : PythonCodec.Writer.value x = .ok bytes := wrote
      rw [same]
      exact decoded
    refine ⟨writeVarint items.length ++ items.flatMap (fun x => written (PythonCodec.Writer.value x)), ?_, ?_⟩
    · apply both_ok.2
      exact ⟨_, _, rfl, (PythonCodec.Writer.values_eq items).trans (joined_written wrote), rfl⟩
    · exact list_back infers (python_sound _) (fun k rest small _ => varint_put small rest) back short (Nat.lt_succ_self _)

/-- A list comes back just when it has at most one item, whatever values its items are, in Rust, in
Node and in Python. -/
theorem lists_back_iff (m : Machine) (items : List DynamicCodec.Dynamic) (values : List JsValue) (objects : List PyValue) :
    ((∀ x ∈ items, decodeWith m (DynamicCodec.Writer.value x) .auto = .ok x ∧ x ≠ .null) →
      (writeAs (.list .auto) (.seq items)).length < 2 ^ m.bits →
      (decodeWith m (writeAs (.list .auto) (.seq items)) (.list .auto) = .ok (.seq items) ↔ items.length ≤ 1)) ∧
    ((∀ x ∈ values, Returns (NodeCodec.encodePayload x .auto) (NodeCodec.decodePayload · .auto) x ∧ x ≠ .undefined) →
      (Returns (NodeCodec.encodePayload (.array values) .list) (NodeCodec.decodePayload · (.list .auto)) (.array values) ↔
        values.length ≤ 1)) ∧
    ((∀ x ∈ objects, Returns (encode_payload x .other) (decode_payload · .auto) x ∧ x ≠ .none) →
      (Returns (encode_payload (.list objects) .list) (decode_payload · (.list .auto)) (.list objects) ↔
        objects.length ≤ 1)) :=
  ⟨fun survives slice => rust_list_iff m survives slice, node_list_iff, python_list_iff⟩

/-- Two numbers, two texts and two numbers. -/
theorem lists_back_iff_pairs :
    decodeWith (.wide true) (writeAs (.list .auto) (.seq [.int 1, .int 2])) (.list .auto) ≠ .ok (.seq [.int 1, .int 2]) ∧
      ¬ Returns (NodeCodec.encodePayload (.array [.string "a", .string "b"]) .list)
        (NodeCodec.decodePayload · (.list .auto)) (.array [.string "a", .string "b"]) ∧
      ¬ Returns (encode_payload (.list [.int 1, .int 2]) .list) (decode_payload · (.list .auto)) (.list [.int 1, .int 2]) := by
  obtain ⟨rust, node, python⟩ :=
    lists_back_iff (.wide true) [.int 1, .int 2] [.string "a", .string "b"] [.int 1, .int 2]
  have two : ¬ 2 ≤ 1 := by decide
  refine ⟨fun back => two ((rust ?_ ?_).1 back), fun back => two ((node ?_).1 back), fun back => two ((python ?_).1 back)⟩
  · exact List.forall_mem_cons.2 ⟨⟨rfl, nofun⟩, List.forall_mem_singleton.2 ⟨rfl, nofun⟩⟩
  · decide
  · exact List.forall_mem_cons.2 ⟨⟨⟨[1, 97], rfl, rfl⟩, nofun⟩, List.forall_mem_singleton.2 ⟨⟨[1, 98], rfl, rfl⟩, nofun⟩⟩
  · exact List.forall_mem_cons.2 ⟨⟨⟨[2], rfl, rfl⟩, nofun⟩, List.forall_mem_singleton.2 ⟨⟨[4], rfl, rfl⟩, nofun⟩⟩

/-- The list of 1 and 2 comes back as a list of that list and of nothing. -/
theorem lists_not_back :
    encode_payload (.list [.int 1, .int 2]) .list = .ok [2, 2, 4] ∧
      decode_payload [2, 2, 4] (.list .auto) = .ok (.list [.list [.int 1, .int 2], .none]) ∧
      ∀ n : Int, n = 1 ∨ n = 2 → Returns (encode_payload (.int n) .other) (decode_payload · .auto) (.int n) := by
  refine ⟨rfl, rfl, ?_⟩
  rintro n (rfl | rfl)
  · exact ⟨[2], rfl, rfl⟩
  · exact ⟨[4], rfl, rfl⟩

end EchoStream.Bindings.Lists
