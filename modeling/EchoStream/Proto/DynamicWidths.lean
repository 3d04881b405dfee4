import EchoStream.Proto.DynamicLimits

/-! The reader of payloads on two machines, one with a `usize` of 64 bits and one of 32,
as in the build for browsers. They cut lengths differently. Up to the first length of
which they take different bytes, or not the same, they read the same. -/

namespace EchoStream.Proto.DynamicWidths
open Foundation.Formats Foundation.Reading Foundation.Zigzag
open Messages Payload DynamicCodec DynamicLimits

/-- Both machines take the bytes, or neither does. Otherwise they part. -/
def sharedTake (len : Nat) : Read Reader Bytes := fun r =>
  if len ≤ r.remaining ∧ r.pos + len < 2 ^ 32 then .ok (r.rest.take len, ⟨r.pos + len, r.rest.drop len⟩)
  else if r.remaining < len % 2 ^ 32 ∧ r.pos + len < 2 ^ 64 ∧ r.pos + len % 2 ^ 32 < 2 ^ 32 then .err "字节数据越界"
  else .panic

def sharedCounted : Read Reader Bytes := do
  let v ← word
  sharedTake v.toNat

def sharedPrim : Primitive → Read Reader DynamicCodec.Dynamic
  | .str => do
      let data ← sharedCounted
      readText data
  | .bytes => .bytes <$> sharedCounted
  | .f64 => (fun data => .float (Foundation.Float64.ofBytes data)) <$> sharedTake 8
  | .f32 => (fun data => .float (Foundation.Float64.ofShortBytes data)) <$> sharedTake 4
  | kind => readPrim (.wide true) kind

def sharedLen (v : UInt64) : Read Reader Nat := fun r => if v.toNat < 2 ^ 32 then .ok (v.toNat, r) else .panic

def sharedOn (v : UInt64) : Read Reader DynamicCodec.Dynamic := fun r =>
  if v.toNat ≤ r.remaining then (inferred <$> sharedTake v.toNat) r
  else if r.remaining < v.toNat % 2 ^ 32 then .ok (.int (decodeWord v), r)
  else .panic

def sharedField : Read Reader DynamicCodec.Dynamic := do
  let v ← word
  if v = 0 then pure (.int 0) else sharedOn v

/-- What the two machines read alike. It panics where they part. -/
def shared : Dialect DynamicCodec.Dynamic where
  prim := sharedPrim
  count := do
    let v ← word
    sharedLen v
  field := sharedField
  null := .null
  seq := .seq
  record items := pure (.map items)
  inner := id

/-- The two machines read on together, to the end or to where both refuse. -/
def Together (bytes : Bytes) (schema : Schema) : Prop := shared.decode bytes schema ≠ .panic

variable {checks other : Bool}

theorem take_meets (len : Nat) (word : len < 2 ^ 64) :
    Meets id id (sharedTake len) (take (Machine.wide checks).plus len) (take (Machine.narrow other).plus (len % 2 ^ 32)) := by
  have cut : len % 2 ^ 32 < 2 ^ 32 := Nat.mod_lt _ (by decide)
  apply Meets.at_each
  intro r
  have left : take (Machine.wide checks).plus len r = if 2 ^ 64 ≤ r.pos + len then .panic
      else if r.remaining < len then .err "字节数据越界"
      else .ok (r.rest.take len, ⟨r.pos + len, r.rest.drop len⟩) := take_eq (m := .wide checks) word r
  have right : take (Machine.narrow other).plus (len % 2 ^ 32) r = if 2 ^ 32 ≤ r.pos + len % 2 ^ 32 then .panic
      else if r.remaining < len % 2 ^ 32 then .err "字节数据越界"
      else .ok (r.rest.take (len % 2 ^ 32), ⟨r.pos + len % 2 ^ 32, r.rest.drop (len % 2 ^ 32)⟩) :=
    take_eq (m := .narrow other) cut r
  by_cases fits : len ≤ r.remaining ∧ r.pos + len < 2 ^ 32
  · have small : len % 2 ^ 32 = len := Nat.mod_eq_of_lt (by omega)
    have enough : ¬ r.remaining < len := Nat.not_lt_of_le fits.1
    have here : ¬ 2 ^ 64 ≤ r.pos + len := by omega
    have there : ¬ 2 ^ 32 ≤ r.pos + len := by omega
    rw [small] at right ⊢
    rw [sharedTake, if_pos fits, left, if_neg here, if_neg enough, right, if_neg there, if_neg enough]
    exact Meets.reach (x := r.rest.take len) rfl _
  · by_cases short : r.remaining < len % 2 ^ 32 ∧ r.pos + len < 2 ^ 64 ∧ r.pos + len % 2 ^ 32 < 2 ^ 32
    · have less := Nat.mod_le len (2 ^ 32)
      have here : ¬ 2 ^ 64 ≤ r.pos + len := by omega
      have there : ¬ 2 ^ 32 ≤ r.pos + len % 2 ^ 32 := by omega
      have beyond : r.remaining < len := by omega
      rw [sharedTake, if_neg fits, if_pos short, left, if_neg here, if_pos beyond, right, if_neg there, if_pos short.1]
      exact Meets.refuse "字节数据越界" "字节数据越界" "字节数据越界"
    · rw [sharedTake, if_neg fits, if_neg short]
      apply Meets.apart
      -- Taking the same bytes is taking as many, and the length was not cut.
      intro _ rest last data more came went same
      obtain ⟨⟨_, enough⟩, rfl, _⟩ := (take_ok (m := .wide checks) word).1 came
      obtain ⟨⟨within, less⟩, rfl, _⟩ := (take_ok (m := .narrow other) cut).1 went
      have lengths := congrArg List.length same
      have within : r.pos + len % 2 ^ 32 < 2 ^ 32 := within
      rw [id, id, List.length_take, List.length_take] at lengths
      have left : min len r.rest.length = len := Nat.min_eq_left enough
      have right : min (len % 2 ^ 32) r.rest.length = len % 2 ^ 32 := Nat.min_eq_left less
      omega

theorem wide_usize (v : UInt64) : (Machine.wide checks).usize v = v.toNat := Nat.mod_eq_of_lt v.toNat_lt

theorem counted_meets : Meets id id sharedCounted (counted (.wide checks)) (counted (.narrow other)) := by
  refine Meets.after word (fun v => ?_)
  rw [wide_usize]
  exact take_meets v.toNat v.toNat_lt

theorem taken_meets {len : Nat} (few : len < 2 ^ 32) :
    Meets id id (sharedTake len) (take (Machine.wide checks).plus len) (take (Machine.narrow other).plus len) := by
  have taken : Meets id id (sharedTake len) (take (Machine.wide checks).plus len)
      (take (Machine.narrow other).plus (len % 2 ^ 32)) := take_meets len (Nat.lt_trans few (by decide))
  rw [Nat.mod_eq_of_lt few] at taken
  exact taken

theorem float_meets {len : Nat} (few : len < 2 ^ 32) (f : Bytes → DynamicCodec.Dynamic) :
    Meets id id (f <$> sharedTake len) (f <$> take (Machine.wide checks).plus len)
      (f <$> take (Machine.narrow other).plus len) := by
  have wide : len < 2 ^ 64 := Nat.lt_trans few (by decide)
  refine (taken_meets few).map (fun _ => rfl) (fun _ => rfl) (fun came went _ => ?_)
  obtain ⟨_, rfl, _⟩ := (take_ok (m := .wide checks) wide).1 came
  obtain ⟨_, rfl, _⟩ := (take_ok (m := .narrow other) few).1 went
  rfl

theorem prim_meets (kind : Primitive) :
    Meets id id (sharedPrim kind) (readPrim (.wide checks) kind) (readPrim (.narrow other) kind) := by
  cases kind with
  | number => exact Meets.same _
  | bigint => exact Meets.same _
  | u64 => exact Meets.same _
  | bool => exact Meets.same _
  | f64 => exact float_meets (by decide) _
  | f32 => exact float_meets (by decide) _
  | bytes => exact counted_meets.map (fun _ => rfl) (fun _ => rfl) (fun _ _ same => Dynamic.bytes.inj same)
  | str =>
    refine counted_meets.bind (fun data more same => ?_) ?_
    · cases same
      exact Meets.same (readText data)
    · intro input rest other last final data more v w _ _ came went same
      obtain ⟨text, rfl, rfl, _⟩ := readText_ok.1 came
      obtain ⟨other, rfl, rfl, _⟩ := readText_ok.1 went
      cases same
      rfl

theorem len_meets : Meets id id shared.count (rust (.wide checks)).count (rust (.narrow other)).count := by
  show Meets id id (word >>= sharedLen) (word >>= fun v => pure ((Machine.wide checks).usize v))
    (word >>= fun v => pure ((Machine.narrow other).usize v))
  apply Meets.after word
  intro v
  apply Meets.at_each
  intro r
  rw [wide_usize, sharedLen]
  by_cases fits : v.toNat < 2 ^ 32
  · have small : (Machine.narrow other).usize v = v.toNat := Nat.mod_eq_of_lt fits
    rw [small, if_pos fits]
    exact Meets.reach (x := v.toNat) rfl r
  · rw [if_neg fits]
    apply Meets.apart
    intro input rest last x y came went same
    cases came
    cases went
    have cut : (Machine.narrow other).usize v < 2 ^ 32 := usize_lt v
    exact fits (same.trans_lt cut)

theorem on_meets (v : UInt64) : Meets id id (sharedOn v) (readOn (.wide checks) v) (readOn (.narrow other) v) := by
  apply Meets.at_each
  intro r
  have less : v.toNat % 2 ^ 32 ≤ v.toNat := Nat.mod_le _ _
  have narrow : (Machine.narrow other).usize v = v.toNat % 2 ^ 32 := rfl
  rw [sharedOn, readOn, readOn, wide_usize, narrow]
  by_cases enough : v.toNat ≤ r.remaining
  · have taken : Meets id id (inferred <$> sharedTake v.toNat) (inferred <$> take (Machine.wide checks).plus v.toNat)
        (inferred <$> take (Machine.narrow other).plus (v.toNat % 2 ^ 32)) :=
      (take_meets v.toNat v.toNat_lt).map (fun _ => rfl) (fun _ => rfl) (fun _ _ same => inferred_injective same)
    rw [if_pos enough, if_pos enough, if_pos (Nat.le_trans less enough)]
    exact taken.fixed r
  · rw [if_neg enough, if_neg enough]
    by_cases short : r.remaining < v.toNat % 2 ^ 32
    · rw [if_pos short, if_neg (Nat.not_le_of_lt short)]
      exact Meets.reach (x := DynamicCodec.Dynamic.int (decodeWord v)) rfl r
    · rw [if_neg short, if_pos (Nat.le_of_not_lt short)]
      apply Meets.apart
      intro input rest last x y came went same
      cases came
      obtain ⟨data, _, made⟩ := Read.map_ok.1 went
      exact inferred_ne_int data _ (made.trans same.symm)

theorem field_meets : Meets id id sharedField (readField (.wide checks)) (readField (.narrow other)) := by
  refine Meets.after word (fun v => ?_)
  by_cases zero : v = 0
  · rw [if_pos zero, if_pos zero, if_pos zero]
    exact Meets.same _
  · rw [if_neg zero, if_neg zero, if_neg zero]
    exact on_meets v

theorem field_ne_seq {m : Machine} {r rest : Reader} {v : DynamicCodec.Dynamic} {items : List DynamicCodec.Dynamic}
    (came : readField m r = .ok (v, rest)) : v ≠ .seq items := by
  rw [readField_eq] at came
  intro same
  rcases Inferring.Inference.field_value came with rfl | ⟨data, rfl⟩ | ⟨n, rfl⟩
  · cases same
  · exact inferred_ne_seq data items same
  · cases same

theorem named_id (items : List (String × DynamicCodec.Dynamic)) : items.map (Dialect.named id) = items := List.map_id items

theorem shared_meets : Dialect.Meet id id shared (rust (.wide checks)) (rust (.narrow other)) where
  prim := prim_meets
  count := len_meets
  field := field_meets
  null := ⟨rfl, rfl⟩
  seqs := ⟨fun xs => congrArg Dynamic.seq (List.map_id xs).symm, fun ys => congrArg Dynamic.seq (List.map_id ys).symm⟩
  apart _ _ same := Dynamic.seq.inj same
  scalar came := field_ne_seq came
  scalars came := field_ne_seq came
  record items _ _ _ came := ⟨_, by rwa [named_id] at came, rfl⟩
  records items _ _ _ came := ⟨_, by rwa [named_id] at came, rfl⟩
  both items others _ _ _ _ _ _ came went _ same := by
    rw [named_id, named_id]
    cases came
    cases went
    exact ⟨Dynamic.map.inj same, rfl⟩
  built _ _ _ failed := by cases failed
  inner meets := meets

/-- Where the machines read together they agree. Where they part, they never
accept a payload as the same value. -/
theorem widths_alike (checks other : Bool) (bytes : Bytes) (schema : Schema) :
    (Together bytes schema →
        Dialect.Alike id id (decodeWith (.wide checks) bytes schema) (decodeWith (.narrow other) bytes schema)) ∧
      (¬ Together bytes schema → ∀ v, ¬ (decodeWith (.wide checks) bytes schema = .ok v ∧
        decodeWith (.narrow other) bytes schema = .ok v)) := by
  have meets : Dialect.Meet id id shared (rust (.wide checks)) (rust (.narrow other)) := shared_meets
  constructor
  · exact fun together => (meets.alike_iff bytes schema).2 (Or.inl together)
  · rintro parted v ⟨left, right⟩
    have read := (meets.decode bytes schema v).2 ⟨v, v, left, right, rfl, rfl⟩
    refine parted ?_
    rw [Together, read]
    intro impossible
    cases impossible

/-- Of a length of 2³² the smaller machine takes nothing, and the larger one finds it out of range. -/
theorem widths_differ : decodeWith (.wide true) [0x80, 0x80, 0x80, 0x80, 0x10] (.prim .bytes) = .err "字节数据越界" ∧
    decodeWith (.narrow false) [0x80, 0x80, 0x80, 0x80, 0x10] (.prim .bytes) = .ok (.bytes []) := by
  exact ⟨rfl, rfl⟩

end EchoStream.Proto.DynamicWidths
