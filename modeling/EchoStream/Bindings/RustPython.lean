import EchoStream.Bindings.Values
import EchoStream.Proto.DynamicLimits

/-! The readers in Rust and in Python. They part on varints of more than 64 bits, which
Rust cuts, and on lengths that take a position beyond 64 bits, on which Rust panics. -/

namespace EchoStream.Bindings.RustPython
open Foundation Foundation.Reading Foundation.Zigzag
open Proto Proto.Messages Proto.Payload Proto.DynamicCodec Proto.DynamicLimits Proto.Inferring PythonCodec Values

/-- Both take the bytes, or both find that there are not so many. -/
def bothTake (len : Nat) : Read Reader Bytes := fun r =>
  if len ≤ r.remaining ∧ r.pos + len < 2 ^ 64 then .ok (r.rest.take len, ⟨r.pos + len, r.rest.drop len⟩)
  else if r.remaining < len % 2 ^ 64 ∧ r.pos + len % 2 ^ 64 < 2 ^ 64 then .err "字节数据越界"
  else .panic

def bothCounted : Read Reader Bytes := do
  let len ← Payload.varint id
  bothTake len

def bothText (data : Bytes) : Read Reader Value :=
  match Utf8.decode? data with
  | some text => pure (.str text)
  | none => .refuse "UTF-8 解码失败"

def bothWord (n : Nat) : Read Reader Nat := fun r => if n < 2 ^ 64 then .ok (n, r) else .panic

def bothPrim : Primitive → Read Reader Value
  | .number => (fun (n : Nat) => .int (unzigzag (n % 2 ^ 64))) <$> Payload.varint id
  | .bigint => (fun (n : Nat) => .int (unzigzag (n % 2 ^ 64))) <$> Payload.varint id
  | .u64 => do
      let n ← Payload.varint id
      (fun (n : Nat) => .int n) <$> bothWord n
  | .bool => (fun b => .bool (b != 0)) <$> Payload.byte "bool 越界"
  | .str => do
      let data ← bothCounted
      bothText data
  | .bytes => .bytes <$> bothCounted
  | .f64 => (fun data => ofFloat (Float64.ofBytes data)) <$> bothTake 8
  | .f32 => (fun data => ofFloat (Float64.ofShortBytes data)) <$> bothTake 4

/-- Both take the varint for a length, or both for a number. -/
def bothOn (n : Nat) : Read Reader Value := fun r =>
  if n ≤ r.remaining then (guessed <$> bothTake n) r
  else if n % 2 ^ 64 = 0 ∨ r.remaining < n % 2 ^ 64 then .ok (.int (unzigzag (n % 2 ^ 64)), r)
  else .panic

/-- What Rust and Python read alike. It panics where they part. -/
def both : Dialect Value where
  prim := bothPrim
  count := do
    let n ← Payload.varint id
    bothWord n
  field := do
    let n ← Payload.varint id
    if n = 0 then pure (.int 0) else bothOn n
  null := .null
  seq := .seq
  record items := pure (.map items)
  inner := id

variable {checks : Bool}

theorem behind {α β γ : Type} {view : α → γ} {look : β → γ} {h : Nat → Read Reader γ} {f : UInt64 → Read Reader α}
    {g : Nat → Read Reader β} (next : ∀ n, Meets view look (h n) (f (UInt64.ofNat n)) (g n)) :
    Meets view look (Payload.varint id >>= h) (word >>= f) (Payload.varint id >>= g) := by
  apply Meets.at_each
  intro r
  cases front : r.number with
  | none =>
    obtain ⟨text, failed⟩ := varint_none Cut.whole front
    obtain ⟨other, also⟩ := word_none front
    rw [Read.bind_err.2 (Or.inl failed), Read.bind_err.2 (Or.inl also), Read.bind_err.2 (Or.inl failed)]
    exact Meets.refuse text other text
  | some pair =>
    obtain ⟨n, rest⟩ := pair
    have whole : Payload.varint id r = .ok (n, rest) := varint_some Cut.whole front
    rw [Read.bind_of_ok whole, Read.bind_of_ok (word_number front), Read.bind_of_ok whole]
    exact (next n).fixed rest

theorem python_take (len : Nat) (r : Reader) : take PythonCodec.plus len r =
    if r.remaining < len then .err "字节数据越界" else .ok (r.rest.take len, ⟨r.pos + len, r.rest.drop len⟩) := take_plain rfl

theorem take_meets (len : Nat) :
    Meets id id (bothTake len) (take (Machine.wide checks).plus (len % 2 ^ 64)) (take PythonCodec.plus len) := by
  have cut : len % 2 ^ 64 < 2 ^ 64 := Nat.mod_lt _ (by decide)
  have less : len % 2 ^ 64 ≤ len := Nat.mod_le _ _
  apply Meets.at_each
  intro r
  have left : take (Machine.wide checks).plus (len % 2 ^ 64) r = if 2 ^ 64 ≤ r.pos + len % 2 ^ 64 then .panic
      else if r.remaining < len % 2 ^ 64 then .err "字节数据越界"
      else .ok (r.rest.take (len % 2 ^ 64), ⟨r.pos + len % 2 ^ 64, r.rest.drop (len % 2 ^ 64)⟩) := take_eq (m := .wide checks) cut r
  have right := python_take len r
  by_cases fits : len ≤ r.remaining ∧ r.pos + len < 2 ^ 64
  · have small : len % 2 ^ 64 = len := Nat.mod_eq_of_lt (by omega)
    have enough : ¬ r.remaining < len := Nat.not_lt_of_le fits.1
    have here : ¬ 2 ^ 64 ≤ r.pos + len := Nat.not_le_of_lt fits.2
    rw [small] at left ⊢
    rw [bothTake, if_pos fits, left, if_neg here, if_neg enough, right, if_neg enough]
    exact Meets.reach (x := r.rest.take len) rfl _
  · by_cases short : r.remaining < len % 2 ^ 64 ∧ r.pos + len % 2 ^ 64 < 2 ^ 64
    · have here : ¬ 2 ^ 64 ≤ r.pos + len % 2 ^ 64 := Nat.not_le_of_lt short.2
      have beyond : r.remaining < len := Nat.lt_of_lt_of_le short.1 less
      rw [bothTake, if_neg fits, if_pos short, left, if_neg here, if_pos short.1, right, if_pos beyond]
      exact Meets.refuse "字节数据越界" "字节数据越界" "字节数据越界"
    · rw [bothTake, if_neg fits, if_neg short]
      apply Meets.apart
      intro _ rest last data more came went same
      obtain ⟨⟨within, enough⟩, rfl, _⟩ := (take_ok (m := .wide checks) cut).1 came
      have within : r.pos + len % 2 ^ 64 < 2 ^ 64 := within
      rw [python_take] at went
      by_cases beyond : r.remaining < len
      · rw [if_pos beyond] at went
        cases went
      · rw [if_neg beyond] at went
        cases went
        -- Taking the same bytes is taking as many, and the length was not cut.
        have lengths := congrArg List.length same
        rw [id, id, List.length_take, List.length_take] at lengths
        have left : min (len % 2 ^ 64) r.rest.length = len % 2 ^ 64 := Nat.min_eq_left enough
        have right : min len r.rest.length = len := Nat.min_eq_left (Nat.le_of_not_lt beyond)
        omega

theorem counted_meets : Meets id id bothCounted (DynamicCodec.counted (.wide checks)) PythonCodec.counted := by
  apply behind
  intro n
  rw [wide_usize_ofNat]
  exact take_meets n

theorem word_meets (n : Nat) : Meets id id (bothWord n) (pure ((Machine.wide checks).usize (UInt64.ofNat n))) (pure n) := by
  apply Meets.at_each
  intro r
  rw [wide_usize_ofNat, bothWord]
  by_cases fits : n < 2 ^ 64
  · rw [Nat.mod_eq_of_lt fits, if_pos fits]
    exact Meets.reach (x := n) rfl r
  · rw [if_neg fits]
    apply Meets.apart
    intro input rest last x y came went same
    cases came
    cases went
    have cut : n % 2 ^ 64 < 2 ^ 64 := Nat.mod_lt _ (by decide)
    have whole : n % 2 ^ 64 = n := same
    omega

theorem rust_number (n : Nat) : ofRust (.int (decodeWord (UInt64.ofNat n))) = .int (unzigzag (n % 2 ^ 64)) := by
  show Value.int (decodeWord (UInt64.ofNat n)).toInt = _
  rw [decodeWord_toInt, UInt64.toNat_ofNat']

theorem number_meets :
    Meets ofRust ofPython ((fun (n : Nat) => Value.int (unzigzag (n % 2 ^ 64))) <$> Payload.varint id)
      ((fun v => .int (decodeWord v)) <$> word) ((fun v => .int (PythonCodec.fromZigzag v)) <$> Payload.varint id) := by
  apply behind
  intro n
  have made : Meets ofRust ofPython (pure (ofRust (.int (decodeWord (UInt64.ofNat n)))) : Read Reader Value)
      (pure (.int (decodeWord (UInt64.ofNat n)))) (pure (.int (PythonCodec.fromZigzag n))) :=
    Meets.give ((rust_number n).trans (python_number n).symm)
  rw [rust_number] at made
  exact made

theorem u64_meets (n : Nat) :
    Meets ofRust ofPython ((fun (n : Nat) => Value.int n) <$> bothWord n) (pure (.uint (UInt64.ofNat n)))
      (pure (.int n)) := by
  have cut : ofRust (.uint (UInt64.ofNat n)) = .int ((n % 2 ^ 64 : Nat) : Int) := by
    show Value.int (UInt64.ofNat n).toNat = _
    rw [UInt64.toNat_ofNat']
  apply Meets.at_each
  intro r
  by_cases fits : n < 2 ^ 64
  · have same : ofRust (.uint (UInt64.ofNat n)) = ofPython (.int n) := by
      rw [cut, Nat.mod_eq_of_lt fits]
      rfl
    have here : ((fun (n : Nat) => Value.int n) <$> bothWord n) r = .ok (ofRust (.uint (UInt64.ofNat n)), r) := by
      rw [same]
      exact Read.map_ok.2 ⟨n, if_pos fits, rfl⟩
    rw [here]
    exact Meets.reach same r
  · have parts : ((fun (n : Nat) => Value.int n) <$> bothWord n) r = .panic := Read.map_panic.2 (if_neg fits)
    rw [parts]
    apply Meets.apart
    intro input rest last x y came went same
    cases came
    cases went
    rw [cut] at same
    have whole : ((n % 2 ^ 64 : Nat) : Int) = (n : Int) := Value.int.inj same
    omega

theorem text_meets (data : Bytes) :
    Meets ofRust ofPython (bothText data) (DynamicCodec.readText data) (PythonCodec.readText data) := by
  unfold bothText DynamicCodec.readText PythonCodec.readText
  cases Utf8.decode? data with
  | some text => exact Meets.give (x := DynamicCodec.Dynamic.str text) (y := PyValue.str text) rfl
  | none => exact Meets.refuse _ _ _

theorem python_text {data : Bytes} {r rest : Reader} {v : PyValue} (came : PythonCodec.readText data r = .ok (v, rest)) :
    ∃ text, v = .str text ∧ data = Utf8.encode text := by
  unfold PythonCodec.readText at came
  cases decoded : Utf8.decode? data with
  | some text =>
    rw [decoded] at came
    cases came
    exact ⟨text, rfl, (Utf8.decode?_eq_some.1 decoded).symm⟩
  | none =>
    rw [decoded] at came
    cases came

theorem float_meets {len : Nat} (few : len < 2 ^ 64) (f : Bytes → Float64.Bits) :
    Meets ofRust ofPython ((fun data => ofFloat (f data)) <$> bothTake len)
      ((fun data => .float (f data)) <$> take (Machine.wide checks).plus len)
      ((fun data => .float (f data)) <$> take PythonCodec.plus len) := by
  have taken : Meets id id (bothTake len) (take (Machine.wide checks).plus (len % 2 ^ 64)) (take PythonCodec.plus len) :=
    take_meets len
  rw [Nat.mod_eq_of_lt few] at taken
  refine taken.map (fun _ => rfl) (fun _ => rfl) (fun came went _ => ?_)
  obtain ⟨_, rfl, _⟩ := (take_ok (m := .wide checks) few).1 came
  rw [python_take] at went
  split at went
  · cases went
  · cases went
    rfl

theorem prim_meets (kind : Primitive) :
    Meets ofRust ofPython (bothPrim kind) (DynamicCodec.readPrim (.wide checks) kind) (PythonCodec.readPrim kind) := by
  cases kind with
  | number => exact number_meets
  | bigint => exact number_meets
  | u64 => exact behind u64_meets
  | bool =>
    apply Meets.after (Payload.byte "bool 越界")
    intro b
    exact Meets.give (x := DynamicCodec.Dynamic.bool (b != 0)) (y := PyValue.bool (b != 0)) rfl
  | bytes => exact counted_meets.map (fun _ => rfl) (fun _ => rfl) (fun _ _ same => Value.bytes.inj same)
  | f64 => exact float_meets (by decide) _
  | f32 => exact float_meets (by decide) _
  | str =>
    refine counted_meets.bind (fun data more same => ?_) ?_
    · cases same
      exact text_meets data
    · intro input rest other last final data more v w _ _ came went same
      obtain ⟨text, rfl, rfl, _⟩ := readText_ok.1 came
      obtain ⟨other, rfl, rfl⟩ := python_text went
      cases same
      rfl

theorem rust_on (n : Nat) (r : Reader) :
    (if UInt64.ofNat n = 0 then pure (.int 0) else DynamicCodec.readOn (.wide checks) (UInt64.ofNat n) : Read Reader _) r =
      if n % 2 ^ 64 = 0 then .ok (.int 0, r)
      else if n % 2 ^ 64 ≤ r.remaining then
        (DynamicCodec.inferred <$> take (Machine.wide checks).plus (n % 2 ^ 64)) r
      else .ok (.int (decodeWord (UInt64.ofNat n)), r) := by
  have word : (UInt64.ofNat n).toNat = n % 2 ^ 64 := UInt64.toNat_ofNat'
  by_cases zero : n % 2 ^ 64 = 0
  · have none : UInt64.ofNat n = 0 := UInt64.toNat_inj.1 (word.trans zero)
    rw [if_pos zero, if_pos none]
    rfl
  · have some : UInt64.ofNat n ≠ 0 := fun same => zero (word.symm.trans (congrArg UInt64.toNat same))
    rw [if_neg zero, if_neg some, DynamicCodec.readOn, wide_usize_ofNat]

theorem on_meets {n : Nat} (more : n ≠ 0) :
    Meets ofRust ofPython (bothOn n)
      (if UInt64.ofNat n = 0 then pure (.int 0) else DynamicCodec.readOn (.wide checks) (UInt64.ofNat n))
      (PythonCodec.inference.readOn n) := by
  apply Meets.at_each
  intro r
  have less : n % 2 ^ 64 ≤ n := Nat.mod_le _ _
  rw [rust_on, python_on, bothOn]
  by_cases enough : n ≤ r.remaining
  · rw [if_pos enough, if_pos enough]
    by_cases none : n % 2 ^ 64 = 0
    · -- Rust reads a zero, and no bytes at all.
      have parts : (guessed <$> bothTake n) r = .panic := by
        have wide : ¬ (n ≤ r.remaining ∧ r.pos + n < 2 ^ 64) := fun both => by omega
        have some : ¬ (r.remaining < n % 2 ^ 64 ∧ r.pos + n % 2 ^ 64 < 2 ^ 64) := fun both => by omega
        rw [Read.map_panic, bothTake, if_neg wide, if_neg some]
      rw [if_pos none, parts]
      apply Meets.apart
      intro input rest last x y came went same
      cases came
      obtain ⟨data, _, rfl⟩ := Read.map_ok.1 went
      rw [ofPython_inferred] at same
      exact guessed_ne_int data _ same.symm
    · rw [if_neg none, if_pos (Nat.le_trans less enough)]
      exact ((take_meets n).map ofRust_inferred ofPython_inferred (fun _ _ same => guessed_injective same)).fixed r
  · rw [if_neg enough, if_neg enough]
    by_cases none : n % 2 ^ 64 = 0
    · have zero : ofRust (.int 0) = .int (unzigzag (n % 2 ^ 64)) := by
        rw [none]
        rfl
      rw [if_pos none, if_pos (Or.inl none), ← zero]
      exact Meets.reach (zero.trans (python_number n).symm) r
    · rw [if_neg none]
      by_cases short : n % 2 ^ 64 ≤ r.remaining
      · have part : ¬ (n % 2 ^ 64 = 0 ∨ r.remaining < n % 2 ^ 64) := fun either => by omega
        rw [if_pos short, if_neg part]
        apply Meets.apart
        intro input rest last x y came went same
        cases went
        obtain ⟨data, _, rfl⟩ := Read.map_ok.1 came
        rw [ofRust_inferred] at same
        exact guessed_ne_int data _ same
      · rw [if_neg short, if_pos (Or.inr (Nat.lt_of_not_le short)), ← rust_number]
        exact Meets.reach ((rust_number n).trans (python_number n).symm) r

theorem field_meets : Meets ofRust ofPython both.field (rust (.wide checks)).field python.field := by
  apply behind
  intro n
  by_cases zero : n = 0
  · rw [zero]
    exact Meets.give (x := DynamicCodec.Dynamic.int 0) (y := PyValue.int 0) rfl
  · have meets : Meets ofRust ofPython (bothOn n)
        (if UInt64.ofNat n = 0 then pure (.int 0) else DynamicCodec.readOn (.wide checks) (UInt64.ofNat n))
        (PythonCodec.inference.readOn n) := on_meets zero
    rw [if_neg zero, if_neg zero]
    exact meets

theorem rust_scalar {m : Machine} {r rest : Reader} {v : DynamicCodec.Dynamic}
    (came : (rust m).field r = .ok (v, rest)) (items : List Value) : ofRust v ≠ .seq items := by
  have came : readField m r = .ok (v, rest) := came
  rw [readField_eq] at came
  intro same
  rcases Inference.field_value came with rfl | ⟨data, rfl⟩ | ⟨n, rfl⟩
  · cases same
  · exact guessed_ne_seq data items ((ofRust_inferred data).symm.trans same)
  · cases same

theorem count_meets : Meets id id both.count (rust (.wide checks)).count python.count := by
  have counted : Meets id id both.count (rust (.wide checks)).count (Payload.varint id >>= pure) := behind word_meets
  rw [Read.bind_pure] at counted
  exact counted

theorem rust_python : Dialect.Meet ofRust ofPython both (rust (.wide checks)) python where
  prim := prim_meets
  count := count_meets
  field := field_meets
  null := ⟨rfl, rfl⟩
  seqs := ⟨fun xs => congrArg Value.seq (ofRustItems_eq xs), fun ys => congrArg Value.seq (ofPythonItems_eq ys)⟩
  apart _ _ same := Value.seq.inj same
  scalar came := rust_scalar came _
  scalars came := python_scalar came _
  record items _ _ _ came := by
    cases came
    exact ⟨_, rfl, congrArg Value.map (ofRustFields_eq items)⟩
  records items _ _ _ came := by
    cases came
    exact ⟨_, rfl, congrArg Value.map (ofPythonFields_eq items)⟩
  both items others _ _ _ _ _ _ came went _ same := by
    cases came
    cases went
    have left : ofRust (.map items) = .map (items.map (Dialect.named ofRust)) := congrArg Value.map (ofRustFields_eq items)
    have right : ofPython (.dict others) = .map (others.map (Dialect.named ofPython)) :=
      congrArg Value.map (ofPythonFields_eq others)
    constructor
    · exact Value.map.inj (left.symm.trans (same.trans right))
    · rw [left]
      rfl
  built _ _ _ failed := by cases failed
  inner meets := meets

end EchoStream.Bindings.RustPython
