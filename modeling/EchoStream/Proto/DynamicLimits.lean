import EchoStream.Proto.DynamicCodec

/-! The limits of `usize` in the reader of payloads. A length is added to the position
before it is compared with the end, and it is cut to the machine's width before that. -/

namespace EchoStream.Proto.DynamicLimits
open Foundation.Formats Foundation.Reading Foundation.Zigzag
open Messages Payload DynamicCodec

variable {α β γ : Type} {m : Machine}

/-! Every read moves the position by as much as it takes off the front. -/

def Steady (read : Read Reader α) : Prop :=
  ∀ (r rest : Reader) (value : α), read r = .ok (value, rest) → rest.pos + rest.remaining = r.pos + r.remaining

theorem steady_along : Read.Along (fun r rest : Reader => rest.pos + rest.remaining = r.pos + r.remaining) :=
  ⟨fun _ => rfl, fun first later => later.trans first⟩

theorem Steady.pure (value : α) : Steady (pure value : Read Reader α) := Read.Moves.give steady_along value

theorem Steady.bind {first : Read Reader α} {next : α → Read Reader β} (steady : Steady first)
    (later : ∀ value, Steady (next value)) : Steady (first >>= next) :=
  Read.Moves.bind steady_along steady later

theorem Steady.map {read : Read Reader α} (steady : Steady read) (f : α → β) : Steady (f <$> read) :=
  Read.Moves.map steady f

theorem Steady.within {read : Read Reader α} (steady : Steady read) {limit : Nat} {r rest : Reader} {value : α}
    (start : r.pos + r.remaining < limit) (came : read r = .ok (value, rest)) : rest.pos + rest.remaining < limit := by
  rw [steady _ _ _ came]
  exact start

theorem number_steady {r rest : Reader} {n : Nat} (front : r.number = some (n, rest)) :
    rest.pos + rest.remaining = r.pos + r.remaining := by
  have shorter := number_remaining front
  obtain ⟨⟨m, bytes⟩, got, same⟩ := Option.map_eq_some_iff.1 front
  cases same
  simp only [Reader.remaining] at shorter ⊢
  omega

theorem word_steady : Steady word := by
  intro r rest v came
  obtain ⟨n, front, _⟩ := word_ok.1 came
  exact number_steady front

theorem take_steady (plus : Nat → Nat → Option Nat) (len : Nat) : Steady (take plus len) := by
  intro r rest data came
  obtain ⟨n, within, _, rfl⟩ := take_front_of_ok came
  simp only [Reader.remaining, List.length_drop] at within ⊢
  omega

theorem counted_steady : Steady (counted m) := word_steady.bind (fun _ => take_steady _ _)

theorem byte_steady (text : String) : Steady (byte text) := by
  intro r rest b came
  obtain ⟨pos, bytes⟩ := r
  cases bytes with
  | nil => cases came
  | cons b bytes =>
    cases came
    simp only [Reader.remaining, List.length_cons]
    omega

theorem prim_steady (kind : Primitive) : Steady (readPrim m kind) := by
  cases kind with
  | number => exact word_steady.map _
  | bigint => exact word_steady.map _
  | u64 => exact word_steady.map _
  | bool => exact (byte_steady _).map _
  | bytes => exact counted_steady.map _
  | f64 => exact (take_steady _ _).map _
  | f32 => exact (take_steady _ _).map _
  | str =>
    refine counted_steady.bind (fun data => ?_)
    intro r rest value came
    rw [readText] at came
    cases decoded : Foundation.Utf8.decode? data with
    | some text =>
      rw [decoded] at came
      exact Steady.pure _ _ _ _ came
    | none =>
      rw [decoded] at came
      cases came

theorem readOn_steady (v : UInt64) : Steady (readOn m v) := by
  intro r rest value came
  unfold readOn at came
  split at came
  · exact (take_steady _ _).map _ _ _ _ came
  · cases came
    rfl

theorem field_steady : Steady (readField m) := by
  refine word_steady.bind (fun v => ?_)
  by_cases zero : v = 0
  · rw [if_pos zero]
    exact Steady.pure _
  · rw [if_neg zero]
    exact readOn_steady v

theorem count_steady : Steady (rust m).count := word_steady.map m.usize

theorem auto_steady : Steady (rust m).auto := Dialect.auto_moves steady_along field_steady

theorem times_steady {read : Read Reader α} (steady : Steady read) (count : Nat) : Steady (read.times count) :=
  Read.Moves.times steady_along steady count

theorem value_steady (schema : Schema) : Steady ((rust m).value schema (rust m).auto) := by
  apply Dialect.value_moves steady_along
  · exact fun kind => prim_steady kind
  · exact count_steady
  · exact auto_steady
  · exact fun items => Steady.pure (Dynamic.map items)

theorem values_steady (schemas : List Schema) : Steady ((rust m).values schemas (rust m).auto) :=
  Dialect.values_moves steady_along (fun schema _ => value_steady schema)

theorem fields_steady (schemas : List (String × Schema)) : Steady ((rust m).fields schemas (rust m).auto) :=
  Dialect.fields_moves steady_along (fun field _ => value_steady field.2)

/-! Panics. -/

/-- The reading by the schema comes to a primitive type at the reader's last position,
having read all before it. -/
inductive Reaches (m : Machine) : Schema → Reader → Primitive → Reader → Prop where
  | prim (kind : Primitive) (r : Reader) : Reaches m (.prim kind) r kind r
  | list {item : Schema} {r mid here s : Reader} {len k : Nat} {values : List DynamicCodec.Dynamic} {kind : Primitive}
      (count : (rust m).count r = .ok (len, mid)) (within : k < len)
      (before : ((rust m).value item (rust m).auto).times k mid = .ok (values, here))
      (there : Reaches m item here kind s) : Reaches m (.list item) r kind s
  | seq {first after : List Schema} {item : Schema} {r here s : Reader} {values : List DynamicCodec.Dynamic} {kind : Primitive}
      (before : (rust m).values first (rust m).auto r = .ok (values, here)) (there : Reaches m item here kind s) :
      Reaches m (.seq (first ++ item :: after)) r kind s
  | map {first after : List (String × Schema)} {field : String × Schema} {r here s : Reader}
      {values : List (String × DynamicCodec.Dynamic)} {kind : Primitive}
      (before : (rust m).fields first (rust m).auto r = .ok (values, here)) (there : Reaches m field.2 here kind s) :
      Reaches m (.map (first ++ field :: after)) r kind s

theorem Reaches.steady {schema : Schema} {r s : Reader} {kind : Primitive} (there : Reaches m schema r kind s) :
    s.pos + s.remaining = r.pos + r.remaining := by
  induction there with
  | prim kind r => rfl
  | list count _ before _ ih =>
    have start := count_steady _ _ _ count
    exact ih.trans ((times_steady (value_steady _) _ _ _ _ before).trans start)
  | seq before _ ih => exact ih.trans (values_steady _ _ _ _ before)
  | map before _ ih => exact ih.trans (fields_steady _ _ _ _ before)

theorem word_calm (r : Reader) : word r ≠ .panic := fun panics => varint_calm (Cut.mod 64) r (Read.map_panic.1 panics)

theorem readOn_calm (v : UInt64) {r : Reader} (slice : r.pos + r.remaining < 2 ^ m.bits) : readOn m v r ≠ .panic := by
  intro panics
  unfold readOn at panics
  split at panics
  · rename_i enough
    have sum : m.plus r.pos (m.usize v) = some (r.pos + m.usize v) := if_pos (by omega)
    have taken := Read.map_panic.1 panics
    rw [take_plain sum, if_neg (Nat.not_lt_of_le enough)] at taken
    cases taken
  · cases panics

theorem field_calm {r : Reader} (slice : r.pos + r.remaining < 2 ^ m.bits) : readField m r ≠ .panic := by
  intro panics
  rcases Read.bind_panic.1 panics with here | ⟨v, mid, came, later⟩
  · exact word_calm r here
  · by_cases zero : v = 0
    · rw [if_pos zero] at later
      cases later
    · rw [if_neg zero] at later
      exact readOn_calm v (Steady.within word_steady slice came) later

theorem auto_calm {r : Reader} (slice : r.pos + r.remaining < 2 ^ m.bits) : (rust m).auto r ≠ .panic := by
  intro panics
  unfold Dialect.auto at panics
  split at panics
  · cases panics
  · exact Read.toEnd_calm (fun s : Reader => s.pos + s.remaining < 2 ^ m.bits)
      (fun start came => Steady.within field_steady start came) (fun _ start => field_calm start) slice
      (Read.map_panic.1 panics)

theorem values_panic {schemas : List Schema} {r : Reader} (panics : (rust m).values schemas (rust m).auto r = .panic) :
    ∃ first item after values here, schemas = first ++ item :: after ∧
      (rust m).values first (rust m).auto r = .ok (values, here) ∧ (rust m).value item (rust m).auto here = .panic := by
  induction schemas generalizing r with
  | nil => cases panics
  | cons item items ih =>
    rcases Read.cons_panic.1 panics with here | ⟨value, mid, came, later⟩
    · exact ⟨[], item, items, [], r, rfl, rfl, here⟩
    · obtain ⟨first, other, after, values, here, parts, went, stops⟩ := ih later
      exact ⟨item :: first, other, after, value :: values, here, congrArg (item :: ·) parts,
        Read.cons_ok.2 ⟨value, mid, values, came, went, rfl⟩, stops⟩

theorem values_panics {first after : List Schema} {item : Schema} {r here : Reader} {values : List DynamicCodec.Dynamic}
    (came : (rust m).values first (rust m).auto r = .ok (values, here))
    (stops : (rust m).value item (rust m).auto here = .panic) :
    (rust m).values (first ++ item :: after) (rust m).auto r = .panic := by
  induction first generalizing r values with
  | nil =>
    cases came
    exact Read.cons_panic.2 (Or.inl stops)
  | cons other first ih =>
    obtain ⟨value, mid, rest, went, later, _⟩ := Read.cons_ok.1 came
    exact Read.cons_panic.2 (Or.inr ⟨value, mid, went, ih later⟩)

theorem fields_panic {schemas : List (String × Schema)} {r : Reader}
    (panics : (rust m).fields schemas (rust m).auto r = .panic) :
    ∃ first field after values here, schemas = first ++ field :: after ∧
      (rust m).fields first (rust m).auto r = .ok (values, here) ∧ (rust m).value field.2 (rust m).auto here = .panic := by
  induction schemas generalizing r with
  | nil => cases panics
  | cons field fields ih =>
    rcases Read.cons_panic.1 panics with here | ⟨value, mid, came, later⟩
    · exact ⟨[], field, fields, [], r, rfl, rfl, Read.map_panic.1 here⟩
    · obtain ⟨first, other, after, values, here, parts, went, stops⟩ := ih later
      exact ⟨field :: first, other, after, value :: values, here, congrArg (field :: ·) parts,
        Read.cons_ok.2 ⟨value, mid, values, came, went, rfl⟩, stops⟩

theorem fields_panics {first after : List (String × Schema)} {field : String × Schema} {r here : Reader}
    {values : List (String × DynamicCodec.Dynamic)} (came : (rust m).fields first (rust m).auto r = .ok (values, here))
    (stops : (rust m).value field.2 (rust m).auto here = .panic) :
    (rust m).fields (first ++ field :: after) (rust m).auto r = .panic := by
  induction first generalizing r values with
  | nil =>
    cases came
    exact Read.cons_panic.2 (Or.inl (Read.map_panic.2 stops))
  | cons other first ih =>
    obtain ⟨value, mid, rest, went, later, _⟩ := Read.cons_ok.1 came
    exact Read.cons_panic.2 (Or.inr ⟨value, mid, went, ih later⟩)

/-- A reading panics just when it comes to a primitive type that panics. -/
theorem value_panic (schema : Schema) {r : Reader} (slice : r.pos + r.remaining < 2 ^ m.bits) :
    (rust m).value schema (rust m).auto r = .panic ↔ ∃ kind s, Reaches m schema r kind s ∧ readPrim m kind s = .panic := by
  induction schema using Schema.induct generalizing r with
  | auto =>
    constructor
    · exact fun panics => absurd panics (auto_calm slice)
    · rintro ⟨kind, s, there, _⟩
      cases there
  | prim kind =>
    constructor
    · exact fun panics => ⟨kind, r, .prim kind r, panics⟩
    · rintro ⟨_, _, there, panics⟩
      cases there
      exact panics
  | list item ih =>
    have items : ∀ k, Steady (((rust m).value item (rust m).auto).times k) := times_steady (value_steady item)
    constructor
    · intro panics
      rcases Read.bind_panic.1 panics with here | ⟨len, mid, counted, later⟩
      · exact absurd (Read.map_panic.1 here) (word_calm r)
      · obtain ⟨k, values, here, within, came, stops⟩ := Read.times_panic.1 (Read.map_panic.1 later)
        obtain ⟨kind, s, there, panics⟩ := (ih ((items k).within (Steady.within count_steady slice counted) came)).1 stops
        exact ⟨kind, s, .list counted within came there, panics⟩
    · rintro ⟨kind, s, there, panics⟩
      cases there with
      | list counted within came there =>
        have stops := (ih ((items _).within (Steady.within count_steady slice counted) came)).2 ⟨kind, s, there, panics⟩
        exact Read.bind_panic.2 (Or.inr ⟨_, _, counted, Read.map_panic.2 (Read.times_panic.2 ⟨_, _, _, within, came, stops⟩)⟩)
  | seq schemas ih =>
    constructor
    · intro panics
      obtain ⟨first, item, after, values, here, parts, came, stops⟩ := values_panic (Read.map_panic.1 panics)
      obtain ⟨kind, s, there, panics⟩ := (ih item (by simp [parts]) (Steady.within (values_steady first) slice came)).1 stops
      rw [parts]
      exact ⟨kind, s, .seq came there, panics⟩
    · rintro ⟨kind, s, there, panics⟩
      cases there with
      | seq came there =>
        rename_i first after item here values
        have stops := (ih item (by simp) (Steady.within (values_steady first) slice came)).2 ⟨kind, s, there, panics⟩
        exact Read.map_panic.2 (values_panics came stops)
  | map fields ih =>
    constructor
    · intro panics
      rcases Read.bind_panic.1 panics with stops | ⟨_, _, _, made⟩
      · obtain ⟨first, field, after, values, here, parts, came, stops⟩ := fields_panic stops
        obtain ⟨kind, s, there, panics⟩ := (ih field (by simp [parts]) (Steady.within (fields_steady first) slice came)).1 stops
        rw [parts]
        exact ⟨kind, s, .map came there, panics⟩
      · cases made
    · rintro ⟨kind, s, there, panics⟩
      cases there with
      | map came there =>
        rename_i first after field here values
        have stops := (ih field (by simp) (Steady.within (fields_steady first) slice came)).2 ⟨kind, s, there, panics⟩
        exact Read.bind_panic.2 (Or.inl (fields_panics came stops))

/-- An end beyond `usize` panics: the sum does, or it has wrapped to before the start. -/
theorem take_wraps {len : Nat} (short : len < 2 ^ m.bits) {r : Reader} (beyond : 2 ^ m.bits ≤ r.pos + len) :
    take m.plus len r = .panic := by
  have out : ¬ r.pos + len < 2 ^ m.bits := Nat.not_lt_of_le beyond
  cases checked : m.checks with
  | true =>
    have none : m.plus r.pos len = none := by rw [Machine.plus, if_neg out, checked, if_pos rfl]
    rw [take, none]
  | false =>
    have some : m.plus r.pos len = some ((r.pos + len) % 2 ^ m.bits) := by
      rw [Machine.plus, if_neg out, checked, if_neg Bool.false_ne_true]
    have before : (r.pos + len) % 2 ^ m.bits < r.pos := by
      by_cases high : 2 ^ m.bits ≤ r.pos
      · exact Nat.lt_of_lt_of_le (Nat.mod_lt _ (Nat.two_pow_pos _)) high
      · rw [Nat.mod_eq_sub_mod beyond, Nat.mod_eq_of_lt (by omega)]
        omega
    have inside : ¬ r.pos + r.rest.length < (r.pos + len) % 2 ^ m.bits := by omega
    rw [take, some]
    show (if r.pos + r.rest.length < (r.pos + len) % 2 ^ m.bits then _ else _) = _
    rw [if_neg inside, if_pos before]

theorem take_eq {len : Nat} (short : len < 2 ^ m.bits) (r : Reader) :
    take m.plus len r = if 2 ^ m.bits ≤ r.pos + len then .panic
      else if r.remaining < len then .err "字节数据越界" else .ok (r.rest.take len, ⟨r.pos + len, r.rest.drop len⟩) := by
  by_cases beyond : 2 ^ m.bits ≤ r.pos + len
  · rw [if_pos beyond, take_wraps short beyond]
  · rw [if_neg beyond, take_plain (if_pos (Nat.lt_of_not_le beyond))]

theorem take_panic {len : Nat} (short : len < 2 ^ m.bits) {r : Reader} :
    take m.plus len r = .panic ↔ 2 ^ m.bits ≤ r.pos + len := by
  rw [take_eq short]
  constructor
  · intro panics
    by_contra within
    rw [if_neg within] at panics
    split at panics <;> cases panics
  · exact fun beyond => if_pos beyond

theorem take_ok {len : Nat} (short : len < 2 ^ m.bits) {r rest : Reader} {data : Bytes} :
    take m.plus len r = .ok (data, rest) ↔ (r.pos + len < 2 ^ m.bits ∧ len ≤ r.remaining) ∧
      data = r.rest.take len ∧ rest = ⟨r.pos + len, r.rest.drop len⟩ := by
  rw [take_eq short]
  constructor
  · intro came
    split at came
    · cases came
    · split at came
      · cases came
      · cases came
        exact ⟨⟨by omega, by omega⟩, rfl, rfl⟩
  · rintro ⟨⟨within, enough⟩, rfl, rfl⟩
    rw [if_neg (Nat.not_le_of_lt within), if_neg (Nat.not_lt_of_le enough)]

theorem usize_lt (v : UInt64) : m.usize v < 2 ^ m.bits := Nat.mod_lt _ (Nat.two_pow_pos _)

theorem counted_panic {r : Reader} :
    counted m r = .panic ↔ ∃ v rest, word r = .ok (v, rest) ∧ 2 ^ m.bits ≤ rest.pos + m.usize v := by
  rw [counted, Read.bind_panic]
  constructor
  · rintro (panics | ⟨v, rest, came, later⟩)
    · exact absurd panics (word_calm r)
    · exact ⟨v, rest, came, (take_panic (usize_lt v)).1 later⟩
  · rintro ⟨v, rest, came, beyond⟩
    exact Or.inr ⟨v, rest, came, (take_panic (usize_lt v)).2 beyond⟩

theorem readText_calm (data : Bytes) (r : Reader) : readText data r ≠ .panic := by
  intro panics
  unfold readText at panics
  cases decoded : Foundation.Utf8.decode? data with
  | some text =>
    rw [decoded] at panics
    cases panics
  | none =>
    rw [decoded] at panics
    cases panics

/-- Of the primitive types only those with a length in front can panic on a slice. -/
theorem prim_panic {kind : Primitive} {r : Reader} (slice : r.pos + 8 < 2 ^ m.bits) :
    readPrim m kind r = .panic ↔
      (kind = .str ∨ kind = .bytes) ∧ ∃ v rest, word r = .ok (v, rest) ∧ 2 ^ m.bits ≤ rest.pos + m.usize v := by
  have calm : ∀ {len : Nat}, len ≤ 8 → take m.plus len r ≠ .panic := by
    intro len small panics
    have beyond := (take_panic (by omega)).1 panics
    omega
  cases kind with
  | number => exact ⟨fun panics => absurd (Read.map_panic.1 panics) (word_calm r), by simp⟩
  | bigint => exact ⟨fun panics => absurd (Read.map_panic.1 panics) (word_calm r), by simp⟩
  | u64 => exact ⟨fun panics => absurd (Read.map_panic.1 panics) (word_calm r), by simp⟩
  | bool =>
    refine ⟨fun panics => ?_, by simp⟩
    have here : Payload.byte "bool 越界" r = .panic := Read.map_panic.1 panics
    unfold Payload.byte at here
    split at here <;> cases here
  | f64 => exact ⟨fun panics => absurd (Read.map_panic.1 panics) (calm (Nat.le_refl 8)), by simp⟩
  | f32 => exact ⟨fun panics => absurd (Read.map_panic.1 panics) (calm (by decide)), by simp⟩
  | bytes =>
    constructor
    · exact fun panics => ⟨Or.inr rfl, counted_panic.1 (Read.map_panic.1 panics)⟩
    · exact fun long => Read.map_panic.2 (counted_panic.2 long.2)
  | str =>
    constructor
    · intro panics
      rcases Read.bind_panic.1 panics with here | ⟨data, rest, _, later⟩
      · exact ⟨Or.inl rfl, counted_panic.1 here⟩
      · exact absurd later (readText_calm data rest)
    · exact fun long => Read.bind_panic.2 (Or.inl (counted_panic.2 long.2))

/-- At most `isize::MAX` bytes. -/
structure Slice where
  bytes : Bytes
  short : bytes.length < 2 ^ 63

/-- At a string or at bytes, with a length in front that takes the position beyond 64 bits. -/
def Overlong (kind : Primitive) (s : Reader) : Prop :=
  (kind = .str ∨ kind = .bytes) ∧ ∃ n rest, s.number = some (n, rest) ∧ 2 ^ 64 ≤ rest.pos + n % 2 ^ 64

theorem wide_usize_ofNat {checks : Bool} (n : Nat) : (Machine.wide checks).usize (UInt64.ofNat n) = n % 2 ^ 64 := by
  rw [Machine.usize, UInt64.toNat_ofNat']
  exact Nat.mod_mod n _

theorem overlong_iff {checks : Bool} {kind : Primitive} {s : Reader} :
    Overlong kind s ↔ (kind = .str ∨ kind = .bytes) ∧
      ∃ v rest, word s = .ok (v, rest) ∧ 2 ^ 64 ≤ rest.pos + (Machine.wide checks).usize v := by
  constructor
  · rintro ⟨sized, n, rest, front, beyond⟩
    exact ⟨sized, UInt64.ofNat n, rest, word_number front, (wide_usize_ofNat n).symm ▸ beyond⟩
  · rintro ⟨sized, v, rest, came, beyond⟩
    obtain ⟨n, front, rfl⟩ := word_ok.1 came
    exact ⟨sized, n, rest, front, wide_usize_ofNat n ▸ beyond⟩

theorem finish_panic {outcome : Outcome (α × Reader)} : Dialect.finish outcome = .panic ↔ outcome = .panic := by
  cases outcome with
  | ok pair =>
    rw [Dialect.finish]
    constructor
    · intro panics
      split at panics <;> cases panics
    · intro panics
      cases panics
  | err text =>
    constructor
    · intro panics
      cases panics
    · intro panics
      cases panics
  | panic => exact iff_of_true rfl rfl

theorem top_eq (schema : Schema) : (rust m).top schema = (rust m).value schema (rust m).auto := by
  cases schema <;> rfl

/-- On a machine of 64 bits a payload is decoded or refused, without a panic, just when
the reading does not come to a string or to bytes with such a length. -/
theorem never_panics_iff (checks : Bool) (slice : Slice) (schema : Schema) :
    decodeWith (.wide checks) slice.bytes schema ≠ .panic ↔
      ∀ kind s, Reaches (.wide checks) schema (.new slice.bytes) kind s → ¬ Overlong kind s := by
  have start : (Reader.new slice.bytes).pos + (Reader.new slice.bytes).remaining < 2 ^ (Machine.wide checks).bits := by
    have short := slice.short
    show 0 + slice.bytes.length < 2 ^ 64
    omega
  rw [decodeWith, Dialect.decode, ne_eq, finish_panic, top_eq, value_panic schema start]
  have room : ∀ {kind s}, Reaches (.wide checks) schema (.new slice.bytes) kind s → s.pos + 8 < 2 ^ (Machine.wide checks).bits := by
    intro kind s there
    have short := slice.short
    have same : s.pos + s.remaining = 0 + slice.bytes.length := there.steady
    show s.pos + 8 < 2 ^ 64
    omega
  constructor
  · intro calm kind s there long
    exact calm ⟨kind, s, there, (prim_panic (room there)).2 (overlong_iff.1 long)⟩
  · rintro short ⟨kind, s, there, panics⟩
    exact short kind s there (overlong_iff.2 ((prim_panic (room there)).1 panics))

/-- The length `u64::MAX` is out of range. It panics in every build. -/
theorem overlong_panics : ∃ slice schema, ∀ checks, decodeWith (.wide checks) (Slice.bytes slice) schema = .panic := by
  refine ⟨⟨[0xff, 0xff, 0xff, 0xff, 0xff, 0xff, 0xff, 0xff, 0xff, 0x01], by decide⟩, .prim .bytes, ?_⟩
  intro checks
  cases checks <;> rfl

end EchoStream.Proto.DynamicLimits
