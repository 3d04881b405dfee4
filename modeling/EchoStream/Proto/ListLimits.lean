import EchoStream.Proto.DynamicLimits

/-! The number of items in front of a list. Items that take a byte run out with the
payload. Others do not: an empty tuple takes nothing, and an inference takes nothing where
nothing is left. These are read as often as the number says. -/

namespace EchoStream.Proto.ListLimits
open Foundation.Formats Foundation.Reading
open Messages Payload Inferring DynamicCodec DynamicLimits

variable {m : Machine}

/-! The parts of tuples and structs. -/

/-- What is read one behind the other for a tuple or a struct. -/
def parts : Schema → List Schema
  | .seq items => items
  | .map fields => fields.map Prod.snd
  | _ => []

def Tuple (schema : Schema) : Prop := (∃ items, schema = .seq items) ∨ ∃ fields, schema = .map fields

/-- A schema of the kind, or a tuple or struct with one in it. -/
inductive Within (kind : Schema → Prop) : Schema → Prop where
  | here {schema : Schema} (is : kind schema) : Within kind schema
  | part {schema part : Schema} (member : part ∈ parts schema) (inner : Within kind part) : Within kind schema

/-- Whatever it reads, it takes a byte. -/
def Eats : Schema → Prop := Within (fun schema => (∃ kind, schema = .prim kind) ∨ ∃ item, schema = .list item)

def Infers : Schema → Prop := Within (· = .auto)

/-- The reading by the schema comes to a part of it, having read all before it. -/
inductive Visits (m : Machine) : Schema → Reader → Schema → Reader → Prop where
  | here (schema : Schema) (r : Reader) : Visits m schema r schema r
  | list {item inner : Schema} {r mid here s : Reader} {len k : Nat} {values : List DynamicCodec.Dynamic}
      (count : (rust m).count r = .ok (len, mid)) (within : k < len)
      (before : ((rust m).value item (rust m).auto).times k mid = .ok (values, here))
      (there : Visits m item here inner s) : Visits m (.list item) r inner s
  | part {schema part inner : Schema} {first after : List Schema} {r here s : Reader} {values : List DynamicCodec.Dynamic}
      (split : parts schema = first ++ part :: after)
      (before : (rust m).values first (rust m).auto r = .ok (values, here))
      (there : Visits m part here inner s) : Visits m schema r inner s

mutual

/-- The calls of `value`, and the turns of the inference. -/
def calls (m : Machine) : Schema → Reader → Nat
  | .auto, r => 1 + Read.turns Reader.remaining (readField m) r.remaining r
  | .prim _, _ => 1
  | .list item, r =>
      1 + Read.behind (rust m).count (fun len => Read.timesWork (calls m item) ((rust m).value item (rust m).auto) len) r
  | .seq items, r => 1 + callsEach m items r
  | .map fields, r => 1 + callsFields m fields r

def callsEach (m : Machine) : List Schema → Reader → Nat
  | [], _ => 0
  | item :: items, r => calls m item r + Read.behind ((rust m).value item (rust m).auto) (fun _ => callsEach m items) r

def callsFields (m : Machine) : List (String × Schema) → Reader → Nat
  | [], _ => 0
  | (_, item) :: items, r =>
      calls m item r + Read.behind ((rust m).value item (rust m).auto) (fun _ => callsFields m items) r

end

mutual

/-- A bound on the calls, by the schema and the number of bytes. -/
def most (bytes : Nat) : Schema → Nat
  | .auto => 1 + bytes
  | .prim _ => 1
  | .list item => 1 + (bytes + 1) * most bytes item
  | .seq items => 1 + mostEach bytes items
  | .map fields => 1 + mostFields bytes fields

def mostEach (bytes : Nat) : List Schema → Nat
  | [] => 0
  | item :: items => most bytes item + mostEach bytes items

def mostFields (bytes : Nat) : List (String × Schema) → Nat
  | [] => 0
  | (_, item) :: items => most bytes item + mostFields bytes items

end

/-- No list has more items than so many, also not one that is read in part. -/
def Short (m : Machine) (many : Nat) (schema : Schema) (r : Reader) : Prop :=
  ∀ item s len mid k values here, Visits m schema r (.list item) s → (rust m).count s = .ok (len, mid) → k ≤ len →
    ((rust m).value item (rust m).auto).times k mid = .ok (values, here) → values.length ≤ many

/-- The number in front is no more than so many, or an item takes a byte, or the first item
infers from what cannot be split into fields. -/
def Fine (m : Machine) (many : Nat) (item : Schema) (s : Reader) : Prop :=
  ∀ len mid, (rust m).count s = .ok (len, mid) →
    len ≤ many ∨ Eats item ∨ (Infers item ∧ ∀ values, ¬ Inference.Splits (inference m) mid.rest values)

theorem induct_parts {holds : Schema → Prop} (auto : holds .auto) (prim : ∀ kind, holds (.prim kind))
    (list : ∀ item, holds item → holds (.list item))
    (tuple : ∀ schema, Tuple schema → (∀ part ∈ parts schema, holds part) → holds schema) (schema : Schema) :
    holds schema := by
  induction schema using Schema.induct with
  | auto => exact auto
  | prim kind => exact prim kind
  | list item ih => exact list item ih
  | seq items ih => exact tuple _ (Or.inl ⟨items, rfl⟩) ih
  | map fields ih =>
    apply tuple _ (Or.inr ⟨fields, rfl⟩)
    intro part member
    obtain ⟨field, there, rfl⟩ := List.mem_map.1 member
    exact ih field there

theorem fields_ok {fields : List (String × Schema)} {r rest : Reader} :
    (∃ items, (rust m).fields fields (rust m).auto r = .ok (items, rest)) ↔
      ∃ values, (rust m).values (fields.map Prod.snd) (rust m).auto r = .ok (values, rest) := by
  induction fields generalizing r with
  | nil =>
    constructor
    · rintro ⟨_, came⟩
      cases came
      exact ⟨[], rfl⟩
    · rintro ⟨_, came⟩
      cases came
      exact ⟨[], rfl⟩
  | cons field fields ih =>
    constructor
    · rintro ⟨_, came⟩
      obtain ⟨named, mid, items, first, later, _⟩ := Read.cons_ok.1 came
      obtain ⟨value, read, _⟩ := Read.map_ok.1 first
      obtain ⟨values, went⟩ := ih.1 ⟨items, later⟩
      exact ⟨value :: values, Read.cons_ok.2 ⟨value, mid, values, read, went, rfl⟩⟩
    · rintro ⟨_, came⟩
      obtain ⟨value, mid, values, read, later, _⟩ := Read.cons_ok.1 came
      obtain ⟨items, went⟩ := ih.2 ⟨values, later⟩
      exact ⟨(field.1, value) :: items,
        Read.cons_ok.2 ⟨(field.1, value), mid, items, Read.map_ok.2 ⟨value, read, rfl⟩, went, rfl⟩⟩

theorem tuple_ok {schema : Schema} (tuple : Tuple schema) {r rest : Reader} :
    (∃ v, (rust m).value schema (rust m).auto r = .ok (v, rest)) ↔
      ∃ values, (rust m).values (parts schema) (rust m).auto r = .ok (values, rest) := by
  rcases tuple with ⟨items, rfl⟩ | ⟨fields, rfl⟩
  · constructor
    · rintro ⟨_, came⟩
      obtain ⟨values, read, _⟩ := Read.map_ok.1 came
      exact ⟨values, read⟩
    · rintro ⟨values, read⟩
      exact ⟨.seq values, Read.map_ok.2 ⟨values, read, rfl⟩⟩
  · refine Iff.trans ?_ fields_ok
    constructor
    · rintro ⟨_, came⟩
      obtain ⟨items, mid, read, made⟩ := Read.bind_ok.1 came
      cases made
      exact ⟨items, read⟩
    · rintro ⟨items, read⟩
      exact ⟨.map items, Read.bind_ok.2 ⟨items, rest, read, rfl⟩⟩

theorem callsFields_eq (fields : List (String × Schema)) : callsFields m fields = callsEach m (fields.map Prod.snd) := by
  induction fields with
  | nil => rfl
  | cons field fields ih =>
    funext r
    rw [callsFields, List.map_cons, callsEach, ih]

theorem mostFields_eq (many : Nat) (fields : List (String × Schema)) :
    mostFields many fields = mostEach many (fields.map Prod.snd) := by
  induction fields with
  | nil => rfl
  | cons field fields ih => rw [mostFields, List.map_cons, mostEach, ih]

theorem tuple_calls {schema : Schema} (tuple : Tuple schema) (r : Reader) :
    calls m schema r = 1 + callsEach m (parts schema) r := by
  rcases tuple with ⟨items, rfl⟩ | ⟨fields, rfl⟩
  · rw [calls, parts]
  · rw [calls, parts, callsFields_eq]

theorem tuple_most (many : Nat) {schema : Schema} (tuple : Tuple schema) :
    most many schema = 1 + mostEach many (parts schema) := by
  rcases tuple with ⟨items, rfl⟩ | ⟨fields, rfl⟩
  · rw [most, parts]
  · rw [most, parts, mostFields_eq]

/-! What reading leaves. -/

theorem word_shrinks : Read.Shrinks Reader.remaining word := by
  intro r rest v came
  obtain ⟨n, front, _⟩ := word_ok.1 came
  exact number_remaining front

theorem count_shrinks : Read.Shrinks Reader.remaining (rust m).count := word_shrinks.map m.usize

theorem take_falls (plus : Nat → Nat → Option Nat) (len : Nat) : Read.Falls Reader.remaining (take plus len) :=
  fun _ _ _ came => Inference.take_shorter came

theorem counted_shrinks : Read.Shrinks Reader.remaining (counted m) :=
  word_shrinks.bind (fun v => take_falls m.plus (m.usize v))

theorem floats_shrink {len : Nat} (some : 0 < len) (few : len < 2 ^ m.bits) :
    Read.Shrinks Reader.remaining (take m.plus len) := by
  intro r rest data came
  obtain ⟨⟨_, enough⟩, _, rfl⟩ := (take_ok few).1 came
  simp only [Reader.remaining, List.length_drop] at enough ⊢
  omega

theorem byte_shrinks (text : String) : Read.Shrinks Reader.remaining (byte text) := by
  intro r rest b came
  obtain ⟨pos, bytes⟩ := r
  cases bytes with
  | nil => cases came
  | cons b bytes =>
    cases came
    exact Nat.lt_succ_self _

theorem readText_falls (data : Bytes) : Read.Falls Reader.remaining (readText data) := by
  intro r rest v came
  obtain ⟨_, _, _, rfl⟩ := readText_ok.1 came
  exact Nat.le_refl _

theorem prim_shrinks (real : 16 ≤ m.bits) (kind : Primitive) : Read.Shrinks Reader.remaining (readPrim m kind) := by
  have wide : 2 ^ 16 ≤ 2 ^ m.bits := Nat.pow_le_pow_right (by decide) real
  have floats : ∀ {len : Nat}, 0 < len → len < 16 → Read.Shrinks Reader.remaining (take m.plus len) :=
    fun some few => floats_shrink some (by omega)
  intro r rest v came
  cases kind with
  | number => exact Read.Shrinks.map word_shrinks _ came
  | bigint => exact Read.Shrinks.map word_shrinks _ came
  | u64 => exact Read.Shrinks.map word_shrinks _ came
  | bool => exact Read.Shrinks.map (byte_shrinks _) _ came
  | str => exact Read.Shrinks.bind counted_shrinks readText_falls came
  | bytes => exact Read.Shrinks.map counted_shrinks _ came
  | f64 => exact Read.Shrinks.map (floats (by decide) (by decide)) _ came
  | f32 => exact Read.Shrinks.map (floats (by decide) (by decide)) _ came

theorem field_shrinks : Read.Shrinks Reader.remaining (readField m) := by
  rw [readField_eq]
  exact Inference.field_shrinks (rust_sound m).cuts

theorem bytes_along : Read.Along (fun r rest : Reader => rest.remaining ≤ r.remaining) := Read.falls_along Reader.remaining

theorem value_falls (real : 16 ≤ m.bits) (schema : Schema) :
    Read.Falls Reader.remaining ((rust m).value schema (rust m).auto) := by
  apply Dialect.value_moves bytes_along
  · exact fun kind => Read.Shrinks.falls (prim_shrinks real kind)
  · exact Read.Shrinks.falls count_shrinks
  · exact Dialect.auto_moves bytes_along (Read.Shrinks.falls field_shrinks)
  · exact fun items => Read.Moves.give bytes_along (DynamicCodec.Dynamic.map items)

theorem values_falls (real : 16 ≤ m.bits) (schemas : List Schema) :
    Read.Falls Reader.remaining ((rust m).values schemas (rust m).auto) :=
  Dialect.values_moves bytes_along (fun schema _ => value_falls real schema)

theorem values_rest (real : 16 ≤ m.bits) (schemas : List Schema) (value : DynamicCodec.Dynamic) :
    Read.Falls Reader.remaining (do let values ← (rust m).values schemas (rust m).auto
                                    pure (value :: values)) :=
  Read.Moves.map (values_falls real schemas) (value :: ·)

theorem values_shrink (real : 16 ≤ m.bits) {schemas : List Schema} {schema : Schema} (member : schema ∈ schemas)
    (shrinks : Read.Shrinks Reader.remaining ((rust m).value schema (rust m).auto)) :
    Read.Shrinks Reader.remaining ((rust m).values schemas (rust m).auto) := by
  induction member with
  | head schemas =>
    exact shrinks.bind (values_rest real schemas)
  | tail other member ih =>
    exact Read.Shrinks.after (value_falls real other) (fun value => Read.Shrinks.map ih (value :: ·))

theorem part_tuple {schema part : Schema} (member : part ∈ parts schema) : Tuple schema := by
  cases schema with
  | seq items => exact Or.inl ⟨items, rfl⟩
  | map fields => exact Or.inr ⟨fields, rfl⟩
  | _ => exact absurd member List.not_mem_nil

theorem value_shrinks (real : 16 ≤ m.bits) {schema : Schema} (eats : Eats schema) :
    Read.Shrinks Reader.remaining ((rust m).value schema (rust m).auto) := by
  induction eats with
  | here is =>
    rcases is with ⟨kind, rfl⟩ | ⟨item, rfl⟩
    · exact prim_shrinks real kind
    · exact count_shrinks.bind (fun len => ((value_falls real item).times bytes_along len).map _)
  | part member _ ih =>
    intro r rest v came
    obtain ⟨values, read⟩ := (tuple_ok (part_tuple member)).1 ⟨v, came⟩
    exact values_shrink real member ih read

/-! Schemas that take no bytes of their own. -/

theorem values_still {schemas : List Schema} {r : Reader}
    (each : ∀ schema ∈ schemas, ∃ v, (rust m).value schema (rust m).auto r = .ok (v, r)) :
    ∃ values, (rust m).values schemas (rust m).auto r = .ok (values, r) := by
  induction schemas with
  | nil => exact ⟨[], rfl⟩
  | cons schema schemas ih =>
    obtain ⟨v, came⟩ := each schema List.mem_cons_self
    obtain ⟨values, went⟩ := ih (fun other member => each other (List.mem_cons_of_mem _ member))
    exact ⟨v :: values, Read.cons_ok.2 ⟨v, r, values, came, went, rfl⟩⟩

theorem idle_part {schema part : Schema} (idle : ¬ Eats schema) (member : part ∈ parts schema) : ¬ Eats part :=
  fun eats => idle (.part member eats)

/-- Without an inference, or with nothing left to infer from, such a value is read where it is. -/
theorem idle_still {schema : Schema} (idle : ¬ Eats schema) {r : Reader} (still : Infers schema → r.remaining = 0) :
    ∃ v, (rust m).value schema (rust m).auto r = .ok (v, r) := by
  induction schema using induct_parts with
  | auto => exact ⟨(rust m).null, if_pos (still (.here rfl))⟩
  | prim kind => exact absurd (.here (Or.inl ⟨kind, rfl⟩)) idle
  | list item _ => exact absurd (.here (Or.inr ⟨item, rfl⟩)) idle
  | tuple schema tuple ih =>
    apply (tuple_ok tuple).2
    apply values_still
    intro part member
    exact ih part member (idle_part idle member) (fun infers => still (.part member infers))

theorem values_infer {schemas : List Schema} (idle : ∀ schema ∈ schemas, ¬ Eats schema)
    (each : ∀ schema ∈ schemas, Infers schema → ∀ r rest, (∃ v, (rust m).value schema (rust m).auto r = .ok (v, rest)) ↔
      ∃ v, (rust m).auto r = .ok (v, rest))
    (some : ∃ schema ∈ schemas, Infers schema) (r rest : Reader) :
    (∃ values, (rust m).values schemas (rust m).auto r = .ok (values, rest)) ↔ ∃ v, (rust m).auto r = .ok (v, rest) := by
  induction schemas with
  | nil =>
    obtain ⟨_, member, _⟩ := some
    exact absurd member List.not_mem_nil
  | cons schema schemas ih =>
    have idle_here := idle schema List.mem_cons_self
    have idle_there : ∀ other ∈ schemas, ¬ Eats other := fun other member => idle other (List.mem_cons_of_mem _ member)
    by_cases infers : Infers schema
    · have here := each schema List.mem_cons_self infers
      have ends : ∀ {s v}, (rust m).auto r = .ok (v, s) →
          ∃ values, (rust m).values schemas (rust m).auto s = .ok (values, s) := by
        intro s v came
        have empty := auto_left readField_eq (rust_sound m).cuts came
        exact values_still (fun other member => idle_still (idle_there other member) (fun _ => empty))
      constructor
      · rintro ⟨_, came⟩
        obtain ⟨v, mid, values, first, later, _⟩ := Read.cons_ok.1 came
        obtain ⟨w, inferred⟩ := (here r mid).1 ⟨v, first⟩
        obtain ⟨again, stays⟩ := ends inferred
        rw [stays] at later
        cases later
        exact ⟨w, inferred⟩
      · rintro ⟨w, inferred⟩
        obtain ⟨v, first⟩ := (here r rest).2 ⟨w, inferred⟩
        obtain ⟨values, stays⟩ := ends inferred
        exact ⟨v :: values, Read.cons_ok.2 ⟨v, rest, values, first, stays, rfl⟩⟩
    · obtain ⟨v, first⟩ := idle_still (m := m) idle_here (r := r) (fun infers' => absurd infers' infers)
      have others : ∃ other ∈ schemas, Infers other := by
        obtain ⟨other, member, there⟩ := some
        rcases List.mem_cons.1 member with rfl | member
        · exact absurd there infers
        · exact ⟨other, member, there⟩
      have tail := ih idle_there (fun other member => each other (List.mem_cons_of_mem _ member)) others
      rw [← tail]
      constructor
      · rintro ⟨_, came⟩
        obtain ⟨w, mid, values, came, later, _⟩ := Read.cons_ok.1 came
        rw [first] at came
        cases came
        exact ⟨values, later⟩
      · rintro ⟨values, later⟩
        exact ⟨v :: values, Read.cons_ok.2 ⟨v, r, values, first, later, rfl⟩⟩

theorem idle_infers {schema : Schema} (idle : ¬ Eats schema) (infers : Infers schema) (r rest : Reader) :
    (∃ v, (rust m).value schema (rust m).auto r = .ok (v, rest)) ↔ ∃ v, (rust m).auto r = .ok (v, rest) := by
  induction schema using induct_parts generalizing r rest with
  | auto => exact Iff.rfl
  | prim kind => exact absurd (.here (Or.inl ⟨kind, rfl⟩)) idle
  | list item _ => exact absurd (.here (Or.inr ⟨item, rfl⟩)) idle
  | tuple schema tuple ih =>
    have some : ∃ part ∈ parts schema, Infers part := by
      cases infers with
      | here is =>
        rcases tuple with ⟨items, rfl⟩ | ⟨fields, rfl⟩ <;> cases is
      | part member inner => exact ⟨_, member, inner⟩
    rw [tuple_ok tuple]
    exact values_infer (fun part member => idle_part idle member)
      (fun part member there => ih part member (idle_part idle member) there) some r rest

theorem auto_reads {r : Reader} (slice : r.pos + r.remaining < 2 ^ m.bits) :
    (∃ v rest, (rust m).auto r = .ok (v, rest)) ↔ ∃ values, Inference.Splits (inference m) r.rest values := by
  obtain ⟨pos, bytes⟩ := r
  by_cases empty : bytes = []
  · rw [empty]
    exact iff_of_true ⟨_, _, auto_nothing pos⟩ ⟨[], .nothing⟩
  · have just : ∀ {v rest}, (rust m).auto ⟨pos, bytes⟩ = .ok (v, rest) ↔ _ :=
      auto_iff readField_eq (rust_sound m) slice empty
    constructor
    · rintro ⟨v, rest, came⟩
      obtain ⟨values, splits, _⟩ := just.1 came
      exact ⟨values, splits⟩
    · rintro ⟨values, splits⟩
      exact ⟨_, _, just.2 ⟨values, splits, rfl, rfl⟩⟩

/-! The lists that reading comes to. -/

theorem Visits.steady {schema inner : Schema} {r s : Reader} (there : Visits m schema r inner s) :
    s.pos + s.remaining = r.pos + r.remaining := by
  induction there with
  | here => rfl
  | list count _ before _ ih =>
    have start := count_steady _ _ _ count
    exact ih.trans ((times_steady (value_steady _) _ _ _ _ before).trans start)
  | part _ before _ ih => exact ih.trans (values_steady _ _ _ _ before)

theorem list_ok {item : Schema} {s rest : Reader} {v : DynamicCodec.Dynamic} :
    (rust m).value (.list item) (rust m).auto s = .ok (v, rest) ↔
      ∃ len mid values, (rust m).count s = .ok (len, mid) ∧
        ((rust m).value item (rust m).auto).times len mid = .ok (values, rest) ∧ v = .seq values := by
  constructor
  · intro came
    obtain ⟨len, mid, count, later⟩ := Read.bind_ok.1 came
    obtain ⟨values, read, made⟩ := Read.map_ok.1 later
    exact ⟨len, mid, values, count, read, made.symm⟩
  · rintro ⟨len, mid, values, count, read, rfl⟩
    exact Read.bind_ok.2 ⟨len, mid, count, Read.map_ok.2 ⟨values, read, rfl⟩⟩

/-- Items that neither eat nor meet what cannot be split are read as often as one likes. -/
theorem times_idle {item : Schema} (idle : ¬ Eats item) {mid : Reader}
    (reads : Infers item → ∃ v rest, (rust m).auto mid = .ok (v, rest)) (count : Nat) :
    ∃ values rest, ((rust m).value item (rust m).auto).times count mid = .ok (values, rest) := by
  by_cases infers : Infers item
  · obtain ⟨w, last, inferred⟩ := reads infers
    cases count with
    | zero => exact ⟨[], mid, rfl⟩
    | succ count =>
      have empty := auto_left readField_eq (rust_sound m).cuts inferred
      obtain ⟨v, first⟩ := (idle_infers idle infers mid last).2 ⟨w, inferred⟩
      obtain ⟨values, others⟩ := Read.times_still (idle_still (m := m) idle (fun _ => empty)) count
      exact ⟨v :: values, last, Read.cons_ok.2 ⟨v, last, values, first, others, rfl⟩⟩
  · obtain ⟨values, all⟩ := Read.times_still (idle_still (m := m) idle (fun infers' => absurd infers' infers)) count
    exact ⟨values, mid, all⟩

theorem fine_short (real : 16 ≤ m.bits) {item : Schema} {s : Reader} {many : Nat} (room : s.remaining ≤ many)
    (slice : s.pos + s.remaining < 2 ^ m.bits) (fine : Fine m many item s) {len k : Nat} {mid here : Reader}
    {values : List DynamicCodec.Dynamic} (count : (rust m).count s = .ok (len, mid)) (within : k ≤ len)
    (read : ((rust m).value item (rust m).auto).times k mid = .ok (values, here)) : values.length ≤ many := by
  rw [Read.times_length read]
  have less : mid.remaining < s.remaining := count_shrinks count
  have eaten : Eats item → k ≤ many := by
    intro eats
    have each := Read.Shrinks.times_le (value_shrinks real eats) read
    omega
  rcases fine len mid count with few | eats | ⟨infers, broken⟩
  · exact Nat.le_trans within few
  · exact eaten eats
  · by_cases eats : Eats item
    · exact eaten eats
    · cases k with
      | zero => exact Nat.zero_le _
      | succ k =>
        obtain ⟨v, rest, others, first, _⟩ := Read.cons_ok.1 read
        have start := count_steady _ _ _ count
        obtain ⟨w, inferred⟩ := (idle_infers eats infers mid rest).1 ⟨v, first⟩
        obtain ⟨fields, splits⟩ := (auto_reads (start.trans_lt slice)).1 ⟨w, rest, inferred⟩
        exact absurd splits (broken fields)

/-- Where lists are short they are fine, or they would be read on and on. -/
theorem short_fine {item : Schema} {s : Reader} {many : Nat} (slice : s.pos + s.remaining < 2 ^ m.bits)
    (short : ∀ len mid values here, (rust m).count s = .ok (len, mid) →
      ((rust m).value item (rust m).auto).times len mid = .ok (values, here) → values.length ≤ many) :
    Fine m many item s := by
  intro len mid count
  by_cases few : len ≤ many
  · exact Or.inl few
  · by_cases eats : Eats item
    · exact Or.inr (Or.inl eats)
    · refine Or.inr (Or.inr ?_)
      by_contra unbroken
      have start := count_steady _ _ _ count
      have reads : Infers item → ∃ v rest, (rust m).auto mid = .ok (v, rest) := by
        intro infers
        apply (auto_reads (start.trans_lt slice)).2
        by_contra none
        exact unbroken ⟨infers, fun values splits => none ⟨values, splits⟩⟩
      obtain ⟨values, here, all⟩ := times_idle eats reads len
      have bound := short len mid values here count all
      rw [Read.times_length all] at bound
      exact few bound

/-! The work of reading. -/

theorem callsEach_le {many : Nat} {schemas : List Schema} {r : Reader}
    (each : ∀ first part after values here, schemas = first ++ part :: after →
      (rust m).values first (rust m).auto r = .ok (values, here) → calls m part here ≤ most many part) :
    callsEach m schemas r ≤ mostEach many schemas := by
  induction schemas generalizing r with
  | nil => exact Nat.le_refl 0
  | cons schema schemas ih =>
    have first : calls m schema r ≤ most many schema := each [] schema schemas [] r rfl rfl
    have others : Read.behind ((rust m).value schema (rust m).auto) (fun _ => callsEach m schemas) r ≤
        mostEach many schemas := by
      refine Read.behind_le (fun {value rest} came => ih ?_)
      intro first part after values here split before
      exact each (schema :: first) part after (value :: values) here (congrArg (schema :: ·) split)
        (Read.cons_ok.2 ⟨value, rest, values, came, before, rfl⟩)
    rw [callsEach, mostEach]
    exact Nat.add_le_add first others

/-- Where lists are short, the work is bounded by the schema and the number of bytes. -/
theorem calls_le (real : 16 ≤ m.bits) {many : Nat} {schema : Schema} {r : Reader} (room : r.remaining ≤ many)
    (short : Short m many schema r) : calls m schema r ≤ most many schema := by
  induction schema using induct_parts generalizing r with
  | auto =>
    have turns : Read.turns Reader.remaining (readField m) r.remaining r ≤ r.remaining := Read.turns_le r.remaining r
    rw [calls, most]
    omega
  | prim kind =>
    rw [calls, most]
  | list item ih =>
    have loop : Read.behind (rust m).count
        (fun len => Read.timesWork (calls m item) ((rust m).value item (rust m).auto) len) r ≤
          (many + 1) * most many item := by
      refine Read.behind_le (fun {len mid} count => Read.timesWork_le ?_ ?_)
      · intro k values here within before
        have less : mid.remaining < r.remaining := count_shrinks count
        have later := (value_falls real item).times bytes_along k before
        apply ih (by omega)
        intro inner s inner_len inner_mid j items there visits
        exact short inner s inner_len inner_mid j items there (.list count within before visits)
      · intro k values here within before
        have few := short item r len mid k values here (.here _ _) count within before
        rwa [Read.times_length before] at few
    rw [calls, most]
    exact Nat.add_le_add_left loop 1
  | tuple schema tuple ih =>
    have each : callsEach m (parts schema) r ≤ mostEach many (parts schema) := by
      apply callsEach_le
      intro first part after values here split before
      have member : part ∈ parts schema := by
        rw [split]
        exact List.mem_append_right first List.mem_cons_self
      apply ih part member (Nat.le_trans (values_falls real first before) room)
      intro inner s len mid k items there visits
      exact short inner s len mid k items there (.part split before visits)
    rw [tuple_calls tuple, tuple_most many tuple]
    exact Nat.add_le_add_left each 1

/-- On a real machine, where `usize` has 16 bits at least, and with a payload that fits into
memory: the lists have no more items than the payload has bytes, and the work is bounded,
just when every list that reading comes to is fine. -/
theorem lists_short_iff (m : Machine) (real : 16 ≤ m.bits) (bytes : Bytes) (slice : bytes.length < 2 ^ m.bits)
    (schema : Schema) :
    Short m bytes.length schema (.new bytes) ∧ calls m schema (.new bytes) ≤ most bytes.length schema ↔
      ∀ item s, Visits m schema (.new bytes) (.list item) s → Fine m bytes.length item s := by
  have place : ∀ {item s}, Visits m schema (.new bytes) (.list item) s → s.pos + s.remaining = bytes.length :=
    fun visits => visits.steady.trans (Nat.zero_add _)
  constructor
  · intro bounded item s visits
    apply short_fine ((place visits).trans_lt slice)
    intro len mid values here count all
    exact bounded.1 item s len mid len values here visits count (Nat.le_refl len) all
  · intro fine
    have short : Short m bytes.length schema (.new bytes) := by
      intro item s len mid k values here visits count within read
      have whole := place visits
      exact fine_short real (by omega) (by omega) (fine item s visits) count within read
    exact ⟨short, calls_le real (Nat.le_refl _) short⟩

/-- The number `u64::MAX` in front of numbers, of which there is none. -/
theorem lists_short_numbers : Short (.wide true) 10 (.list (.prim .number))
    (.new [0xff, 0xff, 0xff, 0xff, 0xff, 0xff, 0xff, 0xff, 0xff, 0x01]) := by
  have just := lists_short_iff (.wide true) (by decide)
    [0xff, 0xff, 0xff, 0xff, 0xff, 0xff, 0xff, 0xff, 0xff, 0x01] (by decide) (.list (.prim .number))
  refine (just.2 ?_).1
  intro item s visits len mid _
  have eats : Eats (.prim .number) := .here (Or.inl ⟨.number, rfl⟩)
  cases visits with
  | here => exact Or.inr (Or.inl eats)
  | list _ _ _ there =>
    cases there with
    | part split _ _ => exact absurd split.symm (List.append_ne_nil_of_right_ne_nil _ (List.cons_ne_nil _ _))
  | part split _ _ => exact absurd split.symm (List.append_ne_nil_of_right_ne_nil _ (List.cons_ne_nil _ _))

/-- The same in front of inferred items: ten bytes are read to 2⁶⁴ - 1 times nothing. -/
theorem list_of_nothing :
    (∃ values, decodeWith (.wide true) [0xff, 0xff, 0xff, 0xff, 0xff, 0xff, 0xff, 0xff, 0xff, 0x01] (.list .auto) =
        .ok (.seq values) ∧ values.length = 2 ^ 64 - 1) ∧
      ¬ ∀ bytes schema, Short (.wide true) bytes.length schema (.new bytes) := by
  have count : (rust (.wide true)).count (.new [0xff, 0xff, 0xff, 0xff, 0xff, 0xff, 0xff, 0xff, 0xff, 0x01]) =
      .ok (2 ^ 64 - 1, ⟨10, []⟩) := rfl
  have still : ∃ v, (rust (.wide true)).value .auto (rust (.wide true)).auto ⟨10, []⟩ = .ok (v, ⟨10, []⟩) :=
    ⟨_, auto_nothing 10⟩
  obtain ⟨values, all⟩ := Read.times_still still (2 ^ 64 - 1)
  have many := Read.times_length all
  constructor
  · exact ⟨values, Dialect.decode_ok.2 ⟨⟨10, []⟩, list_ok.2 ⟨_, _, values, count, all, rfl⟩, rfl⟩, many⟩
  · intro short
    have bound := short [0xff, 0xff, 0xff, 0xff, 0xff, 0xff, 0xff, 0xff, 0xff, 0x01] (.list .auto)
      .auto _ _ _ _ values _ (.here _ _) count (Nat.le_refl _) all
    rw [many] at bound
    exact absurd bound (by decide)

end EchoStream.Proto.ListLimits
