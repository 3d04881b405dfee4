import EchoStream.Foundation.Formats
import EchoStream.Foundation.Reading
import EchoStream.Proto.Messages

/-! Payloads, which say nothing of their types. They are read by a schema, or the types
are inferred. The program has three readers of them, in Rust, in JavaScript and in
Python. They walk through a schema in the same way, and this is here; what a
dialect makes of the primitive types, of one inferred field and of a struct is its own. -/

namespace EchoStream.Proto.Payload
open Foundation.Formats Foundation.Reading
open Messages

/-- The position, and the bytes from there on. -/
structure Reader where
  pos : Nat
  rest : Bytes
deriving DecidableEq, Repr

def Reader.new (bytes : Bytes) : Reader := ⟨0, bytes⟩

def Reader.at (bytes : Bytes) (pos : Nat) : Reader := ⟨pos, bytes.drop pos⟩

def Reader.remaining (r : Reader) : Nat := r.rest.length

/-- `shift` and `result` as in the loop, over the bytes that are left. A dialect cuts
each group to the width of its integers when it has shifted it. -/
def varintFrom (cut : Nat → Nat) (shift result pos : Nat) : Bytes → Outcome (Nat × Reader)
  | [] => .err "varint 越界"
  | b :: rest =>
      let more := result ||| cut ((b &&& 0x7f).toNat <<< shift)
      if b &&& 0x80 = 0 then .ok (more, ⟨pos + 1, rest⟩)
      else if 63 < shift + 7 then .err "varint 溢出"
      else varintFrom cut (shift + 7) more (pos + 1) rest

def varint (cut : Nat → Nat) : Read Reader Nat := fun r => varintFrom cut 0 0 r.pos r.rest

/-- `plus` is the addition of the dialect, which may panic. -/
def take (plus : Nat → Nat → Option Nat) (len : Nat) : Read Reader Bytes := fun r =>
  match plus r.pos len with
  | none => .panic
  | some stop =>
      if r.pos + r.rest.length < stop then .err "字节数据越界"
      else if stop < r.pos then .panic
      else .ok (r.rest.take (stop - r.pos), ⟨stop, r.rest.drop (stop - r.pos)⟩)

def byte (text : String) : Read Reader UInt8 := fun r =>
  match r.rest with
  | [] => .err text
  | b :: rest => .ok (b, ⟨r.pos + 1, rest⟩)

inductive Primitive where
  | number
  | bigint
  | u64
  | bool
  | str
  | bytes
  | f64
  | f32
deriving DecidableEq, Repr

inductive Schema where
  | auto
  | prim (kind : Primitive)
  | list (item : Schema)
  | seq (items : List Schema)
  | map (fields : List (String × Schema))

/-- What a dialect makes of what it reads. `field` is one turn of the inference, and
`inner` makes of the whole inference what it is inside of another value. -/
structure Dialect (α : Type) where
  prim : Primitive → Read Reader α
  count : Read Reader Nat
  field : Read Reader α
  null : α
  seq : List α → α
  record : List (String × α) → Read Reader α
  inner : Read Reader α → Read Reader α

namespace Dialect

variable {α β γ : Type}

/-- A single field stands for itself. -/
def pack (d : Dialect α) : List α → α
  | [value] => value
  | values => d.seq values

def auto (d : Dialect α) : Read Reader α := fun r =>
  if r.remaining = 0 then .ok (d.null, r) else (d.pack <$> d.field.toEnd Reader.remaining) r

def inside (d : Dialect α) : Read Reader α := d.inner d.auto

mutual

/-- `nested` is how an inferred value is read here. The items of a list are inferred
in every dialect. -/
def value (d : Dialect α) : Schema → Read Reader α → Read Reader α
  | .auto, nested => nested
  | .prim kind, _ => d.prim kind
  | .list item, _ => do
      let len ← d.count
      d.seq <$> (d.value item d.auto).times len
  | .seq items, nested => d.seq <$> d.values items nested
  | .map fields, nested => do
      let items ← d.fields fields nested
      d.record items

def values (d : Dialect α) : List Schema → Read Reader α → Read Reader (List α)
  | [], _ => pure []
  | item :: items, nested => do
      let value ← d.value item nested
      let rest ← d.values items nested
      pure (value :: rest)

def fields (d : Dialect α) : List (String × Schema) → Read Reader α → Read Reader (List (String × α))
  | [], _ => pure []
  | (name, item) :: items, nested => do
      let value ← (fun value => (name, value)) <$> d.value item nested
      let rest ← d.fields items nested
      pure (value :: rest)

end

def top (d : Dialect α) : Schema → Read Reader α
  | .auto => d.auto
  | schema => d.value schema d.inside

def finish (outcome : Outcome (α × Reader)) : Outcome α :=
  match outcome with
  | .ok (value, r) =>
      if r.remaining = 0 then .ok value else .err ("载荷解码未消费完整: 剩余 " ++ toString r.remaining ++ " 字节")
  | .err text => .err text
  | .panic => .panic

def decode (d : Dialect α) (bytes : Bytes) (schema : Schema) : Outcome α := finish (d.top schema (.new bytes))

end Dialect

/-- A property of all schemas, from the parts of a schema to the schema. -/
theorem Schema.induct {holds : Schema → Prop} (auto : holds .auto) (prim : ∀ kind, holds (.prim kind))
    (list : ∀ item, holds item → holds (.list item)) (seq : ∀ items, (∀ item ∈ items, holds item) → holds (.seq items))
    (map : ∀ fields, (∀ field ∈ fields, holds field.2) → holds (.map fields)) (schema : Schema) : holds schema := by
  refine @Schema.rec holds (fun items => ∀ item ∈ items, holds item) (fun fields => ∀ field ∈ fields, holds field.2)
    (fun field => holds field.2) auto prim list seq map ?_ ?_ ?_ ?_ (fun _ _ here => here) schema
  · exact fun _ member => absurd member List.not_mem_nil
  · exact fun _ _ here there => List.forall_mem_cons.2 ⟨here, there⟩
  · exact fun _ member => absurd member List.not_mem_nil
  · exact fun _ _ here there => List.forall_mem_cons.2 ⟨here, there⟩

/-! What holds over each part of a reading holds over all of it. -/

namespace Dialect

variable {α : Type} {d : Dialect α} {rel : Reader → Reader → Prop}

theorem auto_moves (along : Read.Along rel) (field : Read.Moves rel d.field) : Read.Moves rel d.auto := by
  intro r rest value came
  unfold auto at came
  split at came
  · cases came
    exact along.refl r
  · exact (field.toEnd along).map d.pack came

theorem values_moves (along : Read.Along rel) {schemas : List Schema} {nested : Read Reader α}
    (each : ∀ schema ∈ schemas, Read.Moves rel (d.value schema nested)) : Read.Moves rel (d.values schemas nested) := by
  induction schemas with
  | nil => exact .give along []
  | cons schema schemas ih =>
    have others := ih (fun other member => each other (List.mem_cons_of_mem _ member))
    exact (each schema List.mem_cons_self).cons along others

theorem fields_moves (along : Read.Along rel) {schemas : List (String × Schema)} {nested : Read Reader α}
    (each : ∀ field ∈ schemas, Read.Moves rel (d.value field.2 nested)) : Read.Moves rel (d.fields schemas nested) := by
  induction schemas with
  | nil => exact .give along []
  | cons field schemas ih =>
    have others := ih (fun other member => each other (List.mem_cons_of_mem _ member))
    exact ((each field List.mem_cons_self).map _).cons along others

theorem value_moves (along : Read.Along rel) (prim : ∀ kind, Read.Moves rel (d.prim kind)) (count : Read.Moves rel d.count)
    (auto : Read.Moves rel d.auto) (record : ∀ items, Read.Moves rel (d.record items)) (schema : Schema) :
    Read.Moves rel (d.value schema d.auto) := by
  induction schema using Schema.induct with
  | auto => exact auto
  | prim kind => exact prim kind
  | list item ih => exact count.bind along (fun len => (ih.times along len).map d.seq)
  | seq items ih => exact (values_moves along ih).map d.seq
  | map fields ih => exact (fields_moves along ih).bind along record

end Dialect

/-! Varints, by their value. -/

/-- `while n >= 0x80`, for numbers of any size. A number has fewer groups than bits. -/
def writeVarint (n : Nat) : Bytes := putGroups (n.log2 + 1) n

theorem writeVarint_pos (n : Nat) : 0 < (writeVarint n).length := by
  rw [writeVarint, putGroups_succ]
  split
  · exact Nat.one_pos
  · exact Nat.succ_pos _

theorem writeVarint_groups {n size : Nat} (bound : n < 128 ^ (size + 1)) : writeVarint n = putGroups (size + 1) n := by
  have below : n < 2 ^ (n.log2 + 1) := Nat.lt_log2_self
  have enough : n < 128 ^ (n.log2 + 1) := Nat.lt_of_lt_of_le below (Nat.pow_le_pow_left (by decide) _)
  exact putGroups_fuel enough bound

theorem writeVarint_eq {n : Nat} (bound : n < 2 ^ 70) : writeVarint n = putGroups 10 n := by
  apply writeVarint_groups
  exact Nat.lt_of_lt_of_le bound (by decide)

/-- The number in the groups at the front, uncut. -/
def Reader.number (r : Reader) : Option (Nat × Reader) :=
  (getGroups 127 10 r.rest).map (fun got => (got.1, ⟨r.pos + (r.rest.length - got.2.length), got.2⟩))

/-- Cutting commutes with putting groups together. -/
structure Cut (cut : Nat → Nat) : Prop where
  zero : cut 0 = 0
  or : ∀ x y, cut (x ||| y) = cut x ||| cut y

theorem Cut.whole : Cut id := ⟨rfl, fun _ _ => rfl⟩

theorem Cut.mod (width : Nat) : Cut (· % 2 ^ width) := ⟨Nat.zero_mod _, fun _ _ => Nat.or_mod_two_pow⟩

theorem low_seven (b : UInt8) : (b &&& 0x7f).toNat = b.toNat % 128 := by
  rw [UInt8.toNat_and]
  exact Nat.and_two_pow_sub_one_eq_mod b.toNat 7

theorem last_group (b : UInt8) : b &&& 0x80 = 0 ↔ b.toNat < 128 := by
  have all : ∀ n < 256, UInt8.ofNat n &&& 0x80 = 0 ↔ n < 128 := by decide +kernel
  have here := all b.toNat b.toNat_lt
  rwa [UInt8.ofNat_toNat] at here

theorem group_or (low high shift : Nat) (small : low < 128) :
    low <<< shift ||| high <<< (shift + 7) = (low + 128 * high) <<< shift := by
  have whole : low ||| high <<< 7 = low + 128 * high := by
    rw [Nat.or_comm, ← Nat.shiftLeft_add_eq_or_of_lt small, Nat.shiftLeft_eq]
    omega
  rw [Nat.add_comm shift 7, Nat.shiftLeft_add, ← Nat.shiftLeft_or_distrib, whole]

theorem varintFrom_eq {cut : Nat → Nat} (cuts : Cut cut) (size shift : Nat) (turn : shift + 7 * (size + 1) = 70)
    (result pos : Nat) (bytes : Bytes) :
    match getGroups 127 (size + 1) bytes with
    | some (n, rest) => varintFrom cut shift result pos bytes =
        .ok (result ||| cut (n <<< shift), ⟨pos + (bytes.length - rest.length), rest⟩)
    | none => (varintFrom cut shift result pos bytes).Refused := by
  induction bytes generalizing size shift result pos with
  | nil => exact ⟨_, rfl⟩
  | cons b bytes ih =>
    have low := low_seven b
    by_cases final : b.toNat < 128
    · have fits : ¬ (size = 0 ∧ 127 < b.toNat) := fun both => by omega
      have small : b.toNat % 128 = b.toNat := Nat.mod_eq_of_lt final
      rw [getGroups, if_pos final, if_neg fits]
      show varintFrom cut shift result pos (b :: bytes) = _
      rw [varintFrom, if_pos ((last_group b).2 final), low, small, List.length_cons, Nat.succ_sub (Nat.le_refl _),
        Nat.sub_self]
    · rw [getGroups, if_neg final, varintFrom, if_neg (fun zero => final ((last_group b).1 zero))]
      cases size with
      | zero =>
        have beyond : 63 < shift + 7 := by omega
        rw [if_pos beyond]
        exact ⟨_, rfl⟩
      | succ size =>
        have within : ¬ 63 < shift + 7 := by omega
        rw [if_neg within, low]
        have later := ih size (shift + 7) (by omega)
          (result ||| cut ((b.toNat % 128) <<< shift)) (pos + 1)
        cases got : getGroups 127 (size + 1) bytes with
        | none =>
          rw [got] at later
          exact later
        | some pair =>
          obtain ⟨n, rest⟩ := pair
          rw [got] at later
          have shorter := getGroups_length got
          have low_small : b.toNat % 128 < 128 := Nat.mod_lt _ (by decide)
          have groups : result ||| cut ((b.toNat % 128) <<< shift) ||| cut (n <<< (shift + 7)) =
              result ||| cut ((b.toNat % 128 + 128 * n) <<< shift) := by
            rw [Nat.or_assoc, ← cuts.or, group_or _ _ _ low_small]
          have moved : pos + 1 + (bytes.length - rest.length) = pos + ((b :: bytes).length - rest.length) := by
            rw [List.length_cons]
            omega
          show varintFrom cut (shift + 7) _ (pos + 1) bytes = _
          rw [show varintFrom cut (shift + 7) _ (pos + 1) bytes = _ from later, groups, moved]

theorem varint_some {cut : Nat → Nat} (cuts : Cut cut) {r rest : Reader} {n : Nat} (front : r.number = some (n, rest)) :
    varint cut r = .ok (cut n, rest) := by
  obtain ⟨⟨m, bytes⟩, got, same⟩ := Option.map_eq_some_iff.1 front
  cases same
  have read := varintFrom_eq cuts 9 0 rfl 0 r.pos r.rest
  rw [got] at read
  rw [varint, show varintFrom cut 0 0 r.pos r.rest = _ from read, Nat.zero_or]
  rfl

theorem varint_none {cut : Nat → Nat} (cuts : Cut cut) {r : Reader} (front : r.number = none) : (varint cut r).Refused := by
  have got : getGroups 127 10 r.rest = none := Option.map_eq_none_iff.1 front
  have read := varintFrom_eq cuts 9 0 rfl 0 r.pos r.rest
  rw [got] at read
  exact read

theorem varint_ok {cut : Nat → Nat} (cuts : Cut cut) {r rest : Reader} {v : Nat} :
    varint cut r = .ok (v, rest) ↔ ∃ n, r.number = some (n, rest) ∧ v = cut n := by
  cases front : r.number with
  | none =>
    obtain ⟨text, refused⟩ := varint_none cuts front
    constructor
    · intro read
      rw [refused] at read
      cases read
    · intro there
      obtain ⟨n, same, _⟩ := there
      cases same
  | some pair =>
    obtain ⟨n, later⟩ := pair
    rw [varint_some cuts front]
    constructor
    · intro read
      cases read
      exact ⟨n, rfl, rfl⟩
    · intro there
      obtain ⟨m, same, cutting⟩ := there
      cases same
      rw [cutting]

theorem varint_calm {cut : Nat → Nat} (cuts : Cut cut) (r : Reader) : varint cut r ≠ .panic := by
  intro panics
  cases front : r.number with
  | none =>
    obtain ⟨text, refused⟩ := varint_none cuts front
    rw [refused] at panics
    cases panics
  | some pair =>
    rw [varint_some cuts front] at panics
    cases panics

theorem number_remaining {r rest : Reader} {n : Nat} (front : r.number = some (n, rest)) :
    rest.remaining < r.remaining := by
  obtain ⟨⟨m, bytes⟩, got, same⟩ := Option.map_eq_some_iff.1 front
  cases same
  exact getGroups_length got

theorem number_put {n : Nat} (bound : n < 2 ^ 70) (pos : Nat) (rest : Bytes) :
    (Reader.mk pos (putGroups 10 n ++ rest)).number = some (n, ⟨pos + (putGroups 10 n).length, rest⟩) := by
  have got : getGroups 127 10 (putGroups 10 n ++ rest) = some (n, rest) :=
    getGroups_putGroups (by decide) (Nat.lt_of_lt_of_le bound (by decide)) rest
  have front : (putGroups 10 n ++ rest).length - rest.length = (putGroups 10 n).length := by
    rw [List.length_append]
    omega
  rw [Reader.number, got, Option.map_some, front]

theorem take_front_of_ok {plus : Nat → Nat → Option Nat} {len : Nat} {r rest : Reader} {data : Bytes}
    (came : take plus len r = .ok (data, rest)) :
    ∃ n ≤ r.remaining, data = r.rest.take n ∧ rest = ⟨r.pos + n, r.rest.drop n⟩ := by
  unfold take at came
  split at came
  · cases came
  · rename_i stop _
    split at came
    · cases came
    · rename_i inside
      split at came
      · cases came
      · rename_i forward
        cases came
        have place : r.pos + (stop - r.pos) = stop := Nat.add_sub_of_le (Nat.le_of_not_lt forward)
        refine ⟨stop - r.pos, ?_, rfl, by rw [place]⟩
        rw [Reader.remaining]
        omega

theorem take_plain {plus : Nat → Nat → Option Nat} {len : Nat} {r : Reader} (sum : plus r.pos len = some (r.pos + len)) :
    take plus len r = if r.remaining < len then .err "字节数据越界"
      else .ok (r.rest.take len, ⟨r.pos + len, r.rest.drop len⟩) := by
  have forward : ¬ r.pos + len < r.pos := Nat.not_lt_of_le (Nat.le_add_right _ _)
  rw [take, sum]
  show (if r.pos + r.rest.length < r.pos + len then _ else if r.pos + len < r.pos then _ else _) = _
  rw [if_neg forward, Nat.add_sub_cancel_left]
  exact if_congr Nat.add_lt_add_iff_left rfl rfl

/-! Where two dialects meet. -/

namespace Dialect

variable {α β γ : Type}

def named (view : α → γ) (field : String × α) : String × γ := (field.1, view field.2)

/-- `meet` is exact for each primitive type, for the inference, and for how structs are put together. -/
structure Meet (view : α → γ) (look : β → γ) (meet : Dialect γ) (one : Dialect α) (two : Dialect β) : Prop where
  prim : ∀ kind, Meets view look (meet.prim kind) (one.prim kind) (two.prim kind)
  count : Meets id id meet.count one.count two.count
  field : Meets view look meet.field one.field two.field
  null : view one.null = meet.null ∧ look two.null = meet.null
  seqs : (∀ xs, view (one.seq xs) = meet.seq (xs.map view)) ∧ ∀ ys, look (two.seq ys) = meet.seq (ys.map look)
  apart : Function.Injective meet.seq
  scalar : ∀ {r rest x values}, one.field r = .ok (x, rest) → view x ≠ meet.seq values
  scalars : ∀ {r rest y values}, two.field r = .ok (y, rest) → look y ≠ meet.seq values
  record : ∀ (items : List (String × α)) {r rest value}, meet.record (items.map (named view)) r = .ok (value, rest) →
    ∃ x, one.record items r = .ok (x, rest) ∧ view x = value
  records : ∀ (items : List (String × β)) {r rest value}, meet.record (items.map (named look)) r = .ok (value, rest) →
    ∃ y, two.record items r = .ok (y, rest) ∧ look y = value
  both : ∀ (items : List (String × α)) (others : List (String × β)) {r rest s last x y},
    one.record items r = .ok (x, rest) → two.record others s = .ok (y, last) →
    items.map Prod.fst = others.map Prod.fst → view x = look y →
      items.map (named view) = others.map (named look) ∧
        meet.record (items.map (named view)) r = .ok (view x, rest)
  built : ∀ items r text, meet.record items r ≠ .err text
  inner : ∀ {nested : Read Reader γ} {first : Read Reader α} {second : Read Reader β},
    Meets view look nested first second → Meets view look (meet.inner nested) (one.inner first) (two.inner second)

variable {view : α → γ} {look : β → γ} {meet : Dialect γ} {one : Dialect α} {two : Dialect β}

theorem fields_names {d : Dialect α} {schemas : List (String × Schema)} {nested : Read Reader α} {r rest : Reader}
    {items : List (String × α)} (came : d.fields schemas nested r = .ok (items, rest)) :
    items.map Prod.fst = schemas.map Prod.fst := by
  induction schemas generalizing r items with
  | nil =>
    cases came
    rfl
  | cons field schemas ih =>
    obtain ⟨value, mid, later, first, went, rfl⟩ := Read.cons_ok.1 came
    obtain ⟨inner, _, rfl⟩ := Read.map_ok.1 first
    exact congrArg (field.1 :: ·) (ih went)

namespace Meet

theorem pack (meets : Meet view look meet one two) (xs : List α) : view (one.pack xs) = meet.pack (xs.map view) := by
  match xs with
  | [] => exact meets.seqs.1 []
  | [x] => rfl
  | x :: y :: xs => exact meets.seqs.1 (x :: y :: xs)

theorem packs (meets : Meet view look meet one two) (ys : List β) : look (two.pack ys) = meet.pack (ys.map look) := by
  match ys with
  | [] => exact meets.seqs.2 []
  | [x] => rfl
  | x :: y :: ys => exact meets.seqs.2 (x :: y :: ys)

/-- A field is no sequence, so a single one is not mistaken for several. -/
theorem pack_injective (meets : Meet view look meet one two) {xs : List α} {ys : List β}
    (scalar : ∀ x ∈ xs, ∀ values, view x ≠ meet.seq values) (scalars : ∀ y ∈ ys, ∀ values, look y ≠ meet.seq values)
    (same : meet.pack (xs.map view) = meet.pack (ys.map look)) : xs.map view = ys.map look := by
  match xs, ys with
  | [x], [y] => exact congrArg (fun value => [value]) same
  | [x], [] => exact absurd same (scalar x (List.mem_singleton_self x) _)
  | [x], y :: z :: ys => exact absurd same (scalar x (List.mem_singleton_self x) _)
  | [], [y] => exact absurd same.symm (scalars y (List.mem_singleton_self y) _)
  | x :: z :: xs, [y] => exact absurd same.symm (scalars y (List.mem_singleton_self y) _)
  | [], [] => rfl
  | [], y :: z :: ys => exact meets.apart same
  | x :: z :: xs, [] => exact meets.apart same
  | x :: z :: xs, y :: w :: ys => exact meets.apart same

theorem auto (meets : Meet view look meet one two) : Meets view look meet.auto one.auto two.auto := by
  have packed : Meets view look (meet.pack <$> meet.field.toEnd Reader.remaining)
      (one.pack <$> one.field.toEnd Reader.remaining) (two.pack <$> two.field.toEnd Reader.remaining) := by
    refine (meets.field.toEnd Reader.remaining).map meets.pack meets.packs (fun left right same => ?_)
    exact meets.pack_injective (Read.whileLeft_forall (fun came _ => meets.scalar came) left)
      (Read.whileLeft_forall (fun came _ => meets.scalars came) right) same
  have nothing : Meets view look (pure meet.null : Read Reader γ) (pure one.null) (pure two.null) := by
    rw [← meets.null.1]
    exact Meets.give (meets.null.1.trans meets.null.2.symm)
  apply Meets.at_each
  intro r
  unfold Dialect.auto
  by_cases empty : r.remaining = 0
  · rw [if_pos empty, if_pos empty, if_pos empty]
    exact nothing.fixed r
  · rw [if_neg empty, if_neg empty, if_neg empty]
    exact packed.fixed r

theorem inside (meets : Meet view look meet one two) : Meets view look meet.inside one.inside two.inside :=
  meets.inner meets.auto

theorem list (meets : Meet view look meet one two) {item : Read Reader γ} {first : Read Reader α} {second : Read Reader β}
    (items : Meets view look item first second) :
    Meets view look (do let len ← meet.count
                        meet.seq <$> item.times len)
      (do let len ← one.count
          one.seq <$> first.times len)
      (do let len ← two.count
          two.seq <$> second.times len) := by
  refine meets.count.bind (fun len other same => ?_) ?_
  · cases same
    exact (items.times len).map meets.seqs.1 meets.seqs.2 (fun _ _ alike => meets.apart alike)
  · intro _ _ _ _ _ len other x y _ _ made made' same
    obtain ⟨xs, read, rfl⟩ := Read.map_ok.1 made
    obtain ⟨ys, read', rfl⟩ := Read.map_ok.1 made'
    rw [meets.seqs.1, meets.seqs.2] at same
    -- Lists that look the same are equally long, so the counts were the same.
    have sizes := congrArg List.length (meets.apart same)
    rw [List.length_map, List.length_map, Read.times_length read, Read.times_length read'] at sizes
    exact sizes

theorem struct (meets : Meet view look meet one two) {items : List (String × α)} {others : List (String × β)}
    (alike : items.map (named view) = others.map (named look)) :
    Meets view look (meet.record (items.map (named view))) (one.record items) (two.record others) where
  first came := meets.record items came
  second came := meets.records others (alike ▸ came)
  both left right same := by
    have names := congrArg (List.map Prod.fst) alike
    rw [List.map_map, List.map_map] at names
    exact (meets.both items others left right names same).2
  refused failed := absurd failed (meets.built _ _ _)

theorem value (meets : Meet view look meet one two) (schema : Schema) {nested : Read Reader γ} {first : Read Reader α}
    {second : Read Reader β} (inner : Meets view look nested first second) :
    Meets view look (meet.value schema nested) (one.value schema first) (two.value schema second) := by
  induction schema using Schema.induct generalizing nested first second with
  | auto => exact inner
  | prim kind => exact meets.prim kind
  | list item ih => exact meets.list (ih meets.auto)
  | seq items ih =>
    have all : Meets (List.map view) (List.map look) (meet.values items nested) (one.values items first)
        (two.values items second) := by
      induction items with
      | nil => exact Meets.give (x := []) (y := []) rfl
      | cons item items more =>
        have rest := more (fun other member => ih other (List.mem_cons_of_mem _ member))
        exact (ih item List.mem_cons_self inner).cons rest
    exact all.map meets.seqs.1 meets.seqs.2 (fun _ _ same => meets.apart same)
  | map fields ih =>
    have all : Meets (List.map (named view)) (List.map (named look)) (meet.fields fields nested)
        (one.fields fields first) (two.fields fields second) := by
      induction fields with
      | nil => exact Meets.give (x := []) (y := []) rfl
      | cons field fields more =>
        have rest := more (fun other member => ih other (List.mem_cons_of_mem _ member))
        have here := ih field List.mem_cons_self inner
        have head : Meets (named view) (named look) ((fun value => (field.1, value)) <$> meet.value field.2 nested)
            ((fun value => (field.1, value)) <$> one.value field.2 first)
            ((fun value => (field.1, value)) <$> two.value field.2 second) :=
          here.map (fun _ => rfl) (fun _ => rfl) (fun _ _ same => (Prod.mk.inj same).2)
        exact head.cons rest
    refine all.bind (fun xs ys alike => meets.struct alike) ?_
    intro _ _ _ _ _ xs ys x y read read' built built' same
    have names := (fields_names read).trans (fields_names read').symm
    exact (meets.both xs ys built built' names same).1

theorem top (meets : Meet view look meet one two) (schema : Schema) :
    Meets view look (meet.top schema) (one.top schema) (two.top schema) := by
  cases schema with
  | auto => exact meets.auto
  | prim kind => exact meets.value _ meets.inside
  | list item => exact meets.value _ meets.inside
  | seq items => exact meets.value _ meets.inside
  | map fields => exact meets.value _ meets.inside

end Meet

theorem finish_ok {outcome : Outcome (α × Reader)} {value : α} :
    finish outcome = .ok value ↔ ∃ rest, outcome = .ok (value, rest) ∧ rest.remaining = 0 := by
  cases outcome with
  | ok pair =>
    obtain ⟨v, r⟩ := pair
    rw [finish]
    constructor
    · intro same
      split at same
      · rename_i empty
        cases same
        exact ⟨r, rfl, empty⟩
      · cases same
    · intro there
      obtain ⟨rest, same, empty⟩ := there
      cases same
      rw [if_pos empty]
  | err text =>
    constructor
    · intro same
      cases same
    · intro there
      obtain ⟨rest, same, _⟩ := there
      cases same
  | panic =>
    constructor
    · intro same
      cases same
    · intro there
      obtain ⟨rest, same, _⟩ := there
      cases same

theorem decode_ok {d : Dialect α} {bytes : Bytes} {schema : Schema} {value : α} :
    d.decode bytes schema = .ok value ↔ ∃ rest, d.top schema (.new bytes) = .ok (value, rest) ∧ rest.remaining = 0 :=
  finish_ok

/-- Both dialects accept a payload and see the same value in it just when it is a
payload of the dialect where they meet. -/
theorem Meet.decode (meets : Meet view look meet one two) (bytes : Bytes) (schema : Schema) (value : γ) :
    meet.decode bytes schema = .ok value ↔
      ∃ x y, one.decode bytes schema = .ok x ∧ two.decode bytes schema = .ok y ∧ view x = value ∧ look y = value := by
  have tops := meets.top schema
  constructor
  · intro decoded
    obtain ⟨rest, came, empty⟩ := decode_ok.1 decoded
    obtain ⟨x, left, same⟩ := tops.first came
    obtain ⟨y, right, same'⟩ := tops.second came
    exact ⟨x, y, decode_ok.2 ⟨rest, left, empty⟩, decode_ok.2 ⟨rest, right, empty⟩, same, same'⟩
  · intro both
    obtain ⟨x, y, left, right, same, same'⟩ := both
    obtain ⟨rest, came, empty⟩ := decode_ok.1 left
    obtain ⟨other, went, _⟩ := decode_ok.1 right
    have read := tops.both came went (same.trans same'.symm)
    rw [same] at read
    exact decode_ok.2 ⟨rest, read, empty⟩

theorem finish_refused {outcome : Outcome (α × Reader)} :
    (finish outcome).Refused ↔ outcome.Refused ∨ ∃ value rest, outcome = .ok (value, rest) ∧ rest.remaining ≠ 0 := by
  cases outcome with
  | ok pair =>
    obtain ⟨v, r⟩ := pair
    rw [finish]
    by_cases empty : r.remaining = 0
    · rw [if_pos empty]
      constructor
      · intro there
        obtain ⟨text, same⟩ := there
        cases same
      · intro either
        rcases either with there | there
        · obtain ⟨text, same⟩ := there
          cases same
        · obtain ⟨value, rest, same, left⟩ := there
          cases same
          exact absurd empty left
    · rw [if_neg empty]
      exact iff_of_true ⟨_, rfl⟩ (Or.inr ⟨v, r, rfl, empty⟩)
  | err text => exact iff_of_true ⟨text, rfl⟩ (Or.inl ⟨text, rfl⟩)
  | panic =>
    constructor
    · intro there
      obtain ⟨text, same⟩ := there
      cases same
    · intro either
      rcases either with there | there
      · obtain ⟨text, same⟩ := there
        cases same
      · obtain ⟨value, rest, same, _⟩ := there
        cases same

theorem Meet.decode_refused (meets : Meet view look meet one two) {bytes : Bytes} {schema : Schema}
    (refused : (meet.decode bytes schema).Refused) : (one.decode bytes schema).Refused ∧ (two.decode bytes schema).Refused := by
  have tops := meets.top schema
  rcases finish_refused.1 refused with ⟨text, failed⟩ | ⟨value, rest, came, left⟩
  · have both := tops.refused failed
    exact ⟨finish_refused.2 (Or.inl both.1), finish_refused.2 (Or.inl both.2)⟩
  · obtain ⟨x, first, _⟩ := tops.first came
    obtain ⟨y, second, _⟩ := tops.second came
    exact ⟨finish_refused.2 (Or.inr ⟨x, rest, first, left⟩), finish_refused.2 (Or.inr ⟨y, rest, second, left⟩)⟩

/-- Both accept a payload with values that look the same, or both refuse it. -/
def Alike (view : α → γ) (look : β → γ) (one : Outcome α) (two : Outcome β) : Prop :=
  (∃ x y, one = .ok x ∧ two = .ok y ∧ view x = look y) ∨ one.Refused ∧ two.Refused

/-- Two dialects agree on a payload just when it does not lead them apart, or both of
them find it malformed all the same. -/
theorem Meet.alike_iff (meets : Meet view look meet one two) (bytes : Bytes) (schema : Schema) :
    Alike view look (one.decode bytes schema) (two.decode bytes schema) ↔
      meet.decode bytes schema ≠ .panic ∨ (one.decode bytes schema).Refused ∧ (two.decode bytes schema).Refused := by
  constructor
  · intro alike
    rcases alike with ⟨x, y, first, second, same⟩ | refused
    · have read := (meets.decode bytes schema (view x)).2 ⟨x, y, first, second, rfl, same.symm⟩
      refine Or.inl ?_
      rw [read]
      intro impossible
      cases impossible
    · exact Or.inr refused
  · intro either
    rcases either with together | refused
    · cases read : meet.decode bytes schema with
      | ok value =>
        obtain ⟨x, y, first, second, same, same'⟩ := (meets.decode bytes schema value).1 read
        exact Or.inl ⟨x, y, first, second, same.trans same'.symm⟩
      | err text => exact Or.inr (meets.decode_refused ⟨text, read⟩)
      | panic => exact absurd read together
    · exact Or.inr refused

end Dialect

end EchoStream.Proto.Payload
