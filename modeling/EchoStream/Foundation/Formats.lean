import Mathlib.Tactic.Common
import Mathlib.Tactic.Ring

/-! Binary formats that are read back from the front of a byte string. A format
carries the proof that what it writes is what it reads, whatever follows, and
the combinators build that proof along with the format: pairs, lists with their
length in front, and values converted from others. The primitive ones are
base-128 groups, least significant first, and a fixed number of bytes, least
significant first. Writing fails on a value that has no encoding. -/

namespace EchoStream.Foundation.Formats

structure Format (α : Type) where
  put : α → Option (List UInt8)
  get : List UInt8 → Option (α × List UInt8)
  get_put : ∀ {value bytes}, put value = some bytes → ∀ rest, get (bytes ++ rest) = some (value, rest)

theorem byte_toNat {value : Nat} (fits : value < 256) : (UInt8.ofNat value).toNat = value := by
  rw [UInt8.toNat_ofNat']
  exact Nat.mod_eq_of_lt fits

/-- The number in at most `size` groups of seven bits; all but the last group
written carry the continuation bit. -/
def putGroups : Nat → Nat → List UInt8
  | 0, _ => []
  | size + 1, value =>
      if value < 128 then [UInt8.ofNat value]
      else UInt8.ofNat (value % 128 + 128) :: putGroups size (value / 128)

theorem putGroups_length_le (size value : Nat) : (putGroups size value).length ≤ size := by
  induction size generalizing value with
  | zero => exact Nat.le_refl 0
  | succ size ih =>
    rw [putGroups]
    split
    · exact Nat.succ_le_succ (Nat.zero_le size)
    · exact Nat.succ_le_succ (ih _)

theorem putGroups_succ (size value : Nat) : putGroups (size + 1) value =
    if value < 128 then [UInt8.ofNat value] else UInt8.ofNat (value % 128 + 128) :: putGroups size (value / 128) := rfl

theorem putGroups_mono (size : Nat) {small large : Nat} (le : small ≤ large) :
    (putGroups size small).length ≤ (putGroups size large).length := by
  induction size generalizing small large with
  | zero => exact Nat.le_refl 0
  | succ size ih =>
    rw [putGroups_succ, putGroups_succ]
    by_cases tiny : small < 128
    · rw [if_pos tiny, List.length_singleton]
      split
      · exact Nat.le_refl 1
      · exact Nat.succ_pos _
    · have wide : ¬ large < 128 := by omega
      rw [if_neg tiny, if_neg wide, List.length_cons, List.length_cons]
      exact Nat.succ_le_succ (ih (Nat.div_le_div_right le))

theorem putGroups_fuel {size more value : Nat} (enough : value < 128 ^ (size + 1)) (also : value < 128 ^ (more + 1)) :
    putGroups (size + 1) value = putGroups (more + 1) value := by
  induction size generalizing more value with
  | zero =>
    have tiny : value < 128 := by omega
    rw [putGroups_succ, putGroups_succ, if_pos tiny, if_pos tiny]
  | succ size ih =>
    rw [putGroups_succ, putGroups_succ more]
    by_cases tiny : value < 128
    · rw [if_pos tiny, if_pos tiny]
    · cases more with
      | zero => omega
      | succ more =>
        have smaller : value / 128 < 128 ^ (size + 1) := Nat.div_lt_of_lt_mul (by rw [← Nat.pow_succ']; exact enough)
        have less : value / 128 < 128 ^ (more + 1) := Nat.div_lt_of_lt_mul (by rw [← Nat.pow_succ']; exact also)
        rw [if_neg tiny, if_neg tiny, ih smaller less]

/-- Reads groups up to the first without continuation bit. The `size`-th group
has to be the last one, and then it is at most `last`. -/
def getGroups (last : Nat) : Nat → List UInt8 → Option (Nat × List UInt8)
  | 0, _ => none
  | _ + 1, [] => none
  | size + 1, byte :: rest =>
      if byte.toNat < 128 then
        if size = 0 ∧ last < byte.toNat then none else some (byte.toNat, rest)
      else (getGroups last size rest).map (fun got => (byte.toNat % 128 + 128 * got.1, got.2))

/-- What is read is one last byte, or one byte and what the groups behind it are. -/
theorem getGroups_cases {last size value : Nat} {bytes rest : List UInt8}
    (got : getGroups last (size + 1) bytes = some (value, rest)) :
    ∃ byte later, bytes = byte :: later ∧
      (byte.toNat < 128 ∧ ¬ (size = 0 ∧ last < byte.toNat) ∧ value = byte.toNat ∧ rest = later ∨
        ∃ more, 128 ≤ byte.toNat ∧ getGroups last size later = some (more, rest) ∧
          value = byte.toNat % 128 + 128 * more) := by
  cases bytes with
  | nil => cases got
  | cons byte later =>
    refine ⟨byte, later, rfl, ?_⟩
    rw [getGroups] at got
    by_cases final : byte.toNat < 128
    · rw [if_pos final] at got
      split at got
      · cases got
      · rename_i fits
        cases got
        exact Or.inl ⟨final, fits, rfl, rfl⟩
    · rw [if_neg final] at got
      obtain ⟨⟨more, left⟩, behind, same⟩ := Option.map_eq_some_iff.1 got
      cases same
      exact Or.inr ⟨more, Nat.le_of_not_lt final, behind, rfl⟩

theorem getGroups_length {last size value : Nat} {bytes rest : List UInt8}
    (got : getGroups last size bytes = some (value, rest)) : rest.length < bytes.length := by
  induction size generalizing bytes value with
  | zero => cases got
  | succ size ih =>
    obtain ⟨byte, later, rfl, ⟨_, _, _, rfl⟩ | ⟨more, _, behind, _⟩⟩ := getGroups_cases got
    · exact Nat.lt_succ_self _
    · exact Nat.lt_succ_of_lt (ih behind)

theorem getGroups_putGroups {last size value : Nat} (small : last < 128)
    (bound : value < 128 ^ size * (last + 1)) (rest : List UInt8) :
    getGroups last (size + 1) (putGroups (size + 1) value ++ rest) = some (value, rest) := by
  induction size generalizing value with
  | zero =>
    have tiny : value < 128 := by omega
    have low : (UInt8.ofNat value).toNat = value := byte_toNat (by omega)
    have fits : ¬ last < value := by omega
    simp [putGroups, getGroups, tiny, low, fits]
  | succ size ih =>
    by_cases tiny : value < 128
    · have low : (UInt8.ofNat value).toNat = value := byte_toNat (by omega)
      simp [putGroups, getGroups, tiny, low]
    · have group : (UInt8.ofNat (value % 128 + 128)).toNat = value % 128 + 128 :=
        byte_toNat (by omega)
      have smaller : value / 128 < 128 ^ size * (last + 1) := by
        rw [Nat.div_lt_iff_lt_mul (by omega)]
        calc value < 128 ^ (size + 1) * (last + 1) := bound
          _ = 128 ^ size * (last + 1) * 128 := by ring
      have more : ¬ value % 128 + 128 < 128 := by omega
      have whole : (value % 128 + 128) % 128 + 128 * (value / 128) = value := by omega
      rw [putGroups, if_neg tiny, List.cons_append, getGroups, group, if_neg more, ih smaller,
        Option.map_some, whole]

/-- Numbers below `128 ^ size * (last + 1)` as at most `size + 1` groups. -/
def groups (size last : Nat) (small : last < 128) : Format Nat where
  put value := if value < 128 ^ size * (last + 1) then some (putGroups (size + 1) value) else none
  get := getGroups last (size + 1)
  get_put := by
    intro value bytes put rest
    split at put
    · rename_i bound
      cases put
      exact getGroups_putGroups small bound rest
    · cases put

/-- The low `width` bytes of the number, least significant first. -/
def toLittle : Nat → Nat → List UInt8
  | 0, _ => []
  | width + 1, value => UInt8.ofNat (value % 256) :: toLittle width (value / 256)

def ofLittle : List UInt8 → Nat
  | [] => 0
  | byte :: rest => byte.toNat + 256 * ofLittle rest

@[simp] theorem toLittle_length (width value : Nat) : (toLittle width value).length = width := by
  induction width generalizing value with
  | zero => rfl
  | succ width ih => simp [toLittle, ih]

theorem ofLittle_lt (bytes : List UInt8) : ofLittle bytes < 256 ^ bytes.length := by
  induction bytes with
  | nil => exact Nat.one_pos
  | cons byte rest ih =>
    have low : byte.toNat < 256 := byte.toNat_lt
    rw [ofLittle, List.length_cons, Nat.pow_succ]
    omega

theorem ofLittle_toLittle (width value : Nat) :
    ofLittle (toLittle width value) = value % 256 ^ width := by
  induction width generalizing value with
  | zero => simp [toLittle, ofLittle, Nat.mod_one]
  | succ width ih =>
    have low : (UInt8.ofNat (value % 256)).toNat = value % 256 := byte_toNat (by omega)
    rw [toLittle, ofLittle, ih, low, Nat.pow_succ, Nat.mul_comm (256 ^ width) 256, Nat.mod_mul]

/-- Where groups take all their room, the last of them is what is left of the number, and
the bytes read as a little-endian number are below the next such. -/
theorem ofLittle_putGroups {size value : Nat} (full : (putGroups (size + 1) value).length = size + 1) :
    ofLittle (putGroups (size + 1) value) < (value / 128 ^ size + 1) * 256 ^ size := by
  induction size generalizing value with
  | zero =>
    rw [putGroups_succ, Nat.pow_zero, Nat.pow_zero, Nat.div_one, Nat.mul_one]
    by_cases tiny : value < 128
    · have whole : (UInt8.ofNat value).toNat = value := byte_toNat (by omega)
      rw [if_pos tiny, ofLittle, ofLittle, whole]
      omega
    · have whole : (UInt8.ofNat (value % 128 + 128)).toNat = value % 128 + 128 := byte_toNat (by omega)
      rw [if_neg tiny, putGroups, ofLittle, ofLittle, whole]
      omega
  | succ size ih =>
    rw [putGroups_succ] at full ⊢
    by_cases tiny : value < 128
    · rw [if_pos tiny] at full
      cases full
    · rw [if_neg tiny, List.length_cons] at full
      have later := ih (Nat.succ.inj full)
      have first := (UInt8.ofNat (value % 128 + 128)).toNat_lt
      have groups : 128 ^ (size + 1) = 128 * 128 ^ size := Nat.pow_succ'
      have bytes : 256 ^ (size + 1) = 256 ^ size * 256 := Nat.pow_succ _ _
      rw [if_neg tiny, ofLittle, groups, ← Nat.div_div_eq_div_mul, bytes, ← Nat.mul_assoc]
      omega

theorem ofLittle_take_toLittle {count width : Nat} (within : count ≤ width) (value zeros : Nat) :
    ofLittle ((toLittle width value).take count ++ List.replicate zeros 0) = value % 256 ^ count := by
  induction count generalizing width value with
  | zero =>
    have none_set : ofLittle (List.replicate zeros 0) = 0 := by
      induction zeros with
      | zero => rfl
      | succ zeros ih =>
        rw [List.replicate_succ, ofLittle, ih]
        rfl
    simp [none_set, Nat.mod_one]
  | succ count ih =>
    obtain ⟨more, rfl⟩ : ∃ more, width = more + 1 := ⟨width - 1, by omega⟩
    have low : (UInt8.ofNat (value % 256)).toNat = value % 256 := byte_toNat (by omega)
    rw [toLittle, List.take_succ_cons, List.cons_append, ofLittle, ih (by omega), low,
      Nat.pow_succ, Nat.mul_comm (256 ^ count) 256, Nat.mod_mul]

theorem toLittle_drop {count width value : Nat} (within : count ≤ width) (small : value < 256 ^ count) :
    (toLittle width value).drop count = List.replicate (width - count) 0 := by
  induction count generalizing width value with
  | zero =>
    have nothing : value = 0 := by omega
    rw [nothing, List.drop_zero, Nat.sub_zero]
    induction width with
    | zero => rfl
    | succ width ih =>
      rw [toLittle, List.replicate_succ, Nat.zero_div, ih (Nat.zero_le width)]
      rfl
  | succ count ih =>
    obtain ⟨more, rfl⟩ : ∃ more, width = more + 1 := ⟨width - 1, by omega⟩
    have less : value / 256 < 256 ^ count := Nat.div_lt_of_lt_mul (by rw [← Nat.pow_succ']; exact small)
    rw [toLittle, List.drop_succ_cons, ih (by omega) less, Nat.add_sub_add_right]

variable {α β : Type}

namespace Format

def pair (first : Format α) (second : Format β) : Format (α × β) where
  put value := do
    let front ← first.put value.1
    let back ← second.put value.2
    return front ++ back
  get bytes := do
    let (front, rest) ← first.get bytes
    let (back, rest) ← second.get rest
    return ((front, back), rest)
  get_put := by
    intro value bytes put rest
    simp only [Option.bind_eq_bind, Option.bind_eq_some_iff, Option.pure_def, Option.some.injEq] at put
    obtain ⟨front, putFront, back, putBack, rfl⟩ := put
    rw [List.append_assoc, first.get_put putFront]
    simp [second.get_put putBack]

/-- The format of `β` by way of `α`: a value is viewed before it is written and
made again after it is read. -/
def convert (format : Format α) (view : β → Option α) (make : α → Option β)
    (made : ∀ {value inner}, view value = some inner → make inner = some value) : Format β where
  put value := (view value).bind format.put
  get bytes := do
    let (inner, rest) ← format.get bytes
    let value ← make inner
    return (value, rest)
  get_put := by
    intro value bytes put rest
    obtain ⟨inner, viewed, put⟩ := Option.bind_eq_some_iff.mp put
    simp [format.get_put put, made viewed]

/-- Which format the value has is written in front of it. -/
def tagged (tag : Format Nat) (kind : β → Nat) (branch : Nat → Option (Format β)) : Format β where
  put value := do
    let format ← branch (kind value)
    let front ← tag.put (kind value)
    let back ← format.put value
    return front ++ back
  get bytes := do
    let (number, rest) ← tag.get bytes
    let format ← branch number
    format.get rest
  get_put := by
    intro value bytes put rest
    simp only [Option.bind_eq_bind, Option.bind_eq_some_iff, Option.pure_def, Option.some.injEq] at put
    obtain ⟨format, found, front, putFront, back, putBack, rfl⟩ := put
    rw [List.append_assoc, tag.get_put putFront]
    simp [found, format.get_put putBack]

def putAll (format : Format α) : List α → Option (List UInt8)
  | [] => some []
  | value :: rest => do
      let front ← format.put value
      let back ← format.putAll rest
      return front ++ back

def getAll (format : Format α) : Nat → List UInt8 → Option (List α × List UInt8)
  | 0, bytes => some ([], bytes)
  | count + 1, bytes => do
      let (value, rest) ← format.get bytes
      let (values, rest) ← format.getAll count rest
      return (value :: values, rest)

theorem getAll_putAll (format : Format α) {values : List α} {bytes : List UInt8}
    (put : format.putAll values = some bytes) (rest : List UInt8) :
    format.getAll values.length (bytes ++ rest) = some (values, rest) := by
  induction values generalizing bytes with
  | nil =>
    cases put
    rfl
  | cons value values ih =>
    simp only [putAll, Option.bind_eq_bind, Option.bind_eq_some_iff, Option.pure_def,
      Option.some.injEq] at put
    obtain ⟨front, putFront, back, putBack, rfl⟩ := put
    rw [List.length_cons, getAll, List.append_assoc, format.get_put putFront]
    simp [ih putBack]

/-- A list with its length in front. -/
def list (length : Format Nat) (format : Format α) : Format (List α) where
  put values := do
    let front ← length.put values.length
    let back ← format.putAll values
    return front ++ back
  get bytes := do
    let (count, rest) ← length.get bytes
    format.getAll count rest
  get_put := by
    intro values bytes put rest
    simp only [Option.bind_eq_bind, Option.bind_eq_some_iff, Option.pure_def, Option.some.injEq] at put
    obtain ⟨front, putFront, back, putBack, rfl⟩ := put
    rw [List.append_assoc, length.get_put putFront]
    simp [format.getAll_putAll putBack]

/-- The value is all that is read; what follows it is not looked at. -/
def parse (format : Format α) (bytes : List UInt8) : Option α := (format.get bytes).map Prod.fst

theorem pair_get {first : Format α} {second : Format β} {bytes rest : List UInt8} {value : α}
    (front : first.get bytes = some (value, rest)) :
    (first.pair second).get bytes = (second.get rest).map (fun got => ((value, got.1), got.2)) := by
  rw [pair]
  simp only [front, Option.bind_eq_bind, Option.bind_some]
  cases second.get rest <;> rfl

theorem pair_put {first : Format α} {second : Format β} {left : α} {front : List UInt8}
    (put : first.put left = some front) (right : β) :
    (first.pair second).put (left, right) = (second.put right).map (fun back => front ++ back) := by
  rw [pair]
  simp only [put, Option.bind_eq_bind, Option.bind_some]
  cases second.put right <;> rfl

theorem tagged_get {tag : Format Nat} {kind : β → Nat} {branch : Nat → Option (Format β)} {format : Format β}
    {number : Nat} {bytes rest : List UInt8} (front : tag.get bytes = some (number, rest))
    (chosen : branch number = some format) : (tagged tag kind branch).get bytes = format.get rest := by
  rw [tagged]
  simp only [front, chosen, Option.bind_eq_bind, Option.bind_some]

theorem tagged_put {tag : Format Nat} {kind : β → Nat} {branch : Nat → Option (Format β)} {format : Format β} {value : β}
    {front : List UInt8} (put : tag.put (kind value) = some front) (chosen : branch (kind value) = some format) :
    (tagged tag kind branch).put value = (format.put value).map (fun back => front ++ back) := by
  rw [tagged]
  simp only [put, chosen, Option.bind_eq_bind, Option.bind_some]
  cases format.put value <;> rfl

end Format

def nothing : Format Unit where
  put _ := some []
  get bytes := some ((), bytes)
  get_put := by
    intro value bytes put rest
    cases put
    rfl

def byte : Format UInt8 where
  put value := some [value]
  get
    | [] => none
    | first :: rest => some (first, rest)
  get_put := by
    intro value bytes put rest
    cases put
    rfl

section Shortest

/-- Reading takes at least as many bytes as writing what was read. -/
structure Format.Shortest (format : Format α) : Prop where
  least : ∀ {bytes value rest front}, format.get bytes = some (value, rest) → format.put value = some front →
    front.length + rest.length ≤ bytes.length

theorem getGroups_shortest {last size value : Nat} {bytes rest : List UInt8}
    (got : getGroups last size bytes = some (value, rest)) : (putGroups size value).length + rest.length ≤ bytes.length := by
  induction size generalizing bytes value with
  | zero => cases got
  | succ size ih =>
    obtain ⟨byte, later, rfl, ⟨final, _, rfl, rfl⟩ | ⟨more, _, behind, rfl⟩⟩ := getGroups_cases got
    · rw [putGroups_succ, if_pos final, List.length_singleton, List.length_cons]
      omega
    · have least := ih behind
      rw [putGroups_succ, List.length_cons]
      split
      · rw [List.length_singleton]
        omega
      · have high : (byte.toNat % 128 + 128 * more) / 128 = more := by omega
        rw [high, List.length_cons]
        omega

theorem getGroups_lt {last size value : Nat} {bytes rest : List UInt8}
    (got : getGroups last (size + 1) bytes = some (value, rest)) : value < 128 ^ size * (last + 1) := by
  induction size generalizing bytes value with
  | zero =>
    obtain ⟨byte, later, rfl, ⟨_, within, rfl, _⟩ | ⟨more, _, behind, _⟩⟩ := getGroups_cases got
    · omega
    · cases behind
  | succ size ih =>
    have positive : 0 < 128 ^ size * (last + 1) := Nat.mul_pos (Nat.pow_pos (by decide)) (Nat.succ_pos last)
    have next : 128 ^ (size + 1) * (last + 1) = 128 * (128 ^ size * (last + 1)) := by ring
    rw [next]
    obtain ⟨byte, later, rfl, ⟨_, _, rfl, _⟩ | ⟨more, _, behind, rfl⟩⟩ := getGroups_cases got
    · omega
    · have least := ih behind
      omega

namespace Format

theorem groups_shortest (size last : Nat) (small : last < 128) : (groups size last small).Shortest := by
  constructor
  intro bytes value rest front got put
  simp only [groups] at got put
  split at put
  · cases put
    exact getGroups_shortest got
  · cases put

theorem pair_shortest {first : Format α} {second : Format β} (one : first.Shortest) (two : second.Shortest) :
    (first.pair second).Shortest := by
  constructor
  intro bytes value rest front got put
  simp only [pair, Option.bind_eq_bind, Option.bind_eq_some_iff, Option.pure_def, Option.some.injEq] at got put
  obtain ⟨⟨left, between⟩, gotLeft, ⟨right, after⟩, gotRight, same⟩ := got
  cases same
  obtain ⟨front, putLeft, back, putRight, rfl⟩ := put
  have before : front.length + between.length ≤ bytes.length := one.least gotLeft putLeft
  have behind : back.length + after.length ≤ between.length := two.least gotRight putRight
  show (front ++ back).length + after.length ≤ bytes.length
  rw [List.length_append]
  omega

theorem convert_shortest {format : Format α} {view : β → Option α} {make : α → Option β}
    (made : ∀ {value inner}, view value = some inner → make inner = some value) (shortest : format.Shortest)
    (viewed : ∀ {bytes rest inner value again}, format.get bytes = some (inner, rest) → make inner = some value →
      view value = some again → again = inner) :
    (format.convert view make made).Shortest := by
  constructor
  intro bytes value rest front got put
  simp only [convert, Option.bind_eq_bind, Option.bind_eq_some_iff, Option.pure_def, Option.some.injEq] at got put
  obtain ⟨⟨inner, after⟩, gotInner, other, making, same⟩ := got
  obtain ⟨again, viewing, put⟩ := put
  cases same
  rw [viewed gotInner making viewing] at put
  exact shortest.least gotInner put

theorem record_shortest {format : Format α} {view : β → α} {make : α → β} (remade : ∀ value, make (view value) = value)
    (viewed : ∀ inner, view (make inner) = inner) (shortest : format.Shortest) :
    (format.convert (fun value => some (view value)) (fun inner => some (make inner))
      (fun same => congrArg some (Option.some.inj same ▸ remade _))).Shortest := by
  refine convert_shortest _ shortest ?_
  intro bytes rest inner value again got making viewing
  cases making
  cases viewing
  exact viewed inner

theorem tagged_shortest {tag : Format Nat} {kind : β → Nat} {branch : Nat → Option (Format β)} (short : tag.Shortest)
    (branches : ∀ {number format}, branch number = some format → format.Shortest ∧
      ∀ {bytes value rest}, format.get bytes = some (value, rest) → kind value = number) :
    (tagged tag kind branch).Shortest := by
  constructor
  intro bytes value rest front got put
  simp only [tagged, Option.bind_eq_bind, Option.bind_eq_some_iff, Option.pure_def, Option.some.injEq] at got put
  obtain ⟨⟨number, between⟩, gotTag, format, chosen, gotValue⟩ := got
  obtain ⟨shortest, own⟩ := branches chosen
  obtain ⟨again, chosenAgain, front, putTag, back, putValue, rfl⟩ := put
  rw [own gotValue] at chosenAgain putTag
  rw [chosen] at chosenAgain
  cases chosenAgain
  have before : front.length + between.length ≤ bytes.length := short.least gotTag putTag
  have behind : back.length + rest.length ≤ between.length := shortest.least gotValue putValue
  rw [List.length_append]
  omega

theorem getAll_shortest {format : Format α} (shortest : format.Shortest) {count : Nat} {bytes rest : List UInt8}
    {values : List α} (got : format.getAll count bytes = some (values, rest)) :
    values.length = count ∧ ∀ {front}, format.putAll values = some front → front.length + rest.length ≤ bytes.length := by
  induction count generalizing bytes values with
  | zero =>
    cases got
    refine ⟨rfl, ?_⟩
    intro front put
    cases put
    exact Nat.le_of_eq (Nat.zero_add _)
  | succ count ih =>
    simp only [getAll, Option.bind_eq_bind, Option.bind_eq_some_iff, Option.pure_def, Option.some.injEq] at got
    obtain ⟨⟨value, between⟩, gotValue, ⟨others, after⟩, gotOthers, same⟩ := got
    cases same
    obtain ⟨length, least⟩ := ih gotOthers
    refine ⟨by rw [List.length_cons, length], ?_⟩
    intro front put
    simp only [putAll, Option.bind_eq_bind, Option.bind_eq_some_iff, Option.pure_def, Option.some.injEq] at put
    obtain ⟨front, putValue, back, putOthers, rfl⟩ := put
    have before : front.length + between.length ≤ bytes.length := shortest.least gotValue putValue
    have behind : back.length + after.length ≤ between.length := least putOthers
    show (front ++ back).length + after.length ≤ bytes.length
    rw [List.length_append]
    omega

theorem list_shortest {length : Format Nat} {format : Format α} (short : length.Shortest) (shortest : format.Shortest) :
    (list length format).Shortest := by
  constructor
  intro bytes values rest front got put
  simp only [list, Option.bind_eq_bind, Option.bind_eq_some_iff, Option.pure_def, Option.some.injEq] at got put
  obtain ⟨⟨count, between⟩, gotCount, gotValues⟩ := got
  obtain ⟨counted, least⟩ := getAll_shortest shortest gotValues
  obtain ⟨front, putCount, back, putValues, rfl⟩ := put
  rw [counted] at putCount
  have before : front.length + between.length ≤ bytes.length := short.least gotCount putCount
  have behind : back.length + rest.length ≤ between.length := least putValues
  rw [List.length_append]
  omega

end Format

theorem nothing_shortest : nothing.Shortest := by
  constructor
  intro bytes value rest front got put
  cases got
  cases put
  exact Nat.le_of_eq (Nat.zero_add _)

theorem byte_shortest : byte.Shortest := by
  constructor
  intro bytes value rest front got put
  cases bytes with
  | nil => cases got
  | cons first bytes =>
    cases got
    cases put
    exact Nat.le_of_eq (Nat.add_comm 1 _)

end Shortest

section Zeros

/-- Up to so many zeros in front of what is read are in front of what is written again. -/
structure Format.KeepsZeros (format : Format α) (limit : Nat) : Prop where
  kept : ∀ {count rest value later bytes}, count ≤ limit →
    format.get (List.replicate count 0 ++ rest) = some (value, later) → format.put value = some bytes →
    List.replicate count 0 <+: bytes

theorem keepsZeros_zero (format : Format α) : format.KeepsZeros 0 := by
  constructor
  intro count rest value later bytes few got put
  rw [Nat.le_zero.1 few]
  exact List.nil_prefix

theorem keepsZeros_succ {inner : Format α} {outer : Format β} {make : α → β} {limit : Nat}
    (gets : ∀ rest, outer.get (0 :: rest) = (inner.get rest).map (fun got => (make got.1, got.2)))
    (puts : ∀ value, outer.put (make value) = (inner.put value).map (fun back => 0 :: back))
    (keeps : inner.KeepsZeros limit) : outer.KeepsZeros (limit + 1) := by
  constructor
  intro count rest value later bytes few got put
  cases count with
  | zero => exact List.nil_prefix
  | succ count =>
    rw [List.replicate_succ, List.cons_append, gets] at got
    obtain ⟨⟨inside, left⟩, gotInside, same⟩ := Option.map_eq_some_iff.1 got
    cases same
    rw [puts] at put
    obtain ⟨back, putInside, rfl⟩ := Option.map_eq_some_iff.1 put
    have kept := keeps.kept (Nat.le_of_succ_le_succ few) gotInside putInside
    rw [List.replicate_succ]
    exact List.cons_prefix_cons.2 ⟨rfl, kept⟩

end Zeros

section Encodings

/-- Groups with the continuation bit on all but the last. -/
inductive Encoding : List UInt8 → Prop where
  | last {byte : UInt8} (final : byte.toNat < 128) : Encoding [byte]
  | more {byte : UInt8} {later : List UInt8} (goes : 128 ≤ byte.toNat) (behind : Encoding later) : Encoding (byte :: later)

def ofGroups : List UInt8 → Nat
  | [] => 0
  | byte :: rest => byte.toNat % 128 + 128 * ofGroups rest

theorem ofGroups_append (front back : List UInt8) :
    ofGroups (front ++ back) = ofGroups front + 128 ^ front.length * ofGroups back := by
  induction front with
  | nil =>
    rw [List.nil_append, ofGroups, List.length_nil, Nat.pow_zero, Nat.one_mul, Nat.zero_add]
  | cons byte front ih =>
    rw [List.cons_append, ofGroups, ofGroups, ih, List.length_cons, Nat.pow_succ']
    ring

theorem ofGroups_lt (bytes : List UInt8) : ofGroups bytes < 128 ^ bytes.length := by
  induction bytes with
  | nil => exact Nat.one_pos
  | cons byte rest ih =>
    have low : byte.toNat % 128 < 128 := Nat.mod_lt _ (by decide)
    rw [ofGroups, List.length_cons, Nat.pow_succ']
    omega

/-- What follows a byte string does not make it another encoding. -/
theorem Encoding.unique {one two left right : List UInt8} (first : Encoding one) (second : Encoding two)
    (same : one ++ left = two ++ right) : one = two ∧ left = right := by
  induction first generalizing two with
  | last final =>
    cases second with
    | last =>
      obtain ⟨head, tail⟩ := List.cons.inj same
      exact ⟨congrArg (fun byte => [byte]) head, tail⟩
    | more goes =>
      obtain ⟨head, _⟩ := List.cons.inj same
      rw [head] at final
      exact absurd final (Nat.not_lt.2 goes)
  | more goes _ ih =>
    cases second with
    | last final =>
      obtain ⟨head, _⟩ := List.cons.inj same
      rw [head] at goes
      exact absurd final (Nat.not_lt.2 goes)
    | more _ behind =>
      obtain ⟨head, tail⟩ := List.cons.inj same
      obtain ⟨later, rest⟩ := ih behind tail
      rw [head, later]
      exact ⟨rfl, rest⟩

theorem Encoding.append {front : List UInt8} {byte : UInt8} (go : ∀ other ∈ front, 128 ≤ other.toNat)
    (final : byte.toNat < 128) : Encoding (front ++ [byte]) := by
  induction front with
  | nil => exact .last final
  | cons other front ih =>
    exact .more (go other List.mem_cons_self) (ih fun one within => go one (List.mem_cons_of_mem other within))

theorem Encoding.parts {bytes : List UInt8} (encoding : Encoding bytes) :
    ∃ front byte, bytes = front ++ [byte] ∧ (∀ other ∈ front, 128 ≤ other.toNat) ∧ byte.toNat < 128 := by
  induction encoding with
  | @last byte final => exact ⟨[], byte, rfl, fun _ within => absurd within List.not_mem_nil, final⟩
  | @more other later goes _ ih =>
    obtain ⟨front, byte, same, go, final⟩ := ih
    refine ⟨other :: front, byte, congrArg (other :: ·) same, ?_, final⟩
    intro one within
    cases within with
    | head => exact goes
    | tail _ further => exact go one further

theorem getGroups_iff {size value : Nat} {bytes rest : List UInt8} :
    getGroups 127 size bytes = some (value, rest) ↔
      ∃ front, Encoding front ∧ front.length ≤ size ∧ bytes = front ++ rest ∧ value = ofGroups front := by
  constructor
  · intro got
    induction size generalizing bytes value with
    | zero => cases got
    | succ size ih =>
      obtain ⟨byte, later, rfl, ⟨final, _, rfl, rfl⟩ | ⟨more, goes, behind, rfl⟩⟩ := getGroups_cases got
      · have whole : byte.toNat = ofGroups [byte] := by
          rw [ofGroups, ofGroups, Nat.mod_eq_of_lt final]
          rfl
        exact ⟨[byte], .last final, Nat.succ_pos size, rfl, whole⟩
      · obtain ⟨front, encoding, few, rfl, rfl⟩ := ih behind
        exact ⟨byte :: front, .more goes encoding, Nat.succ_le_succ few, rfl, rfl⟩
  · intro there
    obtain ⟨front, encoding, few, rfl, rfl⟩ := there
    induction encoding generalizing size with
    | @last byte final =>
      obtain ⟨size, rfl⟩ : ∃ more, size = more + 1 := ⟨size - 1, by rw [List.length_singleton] at few; omega⟩
      have fits : ¬ (size = 0 ∧ 127 < byte.toNat) := fun both => by omega
      rw [List.singleton_append, getGroups, if_pos final, if_neg fits, ofGroups, ofGroups, Nat.mod_eq_of_lt final]
      rfl
    | @more byte later goes _ ih =>
      obtain ⟨size, rfl⟩ : ∃ more, size = more + 1 := ⟨size - 1, by rw [List.length_cons] at few; omega⟩
      rw [List.cons_append, getGroups, if_neg (Nat.not_lt.2 goes), ih (Nat.le_of_succ_le_succ few)]
      rfl

end Encodings

end EchoStream.Foundation.Formats
