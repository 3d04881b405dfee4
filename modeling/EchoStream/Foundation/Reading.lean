import Mathlib.Tactic.Common
import Mathlib.Data.List.Basic

/-! Readers, which take a value off the front of an input, fail, or panic. They are
put together in sequence, a given number of times, and as long as something is left.
A third reader tells where two others meet, the readers of two dialects of one format
for instance. It reads what both read to the same value, fails where both fail, and
panics only where they part. -/

namespace EchoStream.Foundation.Reading

inductive Outcome (α : Type) where
  | ok (value : α)
  | err (text : String)
  | panic
deriving DecidableEq, Repr

/-- The input is refused, not with a panic. -/
def Outcome.Refused {α : Type} (outcome : Outcome α) : Prop := ∃ text, outcome = .err text

variable {σ α β γ : Type}

namespace Outcome

def andThen (first : Outcome α) (next : α → Outcome β) : Outcome β :=
  match first with
  | .ok value => next value
  | .err text => .err text
  | .panic => .panic

instance : Monad Outcome where
  pure := .ok
  bind := andThen

theorem bind_ok {first : Outcome α} {next : α → Outcome β} {result : β} :
    (first >>= next) = .ok result ↔ ∃ value, first = .ok value ∧ next value = .ok result := by
  cases first with
  | ok value =>
    constructor
    · exact fun later => ⟨value, rfl, later⟩
    · rintro ⟨value, same, later⟩
      cases same
      exact later
  | err text =>
    constructor
    · intro impossible
      cases impossible
    · rintro ⟨value, same, _⟩
      cases same
  | panic =>
    constructor
    · intro impossible
      cases impossible
    · rintro ⟨value, same, _⟩
      cases same

end Outcome

def Read (σ α : Type) := σ → Outcome (α × σ)

namespace Read

def give (value : α) : Read σ α := fun input => .ok (value, input)

def refuse (text : String) : Read σ α := fun _ => .err text

def part : Read σ α := fun _ => .panic

def andThen (first : Read σ α) (next : α → Read σ β) : Read σ β := fun input =>
  match first input with
  | .ok (value, rest) => next value rest
  | .err text => .err text
  | .panic => .panic

instance : Monad (Read σ) where
  pure := give
  bind := andThen

theorem bind_apply (first : Read σ α) (next : α → Read σ β) (input : σ) :
    (first >>= next) input = match first input with
      | .ok (value, rest) => next value rest
      | .err text => .err text
      | .panic => .panic := rfl

theorem bind_of_ok {first : Read σ α} {next : α → Read σ β} {input rest : σ} {value : α}
    (went : first input = .ok (value, rest)) : (first >>= next) input = next value rest := by
  rw [bind_apply, went]

theorem bind_pure (read : Read σ α) : read >>= pure = read := by
  funext input
  rw [bind_apply]
  cases read input <;> rfl

theorem bind_ok {first : Read σ α} {next : α → Read σ β} {input last : σ} {result : β} :
    (first >>= next) input = .ok (result, last) ↔
      ∃ value rest, first input = .ok (value, rest) ∧ next value rest = .ok (result, last) := by
  rw [bind_apply]
  cases came : first input with
  | ok pair =>
    constructor
    · exact fun later => ⟨pair.1, pair.2, rfl, later⟩
    · rintro ⟨value, rest, same, later⟩
      cases same
      exact later
  | err text =>
    constructor
    · intro impossible
      cases impossible
    · rintro ⟨value, rest, same, _⟩
      cases same
  | panic =>
    constructor
    · intro impossible
      cases impossible
    · rintro ⟨value, rest, same, _⟩
      cases same

theorem bind_panic {first : Read σ α} {next : α → Read σ β} {input : σ} :
    (first >>= next) input = .panic ↔
      first input = .panic ∨ ∃ value rest, first input = .ok (value, rest) ∧ next value rest = .panic := by
  rw [bind_apply]
  cases came : first input with
  | ok pair =>
    constructor
    · exact fun later => Or.inr ⟨pair.1, pair.2, rfl, later⟩
    · rintro (same | ⟨value, rest, same, later⟩)
      · cases same
      · cases same
        exact later
  | err text =>
    constructor
    · intro impossible
      cases impossible
    · rintro (same | ⟨value, rest, same, _⟩) <;> cases same
  | panic => exact ⟨fun _ => Or.inl rfl, fun _ => rfl⟩

theorem bind_err {first : Read σ α} {next : α → Read σ β} {input : σ} {text : String} :
    (first >>= next) input = .err text ↔
      first input = .err text ∨ ∃ value rest, first input = .ok (value, rest) ∧ next value rest = .err text := by
  rw [bind_apply]
  cases came : first input with
  | ok pair =>
    constructor
    · exact fun later => Or.inr ⟨pair.1, pair.2, rfl, later⟩
    · rintro (same | ⟨value, rest, same, later⟩)
      · cases same
      · cases same
        exact later
  | err other =>
    constructor
    · intro same
      cases same
      exact Or.inl rfl
    · rintro (same | ⟨value, rest, same, _⟩)
      · cases same
        rfl
      · cases same
  | panic =>
    constructor
    · intro impossible
      cases impossible
    · rintro (same | ⟨value, rest, same, _⟩) <;> cases same

theorem bind_refused {first : Read σ α} {next : α → Read σ β} {input : σ} (refused : (first input).Refused) :
    ((first >>= next) input).Refused := by
  obtain ⟨text, same⟩ := refused
  exact ⟨text, bind_err.2 (Or.inl same)⟩

theorem bind_refused_later {first : Read σ α} {next : α → Read σ β} {input rest : σ} {value : α}
    (went : first input = .ok (value, rest)) (refused : (next value rest).Refused) : ((first >>= next) input).Refused := by
  obtain ⟨text, same⟩ := refused
  exact ⟨text, bind_err.2 (Or.inr ⟨value, rest, went, same⟩)⟩

theorem map_ok {f : α → β} {read : Read σ α} {input rest : σ} {result : β} :
    (f <$> read) input = .ok (result, rest) ↔ ∃ value, read input = .ok (value, rest) ∧ f value = result := by
  show (read >>= fun value => pure (f value)) input = _ ↔ _
  rw [bind_ok]
  constructor
  · rintro ⟨value, last, came, same⟩
    cases same
    exact ⟨value, came, rfl⟩
  · rintro ⟨value, came, rfl⟩
    exact ⟨value, rest, came, rfl⟩

theorem map_err {f : α → β} {read : Read σ α} {input : σ} {text : String} :
    (f <$> read) input = .err text ↔ read input = .err text := by
  show (read >>= fun value => pure (f value)) input = _ ↔ _
  rw [bind_err]
  constructor
  · rintro (failed | ⟨value, rest, _, same⟩)
    · exact failed
    · cases same
  · exact Or.inl

theorem map_refused {f : α → β} {read : Read σ α} {input : σ} (refused : (read input).Refused) :
    ((f <$> read) input).Refused := by
  obtain ⟨text, same⟩ := refused
  exact ⟨text, map_err.2 same⟩

theorem map_panic {f : α → β} {read : Read σ α} {input : σ} :
    (f <$> read) input = .panic ↔ read input = .panic := by
  show (read >>= fun value => pure (f value)) input = _ ↔ _
  rw [bind_panic]
  constructor
  · rintro (panics | ⟨value, rest, _, same⟩)
    · exact panics
    · cases same
  · exact Or.inl

def times (read : Read σ α) : Nat → Read σ (List α)
  | 0 => pure []
  | count + 1 => do
      let value ← read
      let rest ← times read count
      pure (value :: rest)

theorem cons_ok {first : Read σ α} {next : Read σ (List α)} {input last : σ} {values : List α} :
    (do let value ← first
        let rest ← next
        pure (value :: rest)) input = .ok (values, last) ↔
      ∃ value mid rest, first input = .ok (value, mid) ∧ next mid = .ok (rest, last) ∧ values = value :: rest := by
  rw [bind_ok]
  constructor
  · rintro ⟨value, mid, came, later⟩
    obtain ⟨rest, last', went, same⟩ := bind_ok.1 later
    cases same
    exact ⟨value, mid, rest, came, went, rfl⟩
  · rintro ⟨value, mid, rest, came, went, rfl⟩
    exact ⟨value, mid, came, bind_ok.2 ⟨rest, last, went, rfl⟩⟩

theorem cons_panic {first : Read σ α} {next : Read σ (List α)} {input : σ} :
    (do let value ← first
        let rest ← next
        pure (value :: rest)) input = .panic ↔
      first input = .panic ∨ ∃ value mid, first input = .ok (value, mid) ∧ next mid = .panic := by
  rw [bind_panic]
  constructor
  · rintro (panics | ⟨value, mid, came, later⟩)
    · exact Or.inl panics
    · rcases bind_panic.1 later with panics | ⟨rest, last, _, same⟩
      · exact Or.inr ⟨value, mid, came, panics⟩
      · cases same
  · rintro (panics | ⟨value, mid, came, panics⟩)
    · exact Or.inl panics
    · exact Or.inr ⟨value, mid, came, bind_panic.2 (Or.inl panics)⟩

theorem times_length {read : Read σ α} {count : Nat} {input rest : σ} {values : List α}
    (came : times read count input = .ok (values, rest)) : values.length = count := by
  induction count generalizing input values with
  | zero =>
    cases came
    rfl
  | succ count ih =>
    obtain ⟨value, mid, later, _, went, rfl⟩ := cons_ok.1 came
    exact congrArg Nat.succ (ih went)

/-- Reads on as long as something is left, at most `fuel` times. -/
def whileLeft (left : σ → Nat) (read : Read σ α) : Nat → Read σ (List α)
  | 0 => pure []
  | fuel + 1 => fun input =>
      if left input = 0 then .ok ([], input)
      else (do
        let value ← read
        let rest ← whileLeft left read fuel
        pure (value :: rest)) input

theorem whileLeft_succ (left : σ → Nat) (read : Read σ α) (fuel : Nat) (input : σ) :
    whileLeft left read (fuel + 1) input =
      if left input = 0 then .ok ([], input)
      else (do
        let value ← read
        let rest ← whileLeft left read fuel
        pure (value :: rest)) input := rfl

def toEnd (left : σ → Nat) (read : Read σ α) : Read σ (List α) := fun input => whileLeft left read (left input) input

/-- Whatever the reader reads, less is left. -/
def Shrinks (left : σ → Nat) (read : Read σ α) : Prop :=
  ∀ {input rest value}, read input = .ok (value, rest) → left rest < left input

variable {left : σ → Nat} {read : Read σ α}

theorem whileLeft_fuel (shrinks : Shrinks left read) {fuel more : Nat} {input : σ} (enough : left input ≤ fuel)
    (also : left input ≤ more) : whileLeft left read fuel input = whileLeft left read more input := by
  induction fuel generalizing more input with
  | zero =>
    have empty : left input = 0 := Nat.le_zero.1 enough
    cases more with
    | zero => rfl
    | succ more =>
      rw [whileLeft_succ, if_pos empty]
      rfl
  | succ fuel ih =>
    cases more with
    | zero =>
      have empty : left input = 0 := Nat.le_zero.1 also
      rw [whileLeft_succ, if_pos empty]
      rfl
    | succ more =>
      rw [whileLeft_succ, whileLeft_succ]
      by_cases empty : left input = 0
      · rw [if_pos empty, if_pos empty]
      · rw [if_neg empty, if_neg empty, bind_apply, bind_apply]
        cases came : read input with
        | err text => rfl
        | panic => rfl
        | ok pair =>
          have smaller := shrinks came
          show (whileLeft left read fuel >>= _) pair.2 = (whileLeft left read more >>= _) pair.2
          have same : whileLeft left read fuel pair.2 = whileLeft left read more pair.2 :=
            ih (by omega) (by omega)
          rw [bind_apply, bind_apply, same]

theorem toEnd_done {input : σ} (empty : left input = 0) : toEnd left read input = .ok ([], input) := by
  rw [toEnd, empty]
  rfl

theorem toEnd_more (shrinks : Shrinks left read) {input : σ} (more : left input ≠ 0) :
    toEnd left read input = (do
      let value ← read
      let rest ← toEnd left read
      pure (value :: rest)) input := by
  obtain ⟨fuel, enough⟩ : ∃ fuel, left input = fuel + 1 := Nat.exists_eq_succ_of_ne_zero more
  rw [toEnd, enough, whileLeft_succ, if_neg more, bind_apply, bind_apply]
  cases came : read input with
  | err text => rfl
  | panic => rfl
  | ok pair =>
    have smaller := shrinks came
    have same : whileLeft left read fuel pair.2 = toEnd left read pair.2 :=
      whileLeft_fuel shrinks (by omega) (Nat.le_refl _)
    show (whileLeft left read fuel >>= _) pair.2 = (toEnd left read >>= _) pair.2
    rw [bind_apply, bind_apply, same]

theorem toEnd_left (shrinks : Shrinks left read) {input rest : σ} {values : List α}
    (came : toEnd left read input = .ok (values, rest)) : left rest = 0 := by
  induction size : left input using Nat.strongRecOn generalizing input values with
  | ind size ih =>
    by_cases empty : left input = 0
    · rw [toEnd_done empty] at came
      cases came
      exact empty
    · rw [toEnd_more shrinks empty] at came
      obtain ⟨value, mid, later, first, went, _⟩ := cons_ok.1 came
      exact ih (left mid) (size ▸ shrinks first) went rfl

theorem whileLeft_forall {holds : α → Prop} (each : ∀ {input rest value}, read input = .ok (value, rest) → holds value)
    {fuel : Nat} {input rest : σ} {values : List α} (came : whileLeft left read fuel input = .ok (values, rest)) :
    ∀ value ∈ values, holds value := by
  induction fuel generalizing input values with
  | zero =>
    cases came
    exact fun _ member => absurd member List.not_mem_nil
  | succ fuel ih =>
    rw [whileLeft_succ] at came
    split at came
    · cases came
      exact fun _ member => absurd member List.not_mem_nil
    · obtain ⟨value, mid, later, first, went, rfl⟩ := cons_ok.1 came
      intro other member
      rcases List.mem_cons.1 member with rfl | old
      · exact each first
      · exact ih went other old

theorem whileLeft_keeps (holds : σ → Prop)
    (kept : ∀ {input rest value}, holds input → read input = .ok (value, rest) → holds rest)
    {fuel : Nat} {input rest : σ} {values : List α} (start : holds input)
    (came : whileLeft left read fuel input = .ok (values, rest)) : holds rest := by
  induction fuel generalizing input values with
  | zero =>
    cases came
    exact start
  | succ fuel ih =>
    rw [whileLeft_succ] at came
    split at came
    · cases came
      exact start
    · obtain ⟨value, mid, later, first, went, rfl⟩ := cons_ok.1 came
      exact ih (kept start first) went

theorem times_keeps (holds : σ → Prop)
    (kept : ∀ {input rest value}, holds input → read input = .ok (value, rest) → holds rest)
    {count : Nat} {input rest : σ} {values : List α} (start : holds input)
    (came : times read count input = .ok (values, rest)) : holds rest := by
  induction count generalizing input values with
  | zero =>
    cases came
    exact start
  | succ count ih =>
    obtain ⟨value, mid, later, first, went, rfl⟩ := cons_ok.1 came
    exact ih (kept start first) went

theorem toEnd_calm (holds : σ → Prop)
    (kept : ∀ {input rest value}, holds input → read input = .ok (value, rest) → holds rest)
    (calm : ∀ input, holds input → read input ≠ .panic) {input : σ} (start : holds input) :
    toEnd left read input ≠ .panic := by
  have all : ∀ fuel input, holds input → whileLeft left read fuel input ≠ .panic := by
    intro fuel
    induction fuel with
    | zero =>
      intro input _ panics
      cases panics
    | succ fuel ih =>
      intro input start panics
      rw [whileLeft_succ] at panics
      split at panics
      · cases panics
      · rcases cons_panic.1 panics with panics | ⟨value, mid, first, panics⟩
        · exact calm input start panics
        · exact ih mid (kept start first) panics
  exact all _ input start

/-- A panic on the way through a number of values is that of one of them. -/
theorem times_panic {count : Nat} {input : σ} :
    times read count input = .panic ↔
      ∃ k values here, k < count ∧ times read k input = .ok (values, here) ∧ read here = .panic := by
  induction count generalizing input with
  | zero =>
    constructor
    · intro impossible
      cases impossible
    · rintro ⟨k, _, _, within, _⟩
      exact absurd within (Nat.not_lt_zero k)
  | succ count ih =>
    constructor
    · intro panics
      rcases cons_panic.1 panics with here | ⟨value, mid, first, later⟩
      · exact ⟨0, [], input, Nat.succ_pos count, rfl, here⟩
      · obtain ⟨k, values, here, within, came, panics⟩ := ih.1 later
        exact ⟨k + 1, value :: values, here, Nat.succ_lt_succ within,
          cons_ok.2 ⟨value, mid, values, first, came, rfl⟩, panics⟩
    · rintro ⟨k, values, here, within, came, panics⟩
      cases k with
      | zero =>
        cases came
        exact cons_panic.2 (Or.inl panics)
      | succ k =>
        obtain ⟨value, mid, rest, first, went, rfl⟩ := cons_ok.1 came
        exact cons_panic.2 (Or.inr ⟨value, mid, first, ih.2 ⟨k, rest, here, Nat.lt_of_succ_lt_succ within, went, panics⟩⟩)

/-! What stands between an input and what is left of it, for readers that are put together. -/

/-- The relation holds over any number of readings if it holds over each. -/
structure Along (rel : σ → σ → Prop) : Prop where
  refl : ∀ input, rel input input
  trans : ∀ {input mid rest}, rel input mid → rel mid rest → rel input rest

/-- Whatever the reader reads, the relation holds over it. -/
def Moves (rel : σ → σ → Prop) (read : Read σ α) : Prop :=
  ∀ ⦃input rest value⦄, read input = .ok (value, rest) → rel input rest

section Moving

variable {rel : σ → σ → Prop}

theorem Moves.give (along : Along rel) (value : α) : Moves rel (pure value : Read σ α) := by
  intro input rest other came
  cases came
  exact along.refl input

theorem Moves.bind (along : Along rel) (moves : Moves rel read) {next : α → Read σ β}
    (later : ∀ value, Moves rel (next value)) : Moves rel (read >>= next) := by
  intro input last result came
  obtain ⟨value, rest, first, went⟩ := bind_ok.1 came
  exact along.trans (moves first) (later value went)

theorem Moves.map (moves : Moves rel read) (f : α → β) : Moves rel (f <$> read) := by
  intro input rest result came
  obtain ⟨value, went, _⟩ := map_ok.1 came
  exact moves went

theorem Moves.cons (along : Along rel) (moves : Moves rel read) {next : Read σ (List α)} (later : Moves rel next) :
    Moves rel (do let value ← read
                  let rest ← next
                  pure (value :: rest)) :=
  moves.bind along (fun value => later.bind along (fun rest => .give along (value :: rest)))

theorem Moves.times (along : Along rel) (moves : Moves rel read) (count : Nat) : Moves rel (read.times count) := by
  intro input rest values came
  exact times_keeps (rel input) (fun before went => along.trans before (moves went)) (along.refl input) came

theorem Moves.toEnd (along : Along rel) (moves : Moves rel read) : Moves rel (read.toEnd left) := by
  intro input rest values came
  exact whileLeft_keeps (rel input) (fun before went => along.trans before (moves went)) (along.refl input) came

end Moving

def Falls (left : σ → Nat) (read : Read σ α) : Prop := Moves (fun input rest => left rest ≤ left input) read

theorem falls_along (left : σ → Nat) : Along (fun input rest : σ => left rest ≤ left input) :=
  ⟨fun _ => Nat.le_refl _, fun first second => Nat.le_trans second first⟩

theorem Shrinks.falls (shrinks : Shrinks left read) : Falls left read :=
  fun _ _ _ came => Nat.le_of_lt (shrinks came)

theorem Shrinks.bind {next : α → Read σ β} (shrinks : Shrinks left read) (later : ∀ value, Falls left (next value)) :
    Shrinks left (read >>= next) := by
  intro input last result came
  obtain ⟨value, rest, first, went⟩ := bind_ok.1 came
  exact Nat.lt_of_le_of_lt (later value went) (shrinks first)

theorem Shrinks.map (shrinks : Shrinks left read) (f : α → β) : Shrinks left (f <$> read) :=
  shrinks.bind (fun value => Moves.give (falls_along left) (f value))

theorem Shrinks.after {next : α → Read σ β} (falls : Falls left read) (later : ∀ value, Shrinks left (next value)) :
    Shrinks left (read >>= next) := by
  intro input last result came
  obtain ⟨value, rest, first, went⟩ := bind_ok.1 came
  exact Nat.lt_of_lt_of_le (later value went) (falls first)

theorem Shrinks.times_le (shrinks : Shrinks left read) {count : Nat} {input rest : σ} {values : List α}
    (came : times read count input = .ok (values, rest)) : count + left rest ≤ left input := by
  induction count generalizing input values with
  | zero =>
    cases came
    exact Nat.le_of_eq (Nat.zero_add _)
  | succ count ih =>
    obtain ⟨value, mid, later, first, went, rfl⟩ := cons_ok.1 came
    have less := shrinks first
    have others := ih went
    omega

theorem times_still {input : σ} (still : ∃ value, read input = .ok (value, input)) (count : Nat) :
    ∃ values, times read count input = .ok (values, input) := by
  obtain ⟨value, came⟩ := still
  induction count with
  | zero => exact ⟨[], rfl⟩
  | succ count ih =>
    obtain ⟨values, went⟩ := ih
    exact ⟨value :: values, cons_ok.2 ⟨value, input, values, came, went, rfl⟩⟩

/-! The work of readers, counted also where they fail. -/

/-- The work behind a reader, if it comes so far. -/
def behind (read : Read σ α) (work : α → σ → Nat) (input : σ) : Nat :=
  match read input with
  | .ok (value, rest) => work value rest
  | .err _ => 0
  | .panic => 0

/-- The work of `times`, of which each reading costs `work`. -/
def timesWork (work : σ → Nat) (read : Read σ α) : Nat → σ → Nat
  | 0, _ => 0
  | count + 1, input => work input + behind read (fun _ => timesWork work read count) input

def turns (left : σ → Nat) (read : Read σ α) : Nat → σ → Nat
  | 0, _ => 0
  | fuel + 1, input => if left input = 0 then 0 else 1 + behind read (fun _ => turns left read fuel) input

theorem behind_le {work : α → σ → Nat} {input : σ} {most : Nat}
    (each : ∀ {value rest}, read input = .ok (value, rest) → work value rest ≤ most) : behind read work input ≤ most := by
  unfold behind
  cases came : read input with
  | ok pair => exact each came
  | err text => exact Nat.zero_le _
  | panic => exact Nat.zero_le _

theorem turns_le (fuel : Nat) (input : σ) : turns left read fuel input ≤ fuel := by
  induction fuel generalizing input with
  | zero => exact Nat.le_refl 0
  | succ fuel ih =>
    rw [turns]
    split
    · exact Nat.zero_le _
    · have later : behind read (fun _ => turns left read fuel) input ≤ fuel := behind_le (fun _ => ih _)
      omega

/-- A reader that succeeds only so many times in a row is not begun more than once more. -/
theorem timesWork_le {work : σ → Nat} {count many most : Nat} {input : σ}
    (each : ∀ {k values here}, k < count → times read k input = .ok (values, here) → work here ≤ most)
    (few : ∀ {k values here}, k ≤ count → times read k input = .ok (values, here) → k ≤ many) :
    timesWork work read count input ≤ (many + 1) * most := by
  induction count generalizing input many with
  | zero => exact Nat.zero_le _
  | succ count ih =>
    have here : work input ≤ most := each (Nat.succ_pos count) (rfl : times read 0 input = .ok ([], input))
    have later : behind read (fun _ => timesWork work read count) input ≤ many * most := by
      refine behind_le (fun {value rest} came => ?_)
      have one : times read 1 input = .ok ([value], rest) := cons_ok.2 ⟨value, rest, [], came, rfl, rfl⟩
      have some : 1 ≤ many := few (Nat.succ_le_succ (Nat.zero_le count)) one
      obtain ⟨fewer, rfl⟩ : ∃ fewer, many = fewer + 1 := ⟨many - 1, (Nat.sub_add_cancel some).symm⟩
      apply ih
      · intro k values here within went
        exact each (Nat.succ_lt_succ within) (cons_ok.2 ⟨value, rest, values, came, went, rfl⟩)
      · intro k values here within went
        exact Nat.le_of_succ_le_succ
          (few (Nat.succ_le_succ within) (cons_ok.2 ⟨value, rest, values, came, went, rfl⟩))
    rw [timesWork, Nat.succ_mul]
    omega

end Read

/-- `meet` reads what `one` and `two` both read to values that look the same, and reads
it to what they look like. Where it fails, both fail. -/
structure Meets (view : α → γ) (look : β → γ) (meet : Read σ γ) (one : Read σ α) (two : Read σ β) : Prop where
  first : ∀ {input rest value}, meet input = .ok (value, rest) → ∃ x, one input = .ok (x, rest) ∧ view x = value
  second : ∀ {input rest value}, meet input = .ok (value, rest) → ∃ y, two input = .ok (y, rest) ∧ look y = value
  both : ∀ {input rest other x y}, one input = .ok (x, rest) → two input = .ok (y, other) → view x = look y →
    meet input = .ok (view x, rest)
  refused : ∀ {input text}, meet input = .err text → (one input).Refused ∧ (two input).Refused

namespace Meets
open Read

variable {view : α → γ} {look : β → γ} {meet : Read σ γ} {one : Read σ α} {two : Read σ β}

theorem stop (meets : Meets view look meet one two) {input rest other : σ} {x : α} {y : β}
    (left : one input = .ok (x, rest)) (right : two input = .ok (y, other)) (same : view x = look y) : rest = other := by
  obtain ⟨y', went, _⟩ := meets.second (meets.both left right same)
  rw [right] at went
  cases went
  rfl

theorem same (read : Read σ γ) : Meets id id read read read where
  first came := ⟨_, came, rfl⟩
  second came := ⟨_, came, rfl⟩
  both came _ _ := came
  refused failed := ⟨⟨_, failed⟩, ⟨_, failed⟩⟩

theorem bind {α' β' γ' : Type} {view' : α' → γ'} {look' : β' → γ'} {f : α → Read σ α'} {g : β → Read σ β'}
    {h : γ → Read σ γ'} (meets : Meets view look meet one two)
    (next : ∀ x y, view x = look y → Meets view' look' (h (view x)) (f x) (g y))
    (tell : ∀ {input rest other last final x y x' y'}, one input = .ok (x, rest) → two input = .ok (y, other) →
      f x rest = .ok (x', last) → g y other = .ok (y', final) → view' x' = look' y' → view x = look y) :
    Meets view' look' (meet >>= h) (one >>= f) (two >>= g) where
  first came := by
    obtain ⟨value, mid, here, later⟩ := bind_ok.1 came
    obtain ⟨x, first, rfl⟩ := meets.first here
    obtain ⟨y, _, same⟩ := meets.second here
    obtain ⟨x', went, viewed⟩ := (next x y same.symm).first later
    exact ⟨x', bind_ok.2 ⟨x, mid, first, went⟩, viewed⟩
  second came := by
    obtain ⟨value, mid, here, later⟩ := bind_ok.1 came
    obtain ⟨x, _, rfl⟩ := meets.first here
    obtain ⟨y, second, same⟩ := meets.second here
    obtain ⟨y', went, viewed⟩ := (next x y same.symm).second later
    exact ⟨y', bind_ok.2 ⟨y, mid, second, went⟩, viewed⟩
  both left right same := by
    obtain ⟨x, mid, first, later⟩ := bind_ok.1 left
    obtain ⟨y, mid', second, later'⟩ := bind_ok.1 right
    have alike := tell first second later later' same
    have here := meets.stop first second alike
    subst here
    exact bind_ok.2 ⟨view x, mid, meets.both first second alike, (next x y alike).both later later' same⟩
  refused failed := by
    rcases bind_err.1 failed with here | ⟨value, mid, here, later⟩
    · exact ⟨bind_refused (meets.refused here).1, bind_refused (meets.refused here).2⟩
    · obtain ⟨x, first, rfl⟩ := meets.first here
      obtain ⟨y, second, same⟩ := meets.second here
      have both := (next x y same.symm).refused later
      exact ⟨bind_refused_later first both.1, bind_refused_later second both.2⟩

theorem at_each (here : ∀ place, Meets view look (fun _ : σ => meet place) (fun _ => one place) (fun _ => two place)) :
    Meets view look meet one two where
  first {input _ _} := @(here input).first input _ _
  second {input _ _} := @(here input).second input _ _
  both {input _ _ _ _} := @(here input).both input _ _ _ _
  refused {input _} := @(here input).refused input _

theorem apart (never : ∀ {input rest other x y}, one input = .ok (x, rest) → two input = .ok (y, other) → view x ≠ look y) :
    Meets view look (fun _ => .panic) one two where
  first came := by cases came
  second came := by cases came
  both left right same := absurd same (never left right)
  refused failed := by cases failed

theorem reach {x : α} {y : β} (same : view x = look y) (rest : σ) :
    Meets view look (fun _ => .ok (view x, rest)) (fun _ => .ok (x, rest)) (fun _ => .ok (y, rest)) where
  first came := by
    cases came
    exact ⟨x, rfl, rfl⟩
  second came := by
    cases came
    exact ⟨y, rfl, same.symm⟩
  both left _ _ := by
    cases left
    rfl
  refused failed := by cases failed

theorem fixed (meets : Meets view look meet one two) (place : σ) :
    Meets view look (fun _ : σ => meet place) (fun _ => one place) (fun _ => two place) where
  first came := meets.first came
  second came := meets.second came
  both left right same := meets.both left right same
  refused failed := meets.refused failed

theorem give {x : α} {y : β} (same : view x = look y) : Meets view look (pure (view x) : Read σ γ) (pure x) (pure y) :=
  at_each (fun place => reach same place)

theorem refuse (text left right : String) :
    Meets view look (Read.refuse text : Read σ γ) (Read.refuse left) (Read.refuse right) where
  first came := by cases came
  second came := by cases came
  both left _ _ := by cases left
  refused _ := ⟨⟨left, rfl⟩, ⟨right, rfl⟩⟩

theorem after {δ : Type} {f : δ → Read σ α} {g : δ → Read σ β} {h : δ → Read σ γ} (read : Read σ δ)
    (next : ∀ x, Meets view look (h x) (f x) (g x)) : Meets view look (read >>= h) (read >>= f) (read >>= g) := by
  refine (same read).bind (fun x y alike => ?_) ?_
  · cases alike
    exact next x
  · intro input rest other last final x y x' y' left right _ _ _
    rw [left] at right
    cases right
    rfl

theorem cons {meets : Read σ (List γ)} {ones : Read σ (List α)} {twos : Read σ (List β)}
    (head : Meets view look meet one two) (tail : Meets (List.map view) (List.map look) meets ones twos) :
    Meets (List.map view) (List.map look)
      (do let value ← meet
          let rest ← meets
          pure (value :: rest))
      (do let value ← one
          let rest ← ones
          pure (value :: rest))
      (do let value ← two
          let rest ← twos
          pure (value :: rest)) := by
  refine head.bind (fun x y same => tail.bind (fun xs ys alike => ?_) ?_) ?_
  · rw [← List.map_cons]
    exact give (by rw [List.map_cons, List.map_cons, same, alike])
  · intro input rest other last final xs ys xs' ys' _ _ made made' alike
    cases made
    cases made'
    exact (List.cons.inj alike).2
  · intro input rest other last final x y xs' ys' _ _ made made' alike
    obtain ⟨xs, mid, _, same⟩ := bind_ok.1 made
    obtain ⟨ys, mid', _, same'⟩ := bind_ok.1 made'
    cases same
    cases same'
    exact (List.cons.inj alike).1

theorem times (meets : Meets view look meet one two) (count : Nat) :
    Meets (List.map view) (List.map look) (meet.times count) (one.times count) (two.times count) := by
  induction count with
  | zero => exact give (x := []) (y := []) rfl
  | succ count ih => exact meets.cons ih

theorem toEnd (left : σ → Nat) (meets : Meets view look meet one two) :
    Meets (List.map view) (List.map look) (meet.toEnd left) (one.toEnd left) (two.toEnd left) := by
  have nothing : Meets (List.map view) (List.map look) (pure [] : Read σ (List γ)) (pure []) (pure []) :=
    give (x := []) (y := []) rfl
  have all : ∀ fuel, Meets (List.map view) (List.map look) (meet.whileLeft left fuel) (one.whileLeft left fuel)
      (two.whileLeft left fuel) := by
    intro fuel
    induction fuel with
    | zero => exact nothing
    | succ fuel ih =>
      apply at_each
      intro place
      rw [whileLeft_succ, whileLeft_succ, whileLeft_succ]
      by_cases empty : left place = 0
      · rw [if_pos empty, if_pos empty, if_pos empty]
        exact nothing.fixed place
      · rw [if_neg empty, if_neg empty, if_neg empty]
        exact (meets.cons ih).fixed place
  exact at_each (fun place => (all (left place)).fixed place)

/-- What is made of the values read, if the results look the same only for values that do. -/
theorem map {α' β' γ' : Type} {f : α → α'} {g : β → β'} {h : γ → γ'} {view' : α' → γ'} {look' : β' → γ'}
    (meets : Meets view look meet one two) (viewed : ∀ x, view' (f x) = h (view x)) (looked : ∀ y, look' (g y) = h (look y))
    (injective : ∀ {input rest other x y}, one input = .ok (x, rest) → two input = .ok (y, other) →
      h (view x) = h (look y) → view x = look y) : Meets view' look' (h <$> meet) (f <$> one) (g <$> two) := by
  refine meets.bind (fun x y same => ?_) ?_
  · have made : Meets view' look' (pure (view' (f x)) : Read σ γ') (pure (f x)) (pure (g y)) :=
      give (by rw [viewed, looked, same])
    rw [viewed] at made
    exact made
  · intro input rest other last final x y x' y' first second made made' same
    cases made
    cases made'
    rw [viewed, looked] at same
    exact injective first second same

end Meets

end EchoStream.Foundation.Reading
