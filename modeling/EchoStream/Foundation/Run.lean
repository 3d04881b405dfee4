import Mathlib.Tactic.Common

/-! Runs of an executable transition function. A label names what happens, and
`none` says that it cannot happen in the state. The rules turn facts about one
step into facts about every state of a run: an invariant that every step keeps,
an invariant that the steps meeting a guard keep, and the exact form, where the
guard is also what the invariant needs. -/

namespace EchoStream.Foundation.Run

variable {State Label : Type}

abbrev Step (State Label : Type) := State → Label → Option State

def run (step : Step State Label) : State → List Label → Option State
  | state, [] => some state
  | state, label :: rest => (step state label).bind (fun next => run step next rest)

@[simp] theorem run_nil (step : Step State Label) (state : State) :
    run step state [] = some state := rfl

theorem run_cons (step : Step State Label) (state : State) (label : Label) (rest : List Label) :
    run step state (label :: rest) = (step state label).bind (fun next => run step next rest) := rfl

theorem run_cons_some {step : Step State Label} {state last : State} {label : Label}
    {rest : List Label} (ran : run step state (label :: rest) = some last) :
    ∃ next, step state label = some next ∧ run step next rest = some last := by
  rw [run_cons, Option.bind_eq_some_iff] at ran
  exact ran

theorem run_append (step : Step State Label) (state : State) (first second : List Label) :
    run step state (first ++ second) = (run step state first).bind (fun mid => run step mid second) := by
  induction first generalizing state with
  | nil => rfl
  | cons label rest ih =>
    simp only [List.cons_append, run_cons]
    cases step state label with
    | none => rfl
    | some next => exact ih next

/-- The state is the last one of some run from `init`. -/
def Reachable (step : Step State Label) (init state : State) : Prop :=
  ∃ labels, run step init labels = some state

theorem Reachable.refl (step : Step State Label) (init : State) : Reachable step init init :=
  ⟨[], rfl⟩

/-- A run of steps that are all steps of another function too. -/
theorem run_mono {narrow wide : Step State Label}
    (widens : ∀ {state label next}, narrow state label = some next → wide state label = some next)
    {state last : State} {labels : List Label} (ran : run narrow state labels = some last) :
    run wide state labels = some last := by
  induction labels generalizing state with
  | nil => exact ran
  | cons label rest ih =>
    obtain ⟨next, stepped, ran⟩ := run_cons_some ran
    rw [run_cons, widens stepped]
    exact ih ran

/-- What the first state has and every step keeps, the last state of a run has. -/
theorem run_invariant {step : Step State Label} {holds : State → Prop}
    (keeps : ∀ state label next, holds state → step state label = some next → holds next)
    {state last : State} {labels : List Label} (start : holds state)
    (ran : run step state labels = some last) : holds last := by
  induction labels generalizing state with
  | nil => cases ran; exact start
  | cons label rest ih =>
    obtain ⟨next, stepped, ran⟩ := run_cons_some ran
    exact ih (keeps _ _ _ start stepped) ran

theorem run_invariant_where {step : Step State Label} {holds : State → Prop} {allowed : Label → Prop}
    (keeps : ∀ state label next, holds state → allowed label → step state label = some next → holds next)
    {state last : State} {labels : List Label} (start : holds state) (all : ∀ label ∈ labels, allowed label)
    (ran : run step state labels = some last) : holds last := by
  induction labels generalizing state with
  | nil => cases ran; exact start
  | cons label rest ih =>
    obtain ⟨next, stepped, ran⟩ := run_cons_some ran
    obtain ⟨first, later⟩ := List.forall_mem_cons.1 all
    exact ih (keeps _ _ _ start first stepped) later ran

theorem Reachable.invariant {step : Step State Label} {init state : State} {holds : State → Prop}
    (reached : Reachable step init state) (start : holds init)
    (keeps : ∀ state label next, holds state → step state label = some next → holds next) :
    holds state := by
  obtain ⟨labels, ran⟩ := reached
  exact run_invariant keeps start ran

/-- `holds` is true in every state the run visits, the first and the last included. -/
def Always (step : Step State Label) (holds : State → Prop) : State → List Label → Prop
  | state, [] => holds state
  | state, label :: rest =>
      holds state ∧ ∀ next, step state label = some next → Always step holds next rest

theorem Always.cons {step : Step State Label} {holds : State → Prop} {state next : State} {label : Label}
    {rest : List Label} (here : holds state) (stepped : step state label = some next)
    (later : Always step holds next rest) : Always step holds state (label :: rest) := by
  refine ⟨here, fun other same => ?_⟩
  rw [stepped] at same
  cases same
  exact later

theorem Always.first {step : Step State Label} {holds : State → Prop} {state : State}
    {labels : List Label} (always : Always step holds state labels) : holds state := by
  cases labels with
  | nil => exact always
  | cons label rest => exact always.1

theorem Always.last {step : Step State Label} {holds : State → Prop} {state last : State}
    {labels : List Label} (always : Always step holds state labels)
    (ran : run step state labels = some last) : holds last := by
  induction labels generalizing state with
  | nil => cases ran; exact always
  | cons label rest ih =>
    obtain ⟨next, stepped, ran⟩ := run_cons_some ran
    exact ih (always.2 next stepped) ran

theorem Always.mono {step : Step State Label} {holds weaker : State → Prop}
    (implies : ∀ state, holds state → weaker state) {state : State} {labels : List Label}
    (always : Always step holds state labels) : Always step weaker state labels := by
  induction labels generalizing state with
  | nil => exact implies _ always
  | cons label rest ih =>
    exact ⟨implies _ always.1, fun next stepped => ih (always.2 next stepped)⟩

/-- Every step the run takes meets `guard` in the state before it. -/
def Guarded (step : Step State Label) (guard : State → Label → Prop) : State → List Label → Prop
  | _, [] => True
  | state, label :: rest =>
      ∀ next, step state label = some next → guard state label ∧ Guarded step guard next rest

theorem Guarded.cons {step : Step State Label} {guard : State → Label → Prop} {state next : State}
    {label : Label} {rest : List Label} (stepped : step state label = some next)
    (met : guard state label) (later : Guarded step guard next rest) :
    Guarded step guard state (label :: rest) := by
  intro other same
  rw [stepped] at same
  cases same
  exact ⟨met, later⟩

/-- A guard that no step can miss does not restrict the run. -/
theorem guarded_of_forall {step : Step State Label} {guard : State → Label → Prop}
    (all : ∀ state label next, step state label = some next → guard state label)
    (state : State) (labels : List Label) : Guarded step guard state labels := by
  induction labels generalizing state with
  | nil => trivial
  | cons label rest ih => exact fun next stepped => ⟨all _ _ _ stepped, ih next⟩

theorem guarded_always {step : Step State Label} {guard : State → Label → Prop}
    {holds : State → Prop}
    (keeps : ∀ state label next, holds state → guard state label →
      step state label = some next → holds next)
    {state : State} {labels : List Label} (start : holds state)
    (guarded : Guarded step guard state labels) : Always step holds state labels := by
  induction labels generalizing state with
  | nil => exact start
  | cons label rest ih =>
    refine ⟨start, fun next stepped => ?_⟩
    obtain ⟨met, later⟩ := guarded next stepped
    exact ih (keeps _ _ _ start met stepped) later

/-- The guard is exact for `holds`: where every step keeps `support`, guarded
steps keep `holds` and no other step does, `holds` is true all along a run just
when the run is guarded. -/
theorem always_iff_guarded {step : Step State Label} {guard : State → Label → Prop}
    {support holds : State → Prop}
    (supports : ∀ state label next, support state → step state label = some next → support next)
    (keeps : ∀ state label next, support state → holds state → guard state label →
      step state label = some next → holds next)
    (needs : ∀ state label next, support state → holds state →
      step state label = some next → holds next → guard state label)
    {state : State} (labels : List Label) (supported : support state) (start : holds state) :
    Always step holds state labels ↔ Guarded step guard state labels := by
  constructor
  · intro always
    induction labels generalizing state with
    | nil => trivial
    | cons label rest ih =>
      intro next stepped
      have later := always.2 next stepped
      exact ⟨needs _ _ _ supported start stepped later.first,
        ih (supports _ _ _ supported stepped) later.first later⟩
  · intro guarded
    have both : Always step (fun state => support state ∧ holds state) state labels := by
      apply guarded_always _ ⟨supported, start⟩ guarded
      intro state label next both met stepped
      exact ⟨supports _ _ _ both.1 stepped, keeps _ _ _ both.1 both.2 met stepped⟩
    exact both.mono (fun _ both => both.2)

end EchoStream.Foundation.Run
