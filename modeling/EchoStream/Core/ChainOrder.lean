import EchoStream.Foundation.MarkedTasks
import EchoStream.Core.Dispatch

/-! The order in which a chain runs. `Next.run` is a right fold whatever the middlewares are.
For the middlewares that are scripts the chain is also given with marks where a middleware is
entered, calls what is behind it, and is left, and where the terminal is entered. -/

namespace EchoStream.Core.ChainOrder
open Foundation.Tasks Foundation.MarkedTasks
open Proto.Messages
open Handler Chain Dispatch

variable {ω : Type}

/-- Any function of the session, the message and what `next.run` does. -/
abbrev Handle (φ : Type) := SessionId → Message → (Message → φ) → φ

/-- `Next.run` over such functions. -/
def walk {φ : Type} (chain : List (Handle φ)) (session : SessionId) (terminal : Message → φ) (idx : Nat) (msg : Message) : φ :=
  if _ended : chain.length ≤ idx then terminal msg
  else chain[idx] session msg (fun passed => walk chain session terminal (idx + 1) passed)
termination_by chain.length - idx

def nested {φ : Type} (chain : List (Handle φ)) (session : SessionId) (terminal : Message → φ) : Message → φ :=
  chain.foldr (fun handle rest msg => handle session msg rest) terminal

theorem walk_eq_nested {φ : Type} (chain : List (Handle φ)) (session : SessionId) (terminal : Message → φ) (idx : Nat) :
    walk chain session terminal idx = nested (chain.drop idx) session terminal := by
  induction left : chain.length - idx generalizing idx with
  | zero =>
    have ended : chain.length ≤ idx := by omega
    funext msg
    rw [walk, dif_pos ended, List.drop_of_length_le ended]
    rfl
  | succ more ih =>
    have going : ¬ chain.length ≤ idx := by omega
    have inside : idx < chain.length := by omega
    have rest := ih (idx + 1) (by omega)
    funext msg
    rw [walk, dif_neg going, rest, List.drop_eq_getElem_cons inside]
    rfl

theorem runChain_eq_nested (clock : Clock ω) (router : Router ω) (session : SessionId) (msg : Message) (terminal : Callee ω) :
    runChain clock router session msg terminal =
      nested (router.middlewares.map (fun entry session msg callee => entry.2.around clock session callee msg)) session
        terminal msg := by
  rw [runChain_eq_onion, onion, nested, List.foldr_map, List.foldr_map]

inductive Stage where
  | entered (i : Nat)
  | called (i : Nat)
  | left (i : Nat)
  | terminal
deriving DecidableEq

/-- The chain with its marks, the middlewares numbered from `i` on. -/
def markedChain (clock : Clock ω) (session : SessionId) (terminal : Callee ω) :
    Nat → List (Middleware ω) → Message → Marked Stage (World ω) Outcome
  | _, [], msg => .mark .terminal (.plain (terminal msg))
  | i, mw :: chain, msg =>
      .mark (.entered i)
        ((linkMarked World.app World.setApp clock
          (fun passed => .mark (.called i) (markedChain clock session terminal (i + 1) chain passed))
          (mw.handle session msg)).bind (fun outcome => .mark (.left i) (.done outcome)))

variable {clock : Clock ω} {session : SessionId} {terminal : Callee ω} {chain : List (Middleware ω)} {mw : Middleware ω}
variable {i k : Nat} {msg : Message} {marks : List Stage}

theorem erase_markedChain (i : Nat) (chain : List (Middleware ω)) (msg : Message) :
    (markedChain clock session terminal i chain msg).erase = onion clock session chain terminal msg := by
  induction chain generalizing i msg with
  | nil => exact Marked.erase_plain _
  | cons mw chain ih =>
    have calls : (fun passed => (Marked.mark (Stage.called i) (markedChain clock session terminal (i + 1) chain passed)).erase) =
        onion clock session chain terminal := funext (fun passed => ih (i + 1) passed)
    have returns : ∀ task : Task (World ω) Outcome, (task >>= fun outcome => Task.done outcome) = task := by
      intro task
      induction task with
      | done value => rfl
      | step update next ih => exact congrArg (Task.step update) (funext ih)
    rw [markedChain, Marked.erase, Marked.erase_bind, erase_link, calls, onion_cons, Middleware.around]
    exact returns _

/-- The marks that belong to the call of one middleware. -/
def behind (clock : Clock ω) (session : SessionId) (terminal : Callee ω) (i : Nat) (chain : List (Middleware ω))
    (passed : Message) : Marked Stage (World ω) Outcome :=
  .mark (.called i) (markedChain clock session terminal (i + 1) chain passed)

theorem passed_outer (passed : Marked.Passed (markedChain clock session terminal i (mw :: chain) msg) marks) :
    marks = [] ∨ ∃ inner out, marks = .entered i :: (inner ++ out) ∧ (out = [] ∨ out = [.left i]) ∧
      Marked.Passed (linkMarked World.app World.setApp clock (behind clock session terminal i chain)
        (mw.handle session msg)) inner := by
  rcases Marked.passed_mark passed with rfl | ⟨later, rfl, rest⟩
  · exact Or.inl rfl
  · rcases Marked.passed_bind rest with inside | ⟨inner, value, more, ends, beyond, rfl⟩
    · exact Or.inr ⟨later, [], by rw [List.append_nil], Or.inl rfl, inside⟩
    · refine Or.inr ⟨inner, more, rfl, ?_, ends.passed⟩
      rcases Marked.passed_mark beyond with rfl | ⟨last, rfl, ended⟩
      · exact Or.inl rfl
      · rw [Marked.passed_done ended]
        exact Or.inr rfl

theorem passed_behind {passed : Message} {call : List Stage}
    (there : Marked.Passed (behind clock session terminal i chain passed) call) :
    call = [] ∨ ∃ later, call = .called i :: later ∧ Marked.Passed (markedChain clock session terminal (i + 1) chain passed) later :=
  Marked.passed_mark there

/-- Where the middleware `k` makes no call, nothing behind it is entered. -/
theorem intercepted (passed : Marked.Passed (markedChain clock session terminal i chain msg) marks) (beyond : i ≤ k)
    (inside : k < i + chain.length) (silent : .called k ∉ marks) :
    .terminal ∉ marks ∧ ∀ j, .entered j ∈ marks → j ≤ k := by
  induction chain generalizing i msg marks with
  | nil =>
    have empty : i + ([] : List (Middleware ω)).length = i := rfl
    omega
  | cons mw chain ih =>
    rcases passed_outer passed with rfl | ⟨inner, out, rfl, ends, within⟩
    · exact ⟨List.not_mem_nil, fun j member => absurd member List.not_mem_nil⟩
    · obtain ⟨calls, rfl, all⟩ := passed_link within
      have deep : ∀ call ∈ calls, .terminal ∉ call ∧ ∀ j, .entered j ∈ call → j ≤ k := by
        intro call member
        have quiet : .called k ∉ call := by
          intro there
          have inner := List.mem_flatten_of_mem member there
          exact silent (List.mem_cons_of_mem _ (List.mem_append_left out inner))
        obtain ⟨argument, there⟩ := all call member
        rcases passed_behind there with rfl | ⟨later, rfl, rest⟩
        · exact ⟨List.not_mem_nil, fun j member => absurd member List.not_mem_nil⟩
        · have apart : i ≠ k := by
            rintro rfl
            exact quiet List.mem_cons_self
          have length : (mw :: chain).length = chain.length + 1 := rfl
          obtain ⟨unended, below⟩ := ih rest (by omega) (by omega) (fun there => quiet (List.mem_cons_of_mem _ there))
          refine ⟨?_, fun j there => ?_⟩
          · rintro there
            rcases List.mem_cons.1 there with same | there
            · cases same
            · exact unended there
          · rcases List.mem_cons.1 there with same | there
            · cases same
            · exact below j there
      have outside : ∀ stage ∈ out, stage = .left i := by
        rcases ends with rfl | rfl
        · exact List.forall_mem_nil _
        · exact List.forall_mem_singleton.2 rfl
      constructor
      · intro there
        rcases List.mem_cons.1 there with same | there
        · cases same
        · rcases List.mem_append.1 there with there | there
          · obtain ⟨call, member, there⟩ := List.mem_flatten.1 there
            exact (deep call member).1 there
          · cases outside _ there
      · intro j there
        rcases List.mem_cons.1 there with same | there
        · cases same
          exact beyond
        · rcases List.mem_append.1 there with there | there
          · obtain ⟨call, member, there⟩ := List.mem_flatten.1 there
            exact (deep call member).2 j there
          · cases outside _ there

/-- On the way in, from the middleware `i` on when so many are left. -/
def wayIn (i : Nat) : Nat → List Stage
  | 0 => [.terminal]
  | more + 1 => .entered i :: .called i :: wayIn (i + 1) more

def wayOut (i : Nat) : Nat → List Stage
  | 0 => []
  | more + 1 => wayOut (i + 1) more ++ [.left i]

/-- The stages are passed in order on the way in, and in the reverse order on the way out,
which may leave out what a time limit has cut off. -/
def InOrder (i more : Nat) (marks : List Stage) : Prop :=
  ∃ ins outs, marks = ins ++ outs ∧ ins <+: wayIn i more ∧ outs.Sublist (wayOut i more) ∧
    ∀ j, .left j ∈ outs → .entered j ∈ ins

theorem inOrder_nil (i more : Nat) : InOrder i more [] :=
  ⟨[], [], rfl, List.nil_prefix, List.nil_sublist _, fun _ member => absurd member List.not_mem_nil⟩

theorem passed_inOrder (passed : Marked.Passed (markedChain clock session terminal i chain msg) marks)
    (once : ∀ mw ∈ chain, ∀ msg, CallsOnce (mw.handle session msg)) : InOrder i chain.length marks := by
  induction chain generalizing i msg marks with
  | nil =>
    rcases Marked.passed_mark passed with rfl | ⟨later, rfl, rest⟩
    · exact inOrder_nil i 0
    · rw [Marked.passed_plain rest]
      exact ⟨[.terminal], [], rfl, List.prefix_rfl, List.nil_sublist _, fun _ member => absurd member List.not_mem_nil⟩
  | cons mw chain ih =>
    rcases passed_outer passed with rfl | ⟨inner, out, rfl, ends, within⟩
    · exact inOrder_nil i _
    · have leaving : out.Sublist [.left i] := by
        rcases ends with rfl | rfl
        · exact List.nil_sublist _
        · exact List.Sublist.refl _
      have own : ∀ j, .left j ∈ out → j = i := by
        intro j member
        exact Stage.left.inj (List.mem_singleton.1 (leaving.subset member))
      have unentered : InOrder i (mw :: chain).length (.entered i :: out) := by
        refine ⟨[.entered i], out, rfl, ⟨_, rfl⟩, leaving.trans (List.sublist_append_right _ _), fun j member => ?_⟩
        rw [own j member]
        exact List.mem_singleton_self _
      rcases passed_once (once mw List.mem_cons_self msg) within with rfl | ⟨argument, there⟩
      · exact unentered
      · rcases passed_behind there with rfl | ⟨later, rfl, rest⟩
        · exact unentered
        · obtain ⟨ins, outs, rfl, into, outof, both⟩ := ih rest (fun other member => once other (List.mem_cons_of_mem _ member))
          refine ⟨.entered i :: .called i :: ins, outs ++ out, ?_, ?_, ?_, ?_⟩
          · simp
          · exact List.cons_prefix_cons.2 ⟨rfl, List.cons_prefix_cons.2 ⟨rfl, into⟩⟩
          · exact outof.append leaving
          · intro j member
            rcases List.mem_append.1 member with inside | outside
            · exact List.mem_cons_of_mem _ (List.mem_cons_of_mem _ (both j inside))
            · rw [own j outside]
              exact List.mem_cons_self

theorem mem_wayIn {stage : Stage} {more : Nat} (member : stage ∈ wayIn i more) :
    stage = .terminal ∨ ∃ j, i ≤ j ∧ (stage = .entered j ∨ stage = .called j) := by
  induction more generalizing i with
  | zero => exact Or.inl (List.mem_singleton.1 member)
  | succ more ih =>
    rcases List.mem_cons.1 member with rfl | member
    · exact Or.inr ⟨i, Nat.le_refl i, Or.inl rfl⟩
    · rcases List.mem_cons.1 member with rfl | member
      · exact Or.inr ⟨i, Nat.le_refl i, Or.inr rfl⟩
      · exact (ih member).imp_right (fun ⟨j, beyond, same⟩ => ⟨j, Nat.le_of_succ_le beyond, same⟩)

theorem mem_wayOut {stage : Stage} {more : Nat} (member : stage ∈ wayOut i more) : ∃ j, i ≤ j ∧ stage = .left j := by
  induction more generalizing i with
  | zero => cases member
  | succ more ih =>
    rcases List.mem_append.1 member with inside | last
    · obtain ⟨j, beyond, same⟩ := ih inside
      exact ⟨j, Nat.le_of_succ_le beyond, same⟩
    · exact ⟨i, Nat.le_refl i, List.mem_singleton.1 last⟩

theorem wayIn_nodup (i more : Nat) : (wayIn i more).Nodup := by
  induction more generalizing i with
  | zero => exact List.nodup_singleton _
  | succ more ih =>
    have later : ∀ {stage : Stage}, stage ∈ wayIn (i + 1) more → stage ≠ .entered i ∧ stage ≠ .called i := by
      intro stage member
      rcases mem_wayIn member with rfl | ⟨j, beyond, rfl | rfl⟩
      · exact ⟨by rintro ⟨⟩, by rintro ⟨⟩⟩
      · exact ⟨fun same => absurd (Stage.entered.inj same) (by omega), by rintro ⟨⟩⟩
      · exact ⟨by rintro ⟨⟩, fun same => absurd (Stage.called.inj same) (by omega)⟩
    refine List.nodup_cons.2 ⟨fun member => ?_, List.nodup_cons.2 ⟨fun member => (later member).2 rfl, ih (i + 1)⟩⟩
    rcases List.mem_cons.1 member with same | member
    · cases same
    · exact (later member).1 rfl

theorem wayOut_nodup (i more : Nat) : (wayOut i more).Nodup := by
  induction more generalizing i with
  | zero => exact List.nodup_nil
  | succ more ih =>
    refine List.nodup_append.2 ⟨ih (i + 1), List.nodup_singleton _, fun stage member last there same => ?_⟩
    obtain ⟨j, beyond, rfl⟩ := mem_wayOut member
    rw [List.mem_singleton.1 there] at same
    exact absurd (Stage.left.inj same) (by omega)

theorem InOrder.nodup {more : Nat} (ordered : InOrder i more marks) : marks.Nodup := by
  obtain ⟨ins, outs, rfl, into, outof, -⟩ := ordered
  refine List.nodup_append.2 ⟨(wayIn_nodup i more).sublist into.sublist, (wayOut_nodup i more).sublist outof, ?_⟩
  rintro stage inside last there rfl
  obtain ⟨j, -, same⟩ := mem_wayOut (outof.subset there)
  rcases mem_wayIn (into.subset inside) with rfl | ⟨k, -, rfl | rfl⟩ <;> cases same

/-- Running a chain is the right fold of its middlewares over the terminal, for any functions
and for those that are scripts. A middleware that makes no call leaves everything behind it
out. If each one makes one call at most, then everything is run once at most, in the order of
the registrations on the way in and in the reverse order on the way out. A script awaits each
of its calls, as the trait's documentation shows it. A middleware that spawns what follows it
and goes on without it is not one. -/
theorem chain_in_order (clock : Clock ω) (router : Router ω) (session : SessionId) (terminal : Callee ω) :
    (∀ {φ : Type} (chain : List (Handle φ)) (final : Message → φ), walk chain session final 0 = nested chain session final) ∧
    (∀ msg, runChain clock router session msg terminal =
      nested (router.middlewares.map (fun entry session msg callee => entry.2.around clock session callee msg)) session
        terminal msg) ∧
    (∀ msg, (markedChain clock session terminal 0 (router.middlewares.map Prod.snd) msg).erase =
      runChain clock router session msg terminal) ∧
    (∀ msg world, ∃ marks, Marked.Ends (markedChain clock session terminal 0 (router.middlewares.map Prod.snd) msg) marks
      ((runChain clock router session msg terminal).eval world).1) ∧
    (∀ i k msg marks, Marked.Passed (markedChain clock session terminal i ((router.middlewares.map Prod.snd).drop i) msg) marks →
      i ≤ k → k < router.middlewares.length → .called k ∉ marks →
      .terminal ∉ marks ∧ ∀ j, .entered j ∈ marks → j ≤ k) ∧
    ((∀ entry ∈ router.middlewares, ∀ msg, CallsOnce (entry.2.handle session msg)) →
      ∀ msg marks, Marked.Passed (markedChain clock session terminal 0 (router.middlewares.map Prod.snd) msg) marks →
        marks.Nodup ∧ InOrder 0 router.middlewares.length marks) := by
  have erases : ∀ msg, (markedChain clock session terminal 0 (router.middlewares.map Prod.snd) msg).erase =
      runChain clock router session msg terminal := by
    intro msg
    rw [erase_markedChain, runChain_eq_onion]
  refine ⟨?_, ?_, erases, ?_, ?_, ?_⟩
  · intro φ chain final
    rw [walk_eq_nested, List.drop_zero]
  · exact fun msg => runChain_eq_nested clock router session msg terminal
  · intro msg world
    rw [← erases msg]
    exact Marked.ends_alone _ world
  · intro i k msg marks passed beyond inside silent
    refine intercepted passed beyond ?_ silent
    rw [List.length_drop, List.length_map]
    omega
  · intro once msg marks passed
    have ordered := passed_inOrder passed (List.forall_mem_map.2 once)
    rw [List.length_map] at ordered
    exact ⟨ordered.nodup, ordered⟩

private def passing : Middleware Unit := ⟨"passing", fun _ msg => .call msg .done⟩

private def stopping : Middleware Unit := ⟨"stopping", fun _ _ => .done (.ok none)⟩

private def guarded : Router Unit := { Router.new with middlewares := [(0, passing), (1, stopping)] }

theorem chain_in_order_guarded :
    ([.entered 0, .called 0, .entered 1, .left 1, .left 0] : List Stage).Nodup ∧
      InOrder 0 2 [.entered 0, .called 0, .entered 1, .left 1, .left 0] := by
  obtain ⟨-, -, -, -, -, ordered⟩ := chain_in_order (fun _ _ => false) guarded 7 (fun msg => .done (.ok (some msg)))
  have once : ∀ entry ∈ guarded.middlewares, ∀ msg, CallsOnce (entry.2.handle 7 msg) :=
    List.forall_mem_cons.2 ⟨fun _ _ => trivial, List.forall_mem_cons.2 ⟨fun _ => trivial, List.forall_mem_nil _⟩⟩
  exact ordered once (.event ⟨1, "tick", []⟩) _ (.mark (.mark (.mark (.mark (.mark (.begun _))))))

end EchoStream.Core.ChainOrder
