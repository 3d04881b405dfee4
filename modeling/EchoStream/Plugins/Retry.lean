import Mathlib.Algebra.Group.Nat.Defs
import Mathlib.Order.Bounds.Basic
import Mathlib.Data.Nat.Find
import Mathlib.Tactic.IntervalCases
import EchoStream.Proto.Messages

/-! Requests that are made again when they fail. The pauses in between double up to a
bound, and the last attempt is not followed by one. -/

namespace EchoStream.Plugins.Retry
open Proto.Messages

/-- Seconds are a `u64`. -/
structure Duration where
  nanos : Nat
  fits : nanos < 2 ^ 64 * 10 ^ 9
deriving DecidableEq

/-- What does not fit is a panic. -/
def Duration.mul (duration : Duration) (factor : UInt32) : Option Duration :=
  if fits : duration.nanos * factor.toNat < 2 ^ 64 * 10 ^ 9 then some ⟨duration.nanos * factor.toNat, fits⟩ else none

structure RetryPolicy where
  maxAttempts : UInt32
  baseDelay : Duration

def RetryPolicy.default : RetryPolicy := ⟨3, ⟨200 * 10 ^ 6, by decide⟩⟩

def isRetryable : Error → Bool
  | .timeout _ => true
  | .sessionClosed => true
  | .io _ => true
  | _ => false

inductive Act where
  | request
  | wait (delay : Duration)
deriving DecidableEq

/-- What the caller gets, and what was done for it. -/
structure Retried (Resp : Type) where
  result : Result Resp
  acts : List Act

def delayAfter (policy : RetryPolicy) (attempt : Nat) : Option Duration :=
  policy.baseDelay.mul ((1 : UInt32) <<< UInt32.ofNat (min (attempt - 1) 6))

variable {Resp : Type}

/-- The attempts are counted in a `u32`. `outcome` says how each of them ends, from the
first one on. -/
def retryLoop (outcome : Nat → Result Resp) (policy : RetryPolicy) (attempt : Nat) : Option (Retried Resp) :=
  if attempt + 1 < 2 ^ 32 then
    match outcome (attempt + 1) with
    | .ok resp => some ⟨.ok resp, [.request]⟩
    | .error e =>
        if attempt + 1 < policy.maxAttempts.toNat ∧ isRetryable e then
          match delayAfter policy (attempt + 1) with
          | none => none
          | some delay =>
              (retryLoop outcome policy (attempt + 1)).map (fun later => ⟨later.result, .request :: .wait delay :: later.acts⟩)
        else some ⟨.error e, [.request]⟩
  else none
termination_by 2 ^ 32 - attempt

def requestWithRetry (outcome : Nat → Result Resp) (policy : RetryPolicy) : Option (Retried Resp) :=
  retryLoop outcome policy 0

/-- A response, or an error that is not tried again. -/
def Settles : Result Resp → Prop
  | .ok _ => True
  | .error e => isRetryable e = false

/-- The pause after an attempt, where the longest one fits. -/
def backoff (policy : RetryPolicy) (fits : policy.baseDelay.nanos * 64 < 2 ^ 64 * 10 ^ 9) (attempt : Nat) : Duration where
  nanos := policy.baseDelay.nanos * 2 ^ min (attempt - 1) 6
  fits := by
    have capped : 2 ^ min (attempt - 1) 6 ≤ 2 ^ 6 := Nat.pow_le_pow_right (by decide) (Nat.min_le_right _ _)
    exact Nat.lt_of_le_of_lt (Nat.mul_le_mul_left _ capped) fits

variable {policy : RetryPolicy} {outcome : Nat → Result Resp}

theorem shift_toNat {n : Nat} (few : n ≤ 6) : ((1 : UInt32) <<< UInt32.ofNat n).toNat = 2 ^ n := by
  interval_cases n <;> rfl

theorem delayAfter_eq (fits : policy.baseDelay.nanos * 64 < 2 ^ 64 * 10 ^ 9) (attempt : Nat) :
    delayAfter policy attempt = some (backoff policy fits attempt) := by
  have small : policy.baseDelay.nanos * 2 ^ min (attempt - 1) 6 < 2 ^ 64 * 10 ^ 9 := (backoff policy fits attempt).fits
  simp only [delayAfter, Duration.mul, shift_toNat (Nat.min_le_right (attempt - 1) 6), dif_pos small]
  rfl

theorem retryLoop_run (fits : policy.baseDelay.nanos * 64 < 2 ^ 64 * 10 ^ 9) {k : Nat} (small : k < 2 ^ 32)
    (before : ∀ j, 1 ≤ j → j < k → j < policy.maxAttempts.toNat ∧ ∃ e, outcome j = .error e ∧ isRetryable e = true)
    (last : ∀ e, outcome k = .error e → ¬ (k < policy.maxAttempts.toNat ∧ isRetryable e = true)) (more attempt : Nat)
    (far : attempt + more + 1 = k) :
    retryLoop outcome policy attempt = some ⟨outcome k, .request ::
      (List.range' (attempt + 1) more).flatMap (fun j => [.wait (backoff policy fits j), .request])⟩ := by
  induction more generalizing attempt with
  | zero =>
    have here : attempt + 1 = k := far
    rw [retryLoop, here, if_pos small]
    cases ends : outcome k with
    | ok resp => rfl
    | error e =>
      simp only [if_neg (last e ends)]
      rfl
  | succ more ih =>
    obtain ⟨below, e, fails, again⟩ := before (attempt + 1) (by omega) (by omega)
    rw [retryLoop, if_pos (by omega), fails]
    simp only [if_pos (And.intro below again), delayAfter_eq fits, ih (attempt + 1) (by omega)]
    rfl

/-- The calls go on up to the first outcome that settles the matter, but to no more than
the greatest number of attempts, and there is one at least. The outcome of the last call
is returned, and the pauses between the calls double up to the seventh. -/
theorem retries (policy : RetryPolicy) (fits : policy.baseDelay.nanos * 64 < 2 ^ 64 * 10 ^ 9) (outcome : Nat → Result Resp) :
    ∃ k, IsLeast {j | j = max 1 policy.maxAttempts.toNat ∨ 1 ≤ j ∧ Settles (outcome j)} k ∧
      requestWithRetry outcome policy = some ⟨outcome k, .request ::
        (List.range' 1 (k - 1)).flatMap (fun j => [.wait (backoff policy fits j), .request])⟩ := by
  classical
  have some_last : ∃ j, j = max 1 policy.maxAttempts.toNat ∨ 1 ≤ j ∧ Settles (outcome j) := ⟨_, Or.inl rfl⟩
  let k := Nat.find some_last
  have ends : k = max 1 policy.maxAttempts.toNat ∨ 1 ≤ k ∧ Settles (outcome k) := Nat.find_spec some_last
  have most : k ≤ max 1 policy.maxAttempts.toNat := Nat.find_min' some_last (Or.inl rfl)
  have positive : 1 ≤ k := by
    rcases ends with bound | settled
    · omega
    · exact settled.1
  have bounded : policy.maxAttempts.toNat < 2 ^ 32 := policy.maxAttempts.toNat_lt
  refine ⟨k, ⟨ends, fun j other => Nat.find_min' some_last other⟩, ?_⟩
  refine retryLoop_run fits (by omega) ?_ ?_ (k - 1) 0 (by omega)
  · intro j first earlier
    have goes := Nat.find_min some_last earlier
    rw [not_or] at goes
    refine ⟨by omega, ?_⟩
    cases fails : outcome j with
    | ok resp => exact absurd ⟨first, fails ▸ trivial⟩ goes.2
    | error e =>
      refine ⟨e, rfl, ?_⟩
      by_contra final
      exact goes.2 ⟨first, fails ▸ Bool.eq_false_iff.2 final⟩
  · intro e fails again
    rcases ends with bound | settled
    · omega
    · rw [fails] at settled
      have final : isRetryable e = false := settled.2
      rw [final] at again
      cases again.2

private def timeouts (attempt : Nat) : Result Unit := .error (.timeout (UInt64.ofNat attempt))

theorem retries_timeouts : ∃ k, IsLeast {j | j = 3 ∨ 1 ≤ j ∧ Settles (timeouts j)} k ∧
    requestWithRetry timeouts .default = some ⟨timeouts k, .request ::
      (List.range' 1 (k - 1)).flatMap (fun j => [.wait (backoff .default (by decide) j), .request])⟩ :=
  retries .default (by decide) timeouts

end EchoStream.Plugins.Retry
