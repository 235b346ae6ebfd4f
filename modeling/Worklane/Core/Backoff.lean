import Mathlib.Tactic.Common
import Worklane.Core.Envelope

/-!
# Retry delays and idle waits

Durations are whole nanoseconds up to `Duration::MAX`.  Both backoffs grow
geometrically in saturating arithmetic and stop at a cap, and both are the
minimum that exact arithmetic gives: what saturates is above the cap.
-/

namespace Worklane

/-- `u64::MAX`. -/
def u64Max : Nat := 2 ^ 64 - 1

/-- `u128::MAX`. -/
def u128Max : Nat := 2 ^ 128 - 1

theorem durationMax_lt : durationMax < u128Max := by decide

structure Duration where
  asNanos : Nat
  fits : asNanos ≤ durationMax
  deriving DecidableEq

namespace Duration

@[ext]
theorem ext {left right : Duration} (same : left.asNanos = right.asNanos) : left = right := by
  cases left
  cases right
  congr

instance : LE Duration := ⟨fun left right => left.asNanos ≤ right.asNanos⟩

instance (left right : Duration) : Decidable (left ≤ right) :=
  inferInstanceAs (Decidable (left.asNanos ≤ right.asNanos))

instance : Min Duration := ⟨fun left right => if left ≤ right then left else right⟩

instance : Max Duration := ⟨fun left right => if left ≤ right then right else left⟩

theorem le_iff {left right : Duration} : left ≤ right ↔ left.asNanos ≤ right.asNanos := Iff.rfl

@[simp]
theorem asNanos_min (left right : Duration) :
    (min left right).asNanos = min left.asNanos right.asNanos := by
  change (if left ≤ right then left else right).asNanos = _
  split <;> simp_all only [le_iff] <;> omega

@[simp]
theorem asNanos_max (left right : Duration) :
    (max left right).asNanos = max left.asNanos right.asNanos := by
  change (if left ≤ right then right else left).asNanos = _
  split <;> simp_all only [le_iff] <;> omega

/-- `Duration::from_nanos`. -/
def fromNanos (nanos : UInt64) : Duration where
  asNanos := nanos.toNat
  fits := by
    have below := nanos.toNat_lt
    have enough : 2 ^ 64 ≤ durationMax := by decide
    omega

@[simp]
theorem asNanos_fromNanos (nanos : UInt64) : (fromNanos nanos).asNanos = nanos.toNat := rfl

/-- `Duration::saturating_mul`. -/
def saturatingMul (wait : Duration) (times : Nat) : Duration where
  asNanos := min (wait.asNanos * times) durationMax
  fits := Nat.min_le_right ..

@[simp]
theorem asNanos_saturatingMul (wait : Duration) (times : Nat) :
    (wait.saturatingMul times).asNanos = min (wait.asNanos * times) durationMax := rfl

end Duration

/-! ## The retry delay -/

/-- `u128::checked_pow`. -/
def checkedPow (base exponent : Nat) : Option Nat :=
  if base ^ exponent ≤ u128Max then some (base ^ exponent) else none

/-- `u128::saturating_mul`. -/
def saturatingMul (left right : Nat) : Nat := min (left * right) u128Max

structure RetryPolicy where
  base : Duration
  factor : UInt32
  cap : Duration

namespace RetryPolicy

/-- `RetryPolicy::delay_for`. -/
def delayFor (policy : RetryPolicy) (attempts : UInt32) : Duration :=
  let multiplier := (checkedPow policy.factor.toNat attempts.toNat).getD u128Max
  let scaled := saturatingMul policy.base.asNanos multiplier
  let capped := min scaled policy.cap.asNanos
  min (.fromNanos (.ofNat (min capped u64Max))) policy.cap

/-- A power that does not fit counts as `u128::MAX`, and a product with it is
zero or above every cap. -/
theorem min_saturated (base factor attempts : Nat) {cap : Nat} (small : cap < u128Max) :
    min (saturatingMul base ((checkedPow factor attempts).getD u128Max)) cap =
      min (base * factor ^ attempts) cap := by
  rw [saturatingMul, checkedPow]
  split
  · rw [Option.getD_some]
    omega
  · next large =>
    rw [Option.getD_none]
    rcases Nat.eq_zero_or_pos base with rfl | positive
    · simp only [Nat.zero_mul]
      omega
    · have saturates := Nat.le_mul_of_pos_left u128Max positive
      have exceeds := Nat.le_mul_of_pos_left (factor ^ attempts) positive
      omega

theorem asNanos_delayFor (policy : RetryPolicy) (attempts : UInt32) :
    (policy.delayFor attempts).asNanos =
      min (min (policy.base.asNanos * policy.factor.toNat ^ attempts.toNat) policy.cap.asNanos)
        u64Max := by
  have small : policy.cap.asNanos < u128Max := Nat.lt_of_le_of_lt policy.cap.fits durationMax_lt
  have cast : ∀ nanos, (UInt64.ofNat (min nanos u64Max)).toNat =
      min nanos u64Max := by
    intro nanos
    apply UInt64.toNat_ofNat_of_lt'
    exact Nat.lt_of_le_of_lt (Nat.min_le_right ..) (by decide)
  rw [delayFor, Duration.asNanos_min, Duration.asNanos_fromNanos, cast, min_saturated _ _ _ small]
  omega

/-- The delay is the minimum in exact arithmetic, so it stays within the cap,
and it does not shrink from one attempt to the next unless the factor is
zero. -/
theorem delayFor_exact (policy : RetryPolicy) : (∀ attempts, (policy.delayFor attempts).asNanos =
      min (min (policy.base.asNanos * policy.factor.toNat ^ attempts.toNat) policy.cap.asNanos)
        u64Max) ∧
    (∀ attempts, policy.delayFor attempts ≤ policy.cap) ∧
    (1 ≤ policy.factor.toNat → ∀ earlier later : UInt32, earlier ≤ later →
      policy.delayFor earlier ≤ policy.delayFor later) := by
  refine ⟨policy.asNanos_delayFor, fun attempts => ?_, fun positive earlier later order => ?_⟩
  · rw [Duration.le_iff, asNanos_delayFor]
    omega
  · have grows : policy.factor.toNat ^ earlier.toNat ≤ policy.factor.toNat ^ later.toNat :=
      Nat.pow_le_pow_right positive (UInt32.le_iff_toNat_le.mp order)
    have scaled := Nat.mul_le_mul_left policy.base.asNanos grows
    rw [Duration.le_iff, asNanos_delayFor, asNanos_delayFor]
    omega

/-- One second, doubled up to a minute. -/
def standard : RetryPolicy where
  base := ⟨10 ^ 9, by decide⟩
  factor := 2
  cap := ⟨60 * 10 ^ 9, by decide⟩

theorem standard_grows : standard.delayFor 5 ≤ standard.delayFor 1000 :=
  (delayFor_exact standard).2.2 (by decide) 5 1000 (by decide)

end RetryPolicy

/-! ## The idle wait -/

/-- The loop of `Worker::idle_wait`. -/
def idleLoop (cap : Duration) : Nat → Duration → Duration
  | 0, wait => min wait cap
  | left + 1, wait =>
    if cap ≤ wait then
      cap
    else
      idleLoop cap left (wait.saturatingMul 2)

/-- `Worker::idle_wait`. -/
def idleWait (pollInterval idleBackoffCap : Duration) (empties : UInt32) : Duration :=
  let base := pollInterval
  let cap := max idleBackoffCap base
  idleLoop cap empties.toNat base

/-- Doubling until the cap is reached: the early return and the saturated
product are both at the cap. -/
theorem asNanos_idleLoop (cap : Duration) (left : Nat) (wait : Duration) :
    (idleLoop cap left wait).asNanos = min (wait.asNanos * 2 ^ left) cap.asNanos := by
  induction left generalizing wait with
  | zero => simp [idleLoop]
  | succ left ih =>
    have grows : wait.asNanos ≤ wait.asNanos * 2 ^ (left + 1) :=
      Nat.le_mul_of_pos_right _ (Nat.two_pow_pos _)
    rw [idleLoop]
    split
    · next reached =>
      have atCap := Duration.le_iff.mp reached
      omega
    · have bound := cap.fits
      have doubled : wait.asNanos * 2 ^ (left + 1) = wait.asNanos * 2 * 2 ^ left := by
        rw [Nat.pow_succ, Nat.mul_comm (2 ^ left) 2, Nat.mul_assoc]
      rw [ih, doubled, Duration.asNanos_saturatingMul]
      rcases Nat.le_total (wait.asNanos * 2) durationMax with small | large
      · rw [Nat.min_eq_left small]
      · have saturated := Nat.le_mul_of_pos_right durationMax (Nat.two_pow_pos left)
        have exact_ := Nat.mul_le_mul_right (2 ^ left) large
        rw [Nat.min_eq_right large]
        omega

/-- The idle wait is the capped power of two, and never shrinks while the lane
stays empty. -/
theorem idleWait_closed_form (pollInterval idleBackoffCap : Duration) :
    (∀ empties, (idleWait pollInterval idleBackoffCap empties).asNanos =
      min (pollInterval.asNanos * 2 ^ empties.toNat)
        (max idleBackoffCap.asNanos pollInterval.asNanos)) ∧
    ∀ fewer more : UInt32, fewer ≤ more →
      idleWait pollInterval idleBackoffCap fewer ≤ idleWait pollInterval idleBackoffCap more := by
  have closed : ∀ empties, (idleWait pollInterval idleBackoffCap empties).asNanos =
      min (pollInterval.asNanos * 2 ^ empties.toNat)
        (max idleBackoffCap.asNanos pollInterval.asNanos) := by
    intro empties
    rw [idleWait, asNanos_idleLoop, Duration.asNanos_max]
  refine ⟨closed, fun fewer more order => ?_⟩
  have powers : 2 ^ fewer.toNat ≤ 2 ^ more.toNat :=
    Nat.pow_le_pow_right (by decide) (UInt32.le_iff_toNat_le.mp order)
  have scaled := Nat.mul_le_mul_left pollInterval.asNanos powers
  rw [Duration.le_iff, closed, closed]
  omega

/-- A first empty poll waits at most as long as a later one. -/
theorem idle_second_grows : idleWait ⟨10 ^ 9, by decide⟩ ⟨30 * 10 ^ 9, by decide⟩ 0 ≤
      idleWait ⟨10 ^ 9, by decide⟩ ⟨30 * 10 ^ 9, by decide⟩ 4 :=
  (idleWait_closed_form _ _).2 0 4 (by decide)

end Worklane
