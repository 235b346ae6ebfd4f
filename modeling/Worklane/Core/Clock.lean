import Worklane.Core.Backoff
import Worklane.Lib.Machine

/-!
# `WallClock`

Callers may read the clock at the same time.  The order of the readings is
that of their `fetch_max`, and the system clock may show anything.
-/

namespace Worklane

open List

structure WallClock where
  floorNanos : Nat
  jumpThresholdNanos : Option Nat
  forwardJumps : Nat

namespace WallClock

/-- The time since the epoch; a system clock that is set before it shows zero. -/
def rawNanos (sinceEpoch : Option Nat) : Nat :=
  min (sinceEpoch.getD 0) u64Max

def observeForwardJump (clock : WallClock) (prev raw : Nat) : WallClock :=
  match clock.jumpThresholdNanos with
  | none => clock
  | some threshold =>
    if prev = 0 ∨ raw ≤ prev then
      clock
    else if raw - prev > threshold then
      { clock with forwardJumps := (clock.forwardJumps + 1) % 2 ^ 64 }
    else
      clock

def now (clock : WallClock) (sinceEpoch : Option Nat) : WallClock × Nat :=
  let raw := rawNanos sinceEpoch
  let prev := clock.floorNanos
  (observeForwardJump { clock with floorNanos := max prev raw } prev raw, max raw prev)

def machine (clock : WallClock) : Lib.Machine WallClock (Option Nat) Nat := ⟨clock, now⟩

theorem floorNanos_now (clock : WallClock) (sinceEpoch : Option Nat) :
    (clock.now sinceEpoch).1.floorNanos = max clock.floorNanos (rawNanos sinceEpoch) := by
  unfold now observeForwardJump
  grind

variable (clock : WallClock) (shown : List (Option Nat))

theorem floorNanos_run : ((machine clock).run shown).floorNanos =
    (shown.map rawNanos).foldl max clock.floorNanos := by
  induction shown using List.reverseRecOn with
  | nil => rfl
  | append_singleton past sinceEpoch ih =>
    rw [Lib.Machine.run_concat, map_append, foldl_append, ← ih]
    exact floorNanos_now ..

theorem readings_ordered (state : WallClock) :
    (state.floorNanos :: ((machine clock).traceFrom state shown).map Prod.snd).Pairwise
      (· ≤ ·) := by
  induction shown generalizing state with
  | nil => simp [Lib.Machine.traceFrom]
  | cons sinceEpoch rest ih =>
    have later := ih (state.now sinceEpoch).1
    rw [floorNanos_now, max_comm] at later
    refine .cons ?_ later
    intro reading member
    rcases mem_cons.mp member with rfl | after
    · exact le_max_right ..
    · exact (le_max_right ..).trans (rel_of_pairwise_cons later after)

/-- Each reading is the latest time the system clock has shown, so the clock
never goes back. -/
theorem readings_monotone : ((machine clock).replies shown).Pairwise (· ≤ ·) ∧
    ∀ sinceEpoch, (now ((machine clock).run shown) sinceEpoch).2 =
      ((shown ++ [sinceEpoch]).map rawNanos).foldl max clock.floorNanos := by
  refine ⟨(readings_ordered clock shown clock).of_cons, fun sinceEpoch => ?_⟩
  rw [map_append, foldl_append, ← floorNanos_run]
  exact max_comm ..

end WallClock

end Worklane
