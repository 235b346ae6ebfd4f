import Mathlib.Data.Nat.Log
import Mathlib.Tactic.Common
import Mathlib.Tactic.Ring

/-!
# Rounding to significant digits

A number kept to a fixed count of significant digits in a base, to the nearest
and ties to even.  With base two and 53 digits this is the conversion of an
integer to a double; with base ten it is the conversion behind `%.14g`.
-/

namespace Lib

/-- The nearest multiple of `unit`, the even one of two. -/
def roundHalfEven (unit number : Nat) : Nat :=
  let low := number / unit
  let rest := number % unit
  if 2 * rest < unit ∨ (2 * rest = unit ∧ low % 2 = 0) then
    low * unit
  else
    (low + 1) * unit

theorem roundHalfEven_of_dvd {unit number : Nat} (positive : 0 < unit)
    (divides : unit ∣ number) : roundHalfEven unit number = number := by
  have exact := Nat.mod_eq_zero_of_dvd divides
  unfold roundHalfEven
  rw [if_pos (Or.inl (by omega))]
  exact Nat.div_mul_cancel divides

theorem roundHalfEven_multiple {unit number bound : Nat} (below : number < bound * unit) :
    ∃ count ≤ bound, roundHalfEven unit number = count * unit := by
  have low : number / unit < bound := Nat.div_lt_of_lt_mul (by rwa [Nat.mul_comm] at below)
  simp only [roundHalfEven]
  split
  · exact ⟨number / unit, Nat.le_of_lt low, rfl⟩
  · exact ⟨number / unit + 1, low, rfl⟩

theorem div_mul_le_roundHalfEven (unit number : Nat) :
    number / unit * unit ≤ roundHalfEven unit number := by
  simp only [roundHalfEven]
  split
  · exact Nat.le_refl _
  · exact Nat.mul_le_mul_right unit (Nat.le_succ _)

theorem roundHalfEven_le (unit number : Nat) :
    roundHalfEven unit number ≤ (number / unit + 1) * unit := by
  simp only [roundHalfEven]
  split
  · exact Nat.mul_le_mul_right unit (Nat.le_succ _)
  · exact Nat.le_refl _

theorem roundHalfEven_mono (unit : Nat) {left right : Nat} (order : left ≤ right) :
    roundHalfEven unit left ≤ roundHalfEven unit right := by
  rcases Nat.lt_or_eq_of_le (Nat.div_le_div_right order) with less | same
  · calc roundHalfEven unit left ≤ (left / unit + 1) * unit := roundHalfEven_le ..
      _ ≤ right / unit * unit := Nat.mul_le_mul_right unit less
      _ ≤ roundHalfEven unit right := div_mul_le_roundHalfEven ..
  · -- In one unit the one with the smaller rest is not rounded up alone.
    have rests : left % unit ≤ right % unit := by
      have leftSplit := Nat.div_add_mod left unit
      have rightSplit := Nat.div_add_mod right unit
      rw [same] at leftSplit
      omega
    by_cases down : 2 * (right % unit) < unit ∨ (2 * (right % unit) = unit ∧ right / unit % 2 = 0)
    · have alsoDown : 2 * (left % unit) < unit ∨
          (2 * (left % unit) = unit ∧ right / unit % 2 = 0) := by omega
      simp only [roundHalfEven, same, if_pos down, if_pos alsoDown, Nat.le_refl]
    · have up : roundHalfEven unit right = (right / unit + 1) * unit := by
        simp only [roundHalfEven, if_neg down]
      rw [up, ← same]
      exact roundHalfEven_le ..

/-- `number` to `digits` significant digits in `base`. -/
def roundDigits (base digits number : Nat) : Nat :=
  if number < base ^ digits then
    number
  else
    roundHalfEven (base ^ (Nat.log base number + 1 - digits)) number

section Digits

variable {base digits number : Nat}

theorem roundDigits_of_lt (small : number < base ^ digits) :
    roundDigits base digits number = number := if_pos small

theorem roundDigits_exact (large : 1 < base) (some : 0 < digits)
    {count power : Nat} (bounded : count ≤ base ^ digits) :
    roundDigits base digits (count * base ^ power) = count * base ^ power := by
  by_cases small : count * base ^ power < base ^ digits
  · exact roundDigits_of_lt small
  · rw [roundDigits, if_neg small]
    apply roundHalfEven_of_dvd (Nat.pow_pos (by omega))
    have positive : 0 < base ^ digits := Nat.pow_pos (by omega)
    rcases Nat.lt_or_eq_of_le bounded with less | full
    · -- a short count leaves the last digit at or above `base ^ power`
      have below : count * base ^ power < base ^ (digits + power) := by
        rw [pow_add]
        exact Nat.mul_lt_mul_of_pos_right less (Nat.pow_pos (by omega))
      have logBelow := Nat.log_lt_of_lt_pow (by omega) below
      exact Dvd.dvd.mul_left (pow_dvd_pow base (by omega)) count
    · rw [full, ← pow_add, Nat.log_pow large]
      exact pow_dvd_pow base (by omega)

theorem roundDigits_bounds (large : 1 < base) (some : 0 < digits) (long : base ^ digits ≤ number) :
    base ^ Nat.log base number ≤ roundDigits base digits number ∧
      roundDigits base digits number ≤ base ^ (Nat.log base number + 1) := by
  have reaches : digits ≤ Nat.log base number := Nat.le_log_of_pow_le large long
  have positive : 0 < base ^ digits := Nat.pow_pos (by omega)
  rw [roundDigits, if_neg (Nat.not_lt.mpr long)]
  constructor
  · have shape : base ^ Nat.log base number =
        base ^ (digits - 1) * base ^ (Nat.log base number + 1 - digits) := by
      rw [← pow_add]
      congr 1
      omega
    have start : base ^ Nat.log base number ≤ number := Nat.pow_log_le_self base (by omega)
    refine Nat.le_trans ?_ (div_mul_le_roundHalfEven ..)
    rw [shape] at start ⊢
    exact Nat.mul_le_mul_right _ ((Nat.le_div_iff_mul_le (Nat.pow_pos (by omega))).mpr start)
  · have shape : base ^ digits * base ^ (Nat.log base number + 1 - digits) =
        base ^ (Nat.log base number + 1) := by
      rw [← pow_add, Nat.add_sub_cancel' (by omega)]
    have below : number < base ^ digits * base ^ (Nat.log base number + 1 - digits) := by
      rw [shape]
      exact Nat.lt_pow_succ_log_self large number
    obtain ⟨count, bounded, rounded⟩ := roundHalfEven_multiple below
    rw [rounded, ← shape]
    exact Nat.mul_le_mul_right _ bounded

theorem roundDigits_mono (large : 1 < base) (some : 0 < digits) {left right : Nat}
    (order : left ≤ right) : roundDigits base digits left ≤ roundDigits base digits right := by
  by_cases short : right < base ^ digits
  · rw [roundDigits_of_lt short, roundDigits_of_lt (Nat.lt_of_le_of_lt order short)]
    exact order
  · have long := Nat.le_of_not_lt short
    have above := (roundDigits_bounds large some long).1
    by_cases leftShort : left < base ^ digits
    · have power := Nat.pow_le_pow_right (Nat.le_of_lt large) (Nat.le_log_of_pow_le large long)
      rw [roundDigits_of_lt leftShort]
      omega
    · have below := (roundDigits_bounds large some (Nat.le_of_not_lt leftShort)).2
      have logs : Nat.log base left ≤ Nat.log base right := Nat.log_mono_right order
      rcases Nat.lt_or_eq_of_le logs with less | same
      · exact below.trans ((Nat.pow_le_pow_right (Nat.le_of_lt large) less).trans above)
      · rw [roundDigits, roundDigits, if_neg leftShort, if_neg short, same]
        exact roundHalfEven_mono _ order

theorem roundDigits_idem (large : 1 < base) (some : 0 < digits) :
    roundDigits base digits (roundDigits base digits number) =
      roundDigits base digits number := by
  by_cases small : number < base ^ digits
  · rw [roundDigits_of_lt small, roundDigits_of_lt small]
  · have reaches : digits ≤ Nat.log base number + 1 := by
      have := Nat.le_log_of_pow_le large (Nat.le_of_not_lt small)
      omega
    have below : number < base ^ digits * base ^ (Nat.log base number + 1 - digits) := by
      rw [← pow_add, Nat.add_sub_cancel' reaches]
      exact Nat.lt_pow_succ_log_self large number
    obtain ⟨count, bounded, shape⟩ := roundHalfEven_multiple below
    rw [show roundDigits base digits number = _ from if_neg small, shape]
    exact roundDigits_exact large some bounded

end Digits

/-- An integer as a double. -/
def toDouble (number : Nat) : Nat := roundDigits 2 53 number

@[simp]
theorem toDouble_idem (number : Nat) : toDouble (toDouble number) = toDouble number :=
  roundDigits_idem (by decide) (by decide)

theorem toDouble_mono {left right : Nat} (order : left ≤ right) : toDouble left ≤ toDouble right :=
  roundDigits_mono (by decide) (by decide) order

example : toDouble (2 ^ 53 + 1) = 2 ^ 53 := by decide +kernel

end Lib
