import Mathlib.Data.Nat.Notation
import Mathlib.Data.String.Basic
import Mathlib.Tactic.Common
import Mathlib.Tactic.Ring

/-!
# Fixed-width positional notation

Numbers written with a fixed number of digits, most significant digit first.
Below `base ^ width` the notation is injective, and the lexicographic order of
the digits is the order of the numbers.
-/

namespace Lib

open List

/-- The `width` lowest digits of `number`, most significant first. -/
def fixedDigits (base : Nat) : Nat → Nat → List Nat
  | 0, _ => []
  | width + 1, number =>
    number / base ^ width % base :: fixedDigits base width number

@[simp]
theorem fixedDigits_length (base width number : Nat) :
    (fixedDigits base width number).length = width := by
  induction width with
  | zero => rfl
  | succ width ih =>
    simp [fixedDigits, ih]

variable {base : Nat} {width : Nat}

theorem fixedDigits_lt {number digit : Nat} (positive : 0 < base)
    (member : digit ∈ fixedDigits base width number) : digit < base := by
  induction width with
  | zero => simp [fixedDigits] at member
  | succ width ih =>
    rcases mem_cons.mp member with rfl | lower
    · exact Nat.mod_lt _ positive
    · exact ih lower

theorem fixedDigits_mod (base width extra number : Nat) :
    fixedDigits base width (number % base ^ (width + extra)) =
      fixedDigits base width number := by
  induction width generalizing extra with
  | zero => rfl
  | succ width ih =>
    have shifted : width + 1 + extra = width + (extra + 1) := by omega
    simp only [fixedDigits, List.cons.injEq]
    constructor
    · rw [shifted, pow_add, Nat.mod_mul_right_div_self, pow_succ, Nat.mod_mul_left_mod]
    · rw [shifted]
      exact ih (extra + 1)

theorem fixedDigits_succ_of_lt {number : Nat} (fits : number < base ^ (width + 1)) :
    fixedDigits base (width + 1) number = number / base ^ width ::
        fixedDigits base width (number % base ^ width) := by
  have leading : number / base ^ width < base := by
    apply Nat.div_lt_of_lt_mul
    rwa [pow_succ] at fits
  rw [fixedDigits, Nat.mod_eq_of_lt leading]
  congr 1
  exact (fixedDigits_mod base width 0 number).symm

variable {left : Nat} {right : Nat}

theorem div_mod_lt_iff {unit : Nat} (positive : 0 < unit) : (left / unit < right / unit ∨
        left / unit = right / unit ∧ left % unit < right % unit) ↔
      left < right := by
  have leftParts := Nat.div_add_mod left unit
  have rightParts := Nat.div_add_mod right unit
  have leftLow := Nat.mod_lt left positive
  have rightLow := Nat.mod_lt right positive
  generalize left / unit = leftHigh at *
  generalize right / unit = rightHigh at *
  generalize left % unit = leftRest at *
  generalize right % unit = rightRest at *
  have gap : ∀ {low high : Nat}, low < high → unit * low + unit ≤ unit * high := by
    intro low high below
    rw [← Nat.mul_succ]
    exact Nat.mul_le_mul_left _ below
  constructor
  · rintro (above | ⟨rfl, below⟩)
    · have := gap above
      omega
    · omega
  · intro below
    rcases Nat.lt_trichotomy leftHigh rightHigh with above | rfl | under
    · exact Or.inl above
    · exact Or.inr ⟨rfl, by omega⟩
    · have := gap under
      omega

/-- Below `base ^ width` digits compare as the numbers do. -/
theorem fixedDigits_lt_iff (leftFits : left < base ^ width) (rightFits : right < base ^ width) :
    fixedDigits base width left < fixedDigits base width right ↔ left < right := by
  induction width generalizing left right with
  | zero =>
    simp only [pow_zero, Nat.lt_one_iff] at leftFits rightFits
    simp [fixedDigits, leftFits, rightFits]
  | succ width ih =>
    have positive : 0 < base ^ width := by
      rcases Nat.eq_zero_or_pos (base ^ width) with zero | positive
      · rw [pow_succ, zero] at leftFits
        omega
      · exact positive
    rw [fixedDigits_succ_of_lt leftFits, fixedDigits_succ_of_lt rightFits, cons_lt_cons_iff,
      ih (Nat.mod_lt _ positive) (Nat.mod_lt _ positive)]
    exact div_mod_lt_iff positive

/-- The number some digits stand for, after `high`. -/
def digitsValue (base : Nat) : Nat → List Nat → Nat
  | high, [] => high
  | high, digit :: digits => digitsValue base (base * high + digit) digits

theorem digitsValue_fixedDigits (base width number high : Nat) :
    digitsValue base high (fixedDigits base width number) =
      base ^ width * high + number % base ^ width := by
  induction width generalizing high with
  | zero => simp [fixedDigits, digitsValue, Nat.mod_one]
  | succ width ih =>
    have low : number % base ^ (width + 1) = number % base ^ width +
          base ^ width * (number / base ^ width % base) := by
      rw [pow_succ, Nat.mod_mul]
    rw [fixedDigits, digitsValue, ih, low]
    ring

/-- The character of a digit, up to base sixteen. -/
def digitChar (digit : Nat) : Char :=
  if digit < 10 then
    Char.ofNat ('0'.toNat + digit)
  else
    Char.ofNat ('a'.toNat + (digit - 10))

theorem digitChar_lt_iff (leftFits : left < 16) (rightFits : right < 16) :
    digitChar left < digitChar right ↔ left < right := by
  have checked : ∀ first < 16, ∀ second < 16,
      (digitChar first < digitChar second ↔ first < second) := by
    decide
  exact checked left leftFits right rightFits

theorem digitChar_isDigit {digit : Nat} (fits : digit < 10) : (digitChar digit).isDigit = true := by
  have checked : ∀ tested < 10, (digitChar tested).isDigit = true := by
    decide
  exact checked digit fits

/-- Fixed-width digits as text. -/
def fixedText (base width number : Nat) : List Char :=
  (fixedDigits base width number).map digitChar

@[simp]
theorem fixedText_length (base width number : Nat) :
    (fixedText base width number).length = width := by
  simp [fixedText]

theorem map_lt_map_iff {bound : Nat} {change : Nat → Char}
    (monotone : ∀ left right, left < bound → right < bound →
      (change left < change right ↔ left < right)) :
    ∀ {left right : List Nat}, (∀ digit ∈ left, digit < bound) → (∀ digit ∈ right, digit < bound) →
      (left.map change < right.map change ↔ left < right)
  | [], [], _, _ => by simp
  | [], _ :: _, _, _ => by simp
  | _ :: _, [], _, _ => by simp
  | head :: tail, head' :: tail', leftFits, rightFits => by
      have headFits := leftFits head (mem_cons_self ..)
      have headFits' := rightFits head' (mem_cons_self ..)
      have sameHead : change head = change head' ↔ head = head' := by
        constructor
        · intro same
          have notBelow := (monotone head head' headFits headFits').not.mp
            (by rw [same]; exact lt_irrefl _)
          have notAbove := (monotone head' head headFits' headFits).not.mp
            (by rw [same]; exact lt_irrefl _)
          omega
        · rintro rfl
          rfl
      rw [map_cons, map_cons, cons_lt_cons_iff,
        cons_lt_cons_iff, monotone head head' headFits headFits',
        sameHead, map_lt_map_iff monotone
          (fun digit member => leftFits digit (mem_cons_of_mem _ member))
          (fun digit member =>
            rightFits digit (mem_cons_of_mem _ member))]

theorem fixedText_lt_iff (positive : 0 < base) (small : base ≤ 16)
    (leftFits : left < base ^ width) (rightFits : right < base ^ width) :
    fixedText base width left < fixedText base width right ↔ left < right := by
  have monotone : ∀ first second, first < base → second < base →
      (digitChar first < digitChar second ↔ first < second) :=
    fun first second firstFits secondFits =>
      digitChar_lt_iff (by omega) (by omega)
  rw [fixedText, fixedText, map_lt_map_iff monotone (fun _ member => fixedDigits_lt positive member)
      (fun _ member => fixedDigits_lt positive member),
    fixedDigits_lt_iff leftFits rightFits]

theorem append_lt_append {left right : List Char}
    (sameLength : left.length = right.length) (less : left < right)
    (rest other : List Char) : left ++ rest < right ++ other := by
  induction left generalizing right with
  | nil =>
    rw [length_nil, eq_comm, length_eq_zero_iff] at sameLength
    rw [sameLength] at less
    exact absurd less (lt_irrefl _)
  | cons head tail ih =>
    cases right with
    | nil => cases sameLength
    | cons head' tail' =>
      rw [cons_append, cons_append]
      rcases cons_lt_cons_iff.mp less with below | ⟨same, later⟩
      · exact cons_lt_cons_iff.mpr (Or.inl below)
      · exact cons_lt_cons_iff.mpr (Or.inr ⟨same, ih (Nat.succ.inj sameLength) later⟩)

end Lib
