import Mathlib

/-!
# Texts addressed by bytes

A text is a list of characters, and an offset into it counts the bytes of its
UTF-8 form.  The searches return offsets; a text can be cut at an offset only
where a character begins.
-/

namespace Lib.Utf8

open List

variable {text front back needle : List Char}

def size (text : List Char) : Nat := (text.map Char.utf8Size).sum

@[simp]
theorem size_nil : size [] = 0 := rfl

@[simp]
theorem size_cons (char : Char) (rest : List Char) :
    size (char :: rest) = char.utf8Size + size rest :=
  sum_cons

@[simp]
theorem size_append : size (front ++ back) = size front + size back := by
  simp [size]

/-- The two parts of a text at an offset between characters. -/
def splitAt : Nat → List Char → Option (List Char × List Char)
  | 0, text => some ([], text)
  | _ + 1, [] => none
  | offset + 1, char :: rest =>
    if char.utf8Size ≤ offset + 1 then
      (splitAt (offset + 1 - char.utf8Size) rest).map fun parts => (char :: parts.1, parts.2)
    else
      none

@[simp]
theorem splitAt_size (front back : List Char) :
    splitAt (size front) (front ++ back) = some (front, back) := by
  induction front with
  | nil => cases back <;> rfl
  | cons char rest ih =>
    obtain ⟨offset, next⟩ : ∃ offset, size (char :: rest) = offset + 1 :=
      Nat.exists_eq_succ_of_ne_zero (Nat.ne_of_gt (Nat.add_pos_left char.utf8Size_pos _))
    have left : offset + 1 - char.utf8Size = size rest := by
      rw [← next, size_cons, Nat.add_sub_cancel_left]
    have fits : char.utf8Size ≤ offset + 1 := by
      rw [← next, size_cons]
      exact Nat.le_add_right _ _
    rw [next, cons_append, splitAt, if_pos fits, left, ih]
    rfl

/-! ## Searches -/

/-- A text cut around the first occurrence of another. -/
def cut (needle : List Char) : List Char → Option (List Char × List Char)
  | [] => if needle = [] then some ([], []) else none
  | char :: rest =>
    if needle <+: char :: rest then
      some ([], (char :: rest).drop needle.length)
    else
      (cut needle rest).map fun parts => (char :: parts.1, parts.2)

theorem cut_eq_none (missing : cut needle text = none) : ¬ needle <:+: text := by
  induction text with
  | nil =>
    intro inside
    rw [cut, if_pos (infix_nil.mp inside)] at missing
    cases missing
  | cons char rest ih =>
    rw [cut] at missing
    by_cases here : needle <+: char :: rest
    · rw [if_pos here] at missing
      cases missing
    · rw [if_neg here, Option.map_eq_none_iff] at missing
      intro inside
      rcases infix_cons_iff.mp inside with start | later
      · exact here start
      · exact ih missing later

/-- Nothing shorter than `front` stands before an occurrence. -/
def FirstAt (needle front text : List Char) : Prop :=
  ∀ earlier rest, text = earlier ++ needle ++ rest → front.length ≤ earlier.length

theorem cut_eq_some (found : cut needle text = some (front, back)) :
    text = front ++ needle ++ back ∧ FirstAt needle front text := by
  induction text generalizing front with
  | nil =>
    rw [cut] at found
    by_cases empty : needle = []
    · rw [if_pos empty] at found
      cases found
      exact ⟨by rw [empty]; rfl, fun _ _ _ => Nat.zero_le _⟩
    · rw [if_neg empty] at found
      cases found
  | cons char rest ih =>
    rw [cut] at found
    by_cases here : needle <+: char :: rest
    · rw [if_pos here] at found
      cases found
      exact ⟨(prefix_iff_eq_append.mp here).symm, fun _ _ _ => Nat.zero_le _⟩
    · rw [if_neg here, Option.map_eq_some_iff] at found
      obtain ⟨⟨inner, tail⟩, found, shape⟩ := found
      cases shape
      obtain ⟨shape, first⟩ := ih found
      refine ⟨by rw [shape]; rfl, ?_⟩
      intro earlier after split
      cases earlier with
      | nil => exact absurd ⟨after, split.symm⟩ here
      | cons head tail =>
        simp only [cons_append, List.cons.injEq] at split
        exact Nat.succ_le_succ (first tail after split.2)

theorem cut_of_firstAt (first : FirstAt needle front (front ++ needle ++ back)) :
    cut needle (front ++ needle ++ back) = some (front, back) := by
  cases found : cut needle (front ++ needle ++ back) with
  | none => exact absurd ⟨front, back, rfl⟩ (cut_eq_none found)
  | some parts =>
    obtain ⟨other, rest⟩ := parts
    obtain ⟨shape, least⟩ := cut_eq_some found
    have length : front.length = other.length :=
      Nat.le_antisymm (first other rest shape) (least front back rfl)
    rw [append_assoc, append_assoc] at shape
    obtain ⟨rfl, tail⟩ := append_inj shape length
    rw [append_cancel_left tail]

/-- The offset of the first occurrence. -/
def find (needle : List Char) : List Char → Option Nat
  | [] => if needle = [] then some 0 else none
  | char :: rest =>
    if needle <+: char :: rest then some 0 else (find needle rest).map (· + char.utf8Size)

theorem find_eq (needle text : List Char) :
    find needle text = (cut needle text).map fun parts => size parts.1 := by
  induction text with
  | nil =>
    rw [find, cut]
    split <;> rfl
  | cons char rest ih =>
    rw [find, cut]
    split
    · rfl
    · rw [ih, Option.map_map, Option.map_map]
      simp only [Function.comp_def, size_cons, Nat.add_comm]

variable (test : Char → Bool)

/-- The first character that passes a test. -/
def findChar : List Char → Option Nat
  | [] => none
  | char :: rest => if test char then some 0 else (findChar rest).map (· + char.utf8Size)

theorem findChar_getD (text : List Char) :
    (findChar test text).getD (size text) = size (text.takeWhile fun char => !test char) := by
  induction text with
  | nil => rfl
  | cons char rest ih =>
    rw [findChar]
    by_cases passes : test char = true
    · simp [passes]
    · rw [if_neg passes, takeWhile_cons_of_pos (by simp [passes]), size_cons, size_cons, ← ih]
      cases findChar test rest with
      | none => rfl
      | some offset => exact Nat.add_comm _ _

/-- A text cut around the last occurrence of a character. -/
def cutLast (target : Char) : List Char → Option (List Char × List Char)
  | [] => none
  | char :: rest =>
    match cutLast target rest with
    | some parts => some (char :: parts.1, parts.2)
    | none => if char = target then some ([], rest) else none

/-- The offset of the last occurrence. -/
def rfindChar (target : Char) : List Char → Option Nat
  | [] => none
  | char :: rest =>
    match rfindChar target rest with
    | some offset => some (offset + char.utf8Size)
    | none => if char = target then some 0 else none

variable {target : Char}

theorem rfindChar_eq (target : Char) (text : List Char) :
    rfindChar target text = (cutLast target text).map fun parts => size parts.1 := by
  induction text with
  | nil => rfl
  | cons char rest ih =>
    rw [rfindChar, cutLast, ih]
    cases cutLast target rest with
    | some parts => simp [Nat.add_comm]
    | none =>
      simp only [Option.map_none]
      split <;> rfl

theorem cutLast_eq_none (absent : target ∉ text) : cutLast target text = none := by
  induction text with
  | nil => rfl
  | cons char rest ih =>
    rw [mem_cons, not_or] at absent
    rw [cutLast, ih absent.2]
    exact if_neg (Ne.symm absent.1)

theorem cutLast_append (absent : target ∉ back) :
    cutLast target (front ++ target :: back) = some (front, back) := by
  induction front with
  | nil =>
    rw [nil_append, cutLast, cutLast_eq_none absent]
    exact if_pos rfl
  | cons char rest ih =>
    rw [cons_append, cutLast, ih]

theorem exists_cutLast (present : target ∈ text) :
    ∃ front back, text = front ++ target :: back ∧ target ∉ back := by
  induction text with
  | nil => cases present
  | cons char rest ih =>
    by_cases later : target ∈ rest
    · obtain ⟨front, back, shape, absent⟩ := ih later
      exact ⟨char :: front, back, by rw [shape]; rfl, absent⟩
    · rcases mem_cons.mp present with rfl | inside
      · exact ⟨[], rest, rfl, later⟩
      · exact absurd inside later

end Lib.Utf8
