import Mathlib.Data.List.Infix
import Mathlib.Data.List.Basic

/-!
# Lists cut at a separator

A list is known by its segments, the parts between the separators, so two
joined lists are compared segment by segment.
-/

namespace Lib

open List

variable {α : Type} [BEq α] [LawfulBEq α]

/-- The parts of a list between the separators. -/
def segments (separator : α) (list : List α) : List (List α) :=
  list.splitOn separator

/-- The parts with separators between them. -/
def joined (separator : α) (parts : List (List α)) : List α :=
  [separator].intercalate parts

variable {separator : α}

omit [LawfulBEq α] in
theorem segments_ne_nil (list : List α) : segments separator list ≠ [] :=
  splitOn_ne_nil separator list

theorem segments_append_cons (front back : List α) :
    segments separator (front ++ separator :: back) =
      segments separator front ++ segments separator back :=
  splitOn_append_cons_self front back

theorem segments_of_not_mem {list : List α} (absent : separator ∉ list) :
    segments separator list = [list] :=
  splitOn_eq_singleton absent

theorem joined_segments (list : List α) : joined separator (segments separator list) = list :=
  intercalate_splitOn separator

theorem segments_injective : Function.Injective (segments (α := α) separator) :=
  Function.LeftInverse.injective joined_segments

omit [BEq α] [LawfulBEq α] in
theorem joined_singleton (part : List α) : joined separator [part] = part :=
  intercalate_singleton

omit [BEq α] [LawfulBEq α] in
theorem joined_cons {first : List α} {rest : List (List α)}
    (more : rest ≠ []) : joined separator (first :: rest) =
      first ++ separator :: joined separator rest := by
  rw [joined, intercalate_cons_of_ne_nil more, append_assoc]
  rfl

omit [BEq α] [LawfulBEq α] in
theorem joined_append {front back : List (List α)} (left : front ≠ [])
    (right : back ≠ []) : joined separator (front ++ back) =
      joined separator front ++ separator :: joined separator back := by
  induction front with
  | nil => exact absurd rfl left
  | cons first rest ih =>
    by_cases last : rest = []
    · subst last
      rw [singleton_append, joined_cons right, joined_singleton]
    · have more : rest ++ back ≠ [] := append_ne_nil_of_left_ne_nil last back
      rw [cons_append, joined_cons more, joined_cons last, ih last, append_assoc, cons_append]

/-- The segments of a join are the segments of its parts. -/
theorem segments_joined {parts : List (List α)} (some : parts ≠ []) :
    segments separator (joined separator parts) = parts.flatMap (segments separator) := by
  induction parts with
  | nil => exact absurd rfl some
  | cons first rest ih =>
    by_cases last : rest = []
    · subst last
      rw [joined_singleton, flatMap_singleton]
    · rw [joined_cons last, segments_append_cons, ih last, flatMap_cons]

theorem eq_append_of_segments {list front : List α} {later : List (List α)} (some : later ≠ [])
    (split : segments separator list = segments separator front ++ later) :
    ∃ back, list = front ++ separator :: back ∧ segments separator back = later := by
  have whole : list = front ++ separator :: joined separator later := by
    rw [← @joined_segments _ _ _ separator list, split,
      joined_append (segments_ne_nil front) some, joined_segments]
  refine ⟨joined separator later, whole, ?_⟩
  rw [whole, segments_append_cons] at split
  exact append_cancel_left split

end Lib
