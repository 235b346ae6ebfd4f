import Mathlib.Data.List.Induction
import Mathlib.Data.List.TakeWhile
import Mathlib.Tactic.Common

/-!
# Texts read word by word

Separators end a word.  A rewriting of words is applied to every word of a text
and leaves the separators where they are.
-/

namespace Lib.Words

open List

universe u

variable {α : Type u} (sep : α → Bool)

/-- Every word is rewritten; `word` is what was read of the current one. -/
def each (rewrite : List α → List α) : List α → List α → List α
  | word, [] => rewrite word
  | word, item :: rest =>
    if sep item then
      rewrite word ++ item :: each rewrite [] rest
    else
      each rewrite (word ++ [item]) rest

/-- A text without separators. -/
def Solid (text : List α) : Prop := ∀ item ∈ text, sep item = false

/-- A text after which a word can begin. -/
def Ended (text : List α) : Prop :=
  text = [] ∨ ∃ start item, text = start ++ [item] ∧ sep item = true

/-- A text at which a word has ended. -/
def Opened (text : List α) : Prop :=
  text = [] ∨ ∃ item rest, text = item :: rest ∧ sep item = true

variable {sep} {rewrite first second : List α → List α}
variable {word text front back clean : List α}

theorem solid_of_all {text : List α} (plain : text.all (!sep ·) = true) : Solid sep text := by
  simpa [Solid] using plain

theorem Solid.nil : Solid sep ([] : List α) := fun _ inside => absurd inside not_mem_nil

theorem Solid.append (left : Solid sep front) (right : Solid sep back) :
    Solid sep (front ++ back) := by
  intro item inside
  rcases mem_append.mp inside with early | late
  · exact left item early
  · exact right item late

theorem Solid.concat {item : α} (solid : Solid sep word) (inner : ¬ sep item = true) :
    Solid sep (word ++ [item]) := by
  refine solid.append fun other inside => ?_
  rw [mem_singleton.mp inside]
  exact Bool.eq_false_iff.mpr inner

/-! ## Cutting a text -/

theorem each_solid_append (solid : Solid sep clean) (rest : List α) :
    each sep rewrite word (clean ++ rest) = each sep rewrite (word ++ clean) rest := by
  induction clean generalizing word with
  | nil => rw [nil_append, append_nil]
  | cons item tail ih =>
    have inner : ¬ sep item = true := by
      rw [solid item (mem_cons_self ..)]
      exact Bool.false_ne_true
    rw [cons_append, each, if_neg inner,
      ih fun other inside => solid other (mem_cons_of_mem _ inside),
      append_assoc]
    rfl

theorem each_append_sep {item : α} (ends : sep item = true) (front back : List α) :
    each sep rewrite word (front ++ item :: back) =
      each sep rewrite word front ++ item :: each sep rewrite [] back := by
  induction front generalizing word with
  | nil => simp only [nil_append, each, if_pos ends]
  | cons head tail ih =>
    rw [cons_append, each, each]
    by_cases outer : sep head = true
    · rw [if_pos outer, if_pos outer, ih, append_assoc, cons_append]
    · rw [if_neg outer, if_neg outer, ih]

/-- A word between others is rewritten on its own. -/
theorem each_word (empty : rewrite [] = []) (ended : Ended sep front) (solid : Solid sep word)
    (opened : Opened sep back) :
    each sep rewrite [] (front ++ word ++ back) =
      each sep rewrite [] front ++ rewrite word ++ each sep rewrite [] back := by
  have behind : each sep rewrite [] (word ++ back) = rewrite word ++ each sep rewrite [] back := by
    rw [each_solid_append solid, nil_append]
    rcases opened with rfl | ⟨item, rest, rfl, ends⟩
    · rw [each, each, empty, append_nil]
    · rw [each, if_pos ends, each, if_pos ends, empty, nil_append]
  rcases ended with rfl | ⟨start, item, rfl, ends⟩
  · rw [nil_append, behind, each, empty, nil_append]
  · have last : each sep rewrite [] (start ++ [item]) = each sep rewrite [] start ++ [item] := by
      rw [each_append_sep ends, each, empty]
    rw [last, append_assoc, append_assoc, singleton_append, each_append_sep ends,
      behind, append_assoc, append_assoc, singleton_append]

theorem exists_last_word (text : List α) :
    ∃ front word, text = front ++ word ∧ Ended sep front ∧ Solid sep word := by
  induction text using List.reverseRecOn with
  | nil => exact ⟨[], [], rfl, Or.inl rfl, Solid.nil⟩
  | append_singleton start item ih =>
    by_cases ends : sep item = true
    · exact ⟨start ++ [item], [], (append_nil _).symm, Or.inr ⟨start, item, rfl, ends⟩, Solid.nil⟩
    · obtain ⟨front, word, rfl, ended, solid⟩ := ih
      exact ⟨front, word ++ [item], append_assoc .., ended, solid.concat ends⟩

theorem takeWhile_solid (text : List α) : Solid sep (text.takeWhile fun item => !sep item) := by
  intro item inside
  simpa using mem_takeWhile_imp inside

theorem dropWhile_opened (text : List α) : Opened sep (text.dropWhile fun item => !sep item) := by
  cases rest : text.dropWhile fun item => !sep item with
  | nil => exact Or.inl rfl
  | cons item tail =>
    have stopped := head_dropWhile_not (fun item => !sep item) (by rw [rest]; simp)
    simp only [rest, head_cons] at stopped
    exact Or.inr ⟨item, tail, rfl, by simpa using stopped⟩

theorem takeWhile_append {rest : List α} (solid : Solid sep word) (opened : Opened sep rest) :
    (word ++ rest).takeWhile (fun item => !sep item) = word := by
  rw [takeWhile_append_of_pos fun item inside => by rw [solid item inside]; rfl]
  rcases opened with rfl | ⟨item, tail, rfl, ends⟩
  · simp
  · rw [takeWhile_cons_of_neg (by simp [ends]), append_nil]

theorem solid_append_inj {left right rest more : List α} (leftSolid : Solid sep left)
    (rightSolid : Solid sep right) (opened : Opened sep rest) (opened' : Opened sep more)
    (same : left ++ rest = right ++ more) : left = right ∧ rest = more := by
  have words := congrArg (List.takeWhile fun item => !sep item) same
  rw [takeWhile_append leftSolid opened, takeWhile_append rightSolid opened'] at words
  exact ⟨words, append_cancel_left (words ▸ same)⟩

theorem Opened.cons {item : α} (ends : sep item = true) (rest : List α) :
    Opened sep (item :: rest) :=
  Or.inr ⟨item, rest, rfl, ends⟩

end Lib.Words
