import Mathlib.Data.List.Sort
import Worklane.Lib.Select

/-!
# The order in which a scan picks its elements

`bestIndex` picks the first eligible element that no eligible element beats.
Picking again and again, each time from the elements that are left, goes
through the eligible elements in one fixed order: by rank, and among equals by
place.  Elements are kept with their places here, so that equal elements stay
apart.
-/

namespace Lib

open List

variable {α : Type}

/-- By rank, and among equals by place. -/
def outplaces (better : α → α → Bool) (left right : α × Nat) : Bool :=
  better left.1 right.1 || (!better right.1 left.1 && decide (left.2 < right.2))

/-- `order` lists the eligible elements of `placed`, the best first. -/
structure RankOrder (eligible : α → Bool) (better : α → α → Bool)
    (placed order : List (α × Nat)) : Prop where
  perm : order.Perm (placed.filter fun item => eligible item.1)
  sorted : order.Pairwise fun left right => outplaces better left right

section Order

variable {eligible : α → Bool} {better : α → α → Bool}

theorem outplaces_ranking (ranking : Ranking better) : Ranking (outplaces better) where
  asymm := by
    intro left right above
    simp only [outplaces, Bool.or_eq_true, Bool.and_eq_true,
      Bool.not_eq_true', decide_eq_true_eq] at above
    simp only [outplaces, Bool.or_eq_false_iff, Bool.and_eq_false_iff,
      Bool.not_eq_false', decide_eq_false_iff_not]
    rcases above with beats | ⟨equal, earlier⟩
    · exact ⟨ranking.asymm _ _ beats, Or.inl beats⟩
    · exact ⟨equal, Or.inr (by omega)⟩
  negTrans := by
    intro left middle right first second
    simp only [outplaces, Bool.or_eq_false_iff, Bool.and_eq_false_iff,
      Bool.not_eq_false', decide_eq_false_iff_not] at first second ⊢
    refine ⟨ranking.negTrans _ _ _ first.1 second.1, ?_⟩
    rcases first.2 with beaten | late
    · -- `middle` beats `left`, and `right` is not worse than `middle`.
      exact Or.inl (by
        by_contra notAbove
        have below : better right.1 left.1 = false := by
          simpa using notAbove
        have crossed := ranking.negTrans _ _ _ second.1 below
        rw [beaten] at crossed
        cases crossed)
    · rcases second.2 with beaten | later
      · exact Or.inl (by
          by_contra notAbove
          have below : better right.1 left.1 = false := by
            simpa using notAbove
          have crossed := ranking.negTrans _ _ _ below first.1
          rw [beaten] at crossed
          cases crossed)
      · exact Or.inr (by omega)

theorem outplaces_total {left right : α × Nat} (apart : left.2 ≠ right.2) :
    outplaces better left right = true ∨ outplaces better right left = true := by
  simp only [outplaces, Bool.or_eq_true, Bool.and_eq_true, Bool.not_eq_true', decide_eq_true_eq]
  by_cases above : better left.1 right.1 = true
  · exact Or.inl (Or.inl above)
  · by_cases below : better right.1 left.1 = true
    · exact Or.inr (Or.inl below)
    · rcases Nat.lt_or_gt_of_ne apart with less | greater
      · exact Or.inl (Or.inr ⟨by simpa using below, less⟩)
      · exact Or.inr (Or.inr ⟨by simpa using above, greater⟩)

theorem RankOrder.empty {placed order : List (α × Nat)}
    (ranks : RankOrder eligible better placed order)
    (hidden : ∀ item ∈ placed, eligible item.1 = false) : order = [] := by
  have none : placed.filter (fun item => eligible item.1) = [] :=
    filter_eq_nil_iff.mpr fun item member => by
      rw [hidden item member]
      exact Bool.false_ne_true
  have perm := ranks.perm
  rw [none] at perm
  exact perm.eq_nil

/-- The element a scan picks is the first in the order, and the order of what
is left is the rest. -/
theorem RankOrder.pick (ranking : Ranking better)
    {before after order : List (α × Nat)} {chosen : α × Nat}
    (ranks : RankOrder eligible better (before ++ chosen :: after) order)
    (visible : eligible chosen.1 = true)
    (earlier : ∀ item ∈ before, eligible item.1 = true → better chosen.1 item.1 = true)
    (later : ∀ item ∈ after, eligible item.1 = true → better item.1 chosen.1 = false)
    (places : ∀ item ∈ after, chosen.2 < item.2) :
    ∃ rest, order = chosen :: rest ∧ RankOrder eligible better (before ++ after) rest := by
  have member : chosen ∈ order := by
    refine ranks.perm.mem_iff.mpr (mem_filter.mpr ⟨?_, visible⟩)
    simp
  obtain ⟨head, rest, rfl⟩ := exists_cons_of_ne_nil (ne_nil_of_mem member)
  -- Nothing else can come first: the chosen element precedes it.
  have first : head = chosen := by
    rcases mem_cons.mp member with same | inRest
    · exact same.symm
    · have above : outplaces better head chosen = true := rel_of_pairwise_cons ranks.sorted inRest
      have below := (outplaces_ranking ranking).asymm _ _ above
      obtain ⟨inside, counted⟩ := mem_filter.mp (ranks.perm.mem_iff.mp (mem_cons_self ..))
      rcases mem_append.mp inside with early | late
      · have beats := earlier head early counted
        simp [outplaces, beats] at below
      · rcases mem_cons.mp late with same | after
        · exact same
        · have loses := later head after counted
          have place := places head after
          simp [outplaces, loses, place] at below
  subst first
  refine ⟨rest, rfl, ?_, (pairwise_cons.mp ranks.sorted).2⟩
  have perm := ranks.perm
  rw [filter_append, filter_cons_of_pos (by exact visible)] at perm
  rw [filter_append]
  exact (perm.trans perm_middle).cons_inv

/-! ## The order as a list -/

/-- The eligible elements, the best first. -/
def ranked (eligible : α → Bool) (better : α → α → Bool)
    (placed : List (α × Nat)) : List (α × Nat) :=
  (placed.filter fun item => eligible item.1).insertionSort
    fun left right => outplaces better right left = false

theorem ranked_rankOrder (ranking : Ranking better) {placed : List (α × Nat)}
    (places : placed.Pairwise fun left right => left.2 < right.2) :
    RankOrder eligible better placed (ranked eligible better placed) := by
  have order := outplaces_ranking ranking
  have total : Std.Total fun left right : α × Nat =>
    outplaces better right left = false := by
    refine ⟨fun left right => ?_⟩
    by_cases above : outplaces better right left = true
    · exact Or.inr (order.asymm _ _ above)
    · exact Or.inl (by simpa using above)
  have transitive : IsTrans (α × Nat) fun left right =>
    outplaces better right left = false :=
    ⟨fun left middle right first second =>
      order.negTrans right middle left second first⟩
  refine ⟨perm_insertionSort _ _, ?_⟩
  have sorted := pairwise_insertionSort (fun left right : α × Nat =>
    outplaces better right left = false)
    (placed.filter fun item => eligible item.1)
  have distinct : (ranked eligible better placed).Pairwise fun left right => left.2 ≠ right.2 := by
    refine ((perm_insertionSort _ _).pairwise_iff fun apart =>
      apart.symm).mpr ?_
    exact (places.imp Nat.ne_of_lt).filter _
  refine (sorted.and distinct).imp ?_
  rintro left right ⟨notAbove, apart⟩
  rcases outplaces_total apart with above | below
  · exact above
  · rw [below] at notAbove
    cases notAbove

end Order

end Lib
