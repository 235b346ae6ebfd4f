import Mathlib.Data.List.Forall2
import Mathlib.Tactic.Common

/-!
# Positions, splits and the first best element

Scans return positions, proofs want splits: the lemmas here turn the one into
the other.  `bestIndex` is the usual one-pass scan that remembers the best
eligible element so far and replaces it only by a strictly better one.
-/

namespace Lib

open List

universe u v

variable {α : Type u} {β : Type v}

/-! ## Positions as splits -/

theorem exists_split_of_findIdx? {found : α → Bool} {items : List α} {index : Nat}
    (located : items.findIdx? found = some index) :
    ∃ before item after, items = before ++ item :: after ∧ before.length = index ∧
        found item = true ∧ ∀ other ∈ before, found other = false := by
  induction items generalizing index with
  | nil => simp at located
  | cons head tail ih =>
    rw [findIdx?_cons] at located
    by_cases hit : found head = true
    · simp only [hit, if_true, Option.some.injEq] at located
      exact ⟨[], head, tail, rfl, by simpa using located, hit, by simp⟩
    · have miss : found head = false := by simpa using hit
      simp only [miss, Bool.false_eq_true, if_false, Option.map_eq_some_iff] at located
      obtain ⟨position, tailLocated, rfl⟩ := located
      obtain ⟨before, item, after, split, length, hitItem, missed⟩ := ih tailLocated
      refine ⟨head :: before, item, after, by simp [split], by simp [length], hitItem, ?_⟩
      intro other member
      rcases mem_cons.mp member with rfl | earlier
      · exact miss
      · exact missed other earlier

@[simp]
theorem findIdx?_split {found : α → Bool} {before after : List α} {item : α}
    (missed : ∀ other ∈ before, found other = false)
    (hit : found item = true) :
    (before ++ item :: after).findIdx? found = some before.length := by
  induction before with
  | nil => simp [findIdx?_cons, hit]
  | cons first rest ih =>
    rw [cons_append, findIdx?_cons, missed first (mem_cons_self ..), ih
        fun other member => missed other (mem_cons_of_mem _ member)]
    rfl

theorem eraseIdx_split (before after : List α) (item : α) :
    (before ++ item :: after).eraseIdx before.length = before ++ after := by
  induction before with
  | nil => rfl
  | cons head tail ih =>
    simpa using ih

@[simp]
theorem modify_split (before after : List α) (item : α) (change : α → α) :
    (before ++ item :: after).modify before.length change = before ++ change item :: after := by
  induction before with
  | nil => rfl
  | cons head tail ih =>
    simpa using ih

@[simp]
theorem getElem?_split (before after : List α) (item : α) :
    (before ++ item :: after)[before.length]? = some item := by
  simp

theorem getElem?_split_of_ne {before after : List α} {index : Nat}
    (elsewhere : before.length ≠ index) (item other : α) :
    (before ++ item :: after)[index]? = (before ++ other :: after)[index]? := by
  rcases Nat.lt_or_ge index before.length with early | late
  · rw [getElem?_append_left early, getElem?_append_left early]
  · have later : index - before.length = (index - before.length - 1) + 1 := by
      omega
    rw [getElem?_append_right late, getElem?_append_right late,
      later, getElem?_cons_succ, getElem?_cons_succ]

theorem find?_split {test : α → Bool} {before after : List α} {item : α}
    (missed : ∀ other ∈ before, test other = false)
    (hit : test item = true) :
    (before ++ item :: after).find? test = some item := by
  rw [find?_append, find?_cons_of_pos hit,
    find?_eq_none.mpr fun other member => by simp [missed other member]]
  rfl

/-! ## Aligned lists -/

variable {γ : Type*} {related : α → β → Prop} {items : List α} {items' : List β}

theorem map_eq_of_aligned {left : α → γ} {right : β → γ}
    (aligned : List.Forall₂ related items items')
    (same : ∀ item item', related item item' → left item = right item') :
    items.map left = items'.map right := by
  induction aligned with
  | nil => rfl
  | cons matched _ ih =>
    rw [map_cons, map_cons, same _ _ matched, ih]

theorem exists_left_of_mem (aligned : List.Forall₂ related items items') {item' : β}
    (member : item' ∈ items') :
    ∃ item ∈ items, related item item' := by
  induction aligned with
  | nil => cases member
  | @cons item _ _ _ matched _ ih =>
    rcases mem_cons.mp member with rfl | later
    · exact ⟨item, mem_cons_self .., matched⟩
    · obtain ⟨found, inside, related⟩ := ih later
      exact ⟨found, mem_cons_of_mem _ inside, related⟩

theorem aligned_with_mem (aligned : List.Forall₂ related items items') :
    List.Forall₂ (fun item item' => item ∈ items ∧ related item item') items items' := by
  induction aligned with
  | nil => exact .nil
  | cons matched _ ih =>
    refine .cons ⟨mem_cons_self .., matched⟩ ?_
    exact ih.imp fun _ _ ⟨member, related⟩ =>
      ⟨mem_cons_of_mem _ member, related⟩

variable {item : α}

theorem exists_right_of_mem (aligned : List.Forall₂ related items items') (member : item ∈ items) :
    ∃ item' ∈ items', related item item' := by
  induction aligned with
  | nil => cases member
  | @cons _ item' _ _ matched _ ih =>
    rcases mem_cons.mp member with rfl | later
    · exact ⟨item', mem_cons_self .., matched⟩
    · obtain ⟨found, inside, related⟩ := ih later
      exact ⟨found, mem_cons_of_mem _ inside, related⟩

theorem aligned_imp_of_mem {related' : α → β → Prop} (aligned : List.Forall₂ related items items')
    (implied : ∀ item ∈ items, ∀ item' ∈ items', related item item' → related' item item') :
    List.Forall₂ related' items items' := by
  induction aligned with
  | nil => exact .nil
  | cons matched _ ih =>
    refine .cons (implied _ (mem_cons_self ..) _ (mem_cons_self ..) matched) (ih ?_)
    intro item member item' member' rest
    exact implied item (mem_cons_of_mem _ member) item' (mem_cons_of_mem _ member') rest

theorem aligned_through {first : α → β → Prop}
    {second : α → γ → Prop} {both : β → γ → Prop} {left : List β} {right : List γ}
    (alignedLeft : List.Forall₂ first items left)
    (alignedRight : List.Forall₂ second items right)
    (joined : ∀ item left right, first item left → second item right → both left right) :
    List.Forall₂ both left right := by
  induction alignedLeft generalizing right with
  | nil =>
    cases alignedRight
    exact .nil
  | cons matched _ ih =>
    cases alignedRight with
    | cons matched' rest =>
      exact .cons (joined _ _ _ matched matched') (ih rest)

variable {test : α → Bool} {test' : β → Bool}

theorem any_eq_of_aligned (aligned : List.Forall₂ related items items')
    (same : ∀ item item', related item item' → test item = test' item') :
    items.any test = items'.any test' := by
  induction aligned with
  | nil => rfl
  | cons matched _ ih =>
    rw [any_cons, any_cons, same _ _ matched, ih]

theorem filter_of_aligned (aligned : List.Forall₂ related items items')
    (same : ∀ item item', related item item' → test item = test' item') :
    List.Forall₂ related (items.filter test) (items'.filter test') := by
  apply rel_filter _ aligned
  intro item item' matched
  exact Bool.eq_iff_iff.mp (same item item' matched)

variable {before : List α} {after : List α}

theorem aligned_split (aligned : List.Forall₂ related (before ++ item :: after) items') :
    ∃ before' item' after', items' = before' ++ item' :: after' ∧
      List.Forall₂ related before before' ∧ related item item' ∧
      List.Forall₂ related after after' := by
  induction before generalizing items' with
  | nil =>
    cases aligned with
    | cons matched rest => exact ⟨[], _, _, rfl, .nil, matched, rest⟩
  | cons first before ih =>
    cases aligned with
    | cons matched rest =>
      obtain ⟨before', item', after', split, early, here, late⟩ := ih rest
      exact ⟨_ :: before', item', after', by rw [split]; rfl, .cons matched early, here, late⟩

theorem aligned_join {before' after' : List β} {item' : β}
    (early : List.Forall₂ related before before')
    (here : related item item')
    (late : List.Forall₂ related after after') :
    List.Forall₂ related (before ++ item :: after) (before' ++ item' :: after') :=
  rel_append early (.cons here late)

/-- The part of a list whose images are those of a sublist is the sublist,
when no image occurs twice. -/
theorem filter_mem_map_of_sublist [DecidableEq β] {image : α → β}
    {part : List α} (sublist : part.Sublist items)
    (distinct : (items.map image).Nodup) :
    items.filter (fun item => image item ∈ part.map image) = part := by
  induction sublist with
  | slnil => rfl
  | @cons part items item sublist ih =>
    obtain ⟨fresh, later⟩ := nodup_cons.mp distinct
    have outside : image item ∉ part.map image :=
      fun inside => fresh ((sublist.map image).subset inside)
    rw [filter_cons_of_neg (by simpa using outside)]
    exact ih later
  | @cons_cons part items item sublist ih =>
    obtain ⟨fresh, later⟩ := nodup_cons.mp distinct
    rw [filter_cons_of_pos (by simp)]
    refine congrArg (item :: ·) ?_
    refine Eq.trans (filter_congr ?_) (ih later)
    intro other member
    have different : image other ≠ image item := fun same =>
      fresh (same ▸ mem_map_of_mem member)
    simp [different]

theorem mapM_aligned {traverse : α → Except γ β}
    (succeeds : ∀ item ∈ items, ∃ value, traverse item = .ok value ∧ related item value) :
    ∃ values, items.mapM traverse = .ok values ∧
      List.Forall₂ related items values := by
  induction items with
  | nil => exact ⟨[], rfl, List.Forall₂.nil⟩
  | cons item rest ih =>
    obtain ⟨value, first, held⟩ := succeeds item (mem_cons_self ..)
    obtain ⟨values, later, aligned⟩ := ih
      fun other member => succeeds other (mem_cons_of_mem _ member)
    refine ⟨value :: values, ?_, List.Forall₂.cons held aligned⟩
    rw [mapM_cons, first, later]
    rfl

theorem of_mapM_cons {traverse : α → Except γ β} {rest : List α} {values : List β}
    (succeeds : (item :: rest).mapM traverse = .ok values) :
    ∃ value others, traverse item = .ok value ∧
      rest.mapM traverse = .ok others ∧ values = value :: others := by
  rw [mapM_cons] at succeeds
  cases first : traverse item with
  | error failure =>
    rw [first] at succeeds
    cases succeeds
  | ok value =>
    cases later : rest.mapM traverse with
    | error failure =>
      rw [first, later] at succeeds
      cases succeeds
    | ok others =>
      rw [first, later] at succeeds
      cases succeeds
      exact ⟨value, others, rfl, rfl, rfl⟩

theorem filterMap_aligned {select : α → Option β}
    (succeeds : ∀ item ∈ items, ∃ value, select item = some value ∧ related item value) :
    List.Forall₂ related items (items.filterMap select) := by
  induction items with
  | nil => exact List.Forall₂.nil
  | cons item rest ih =>
    obtain ⟨value, selected, held⟩ := succeeds item (mem_cons_self ..)
    rw [filterMap_cons_some selected]
    exact List.Forall₂.cons held (ih fun other member => succeeds other (mem_cons_of_mem _ member))

theorem filterMap_sublist_of_aligned {left : α → Option γ} {right : β → Option γ}
    (aligned : List.Forall₂ related items items')
    (kept : ∀ item item', related item item' → right item' = left item ∨ right item' = none) :
    (items'.filterMap right).Sublist (items.filterMap left) := by
  induction aligned with
  | nil => exact List.Sublist.refl _
  | @cons item item' _ _ matched _ ih =>
    rcases kept item item' matched with same | gone
    · cases value : left item with
      | none =>
        rw [filterMap_cons_none (same.trans value), filterMap_cons_none value]
        exact ih
      | some found =>
        rw [filterMap_cons_some (same.trans value), filterMap_cons_some value]
        exact ih.cons_cons found
    · rw [filterMap_cons_none gone]
      refine ih.trans ?_
      exact (sublist_cons_self ..).filterMap left

/-! ## Tables with distinct keys -/

variable {key : α → β}

theorem key_ne_of_split (distinct : ((before ++ item :: after).map key).Nodup) :
    ∀ row, row ∈ before ∨ row ∈ after → key row ≠ key item := by
  intro row side equal
  simp only [map_append, map_cons, nodup_append, nodup_cons, mem_map, mem_cons] at distinct
  rcases side with early | late
  · exact distinct.2.2 (key row) ⟨row, early, rfl⟩ (key item) (Or.inl rfl) equal
  · exact distinct.2.1.1 ⟨row, late, equal⟩

theorem find?_key_iff {key : α → β} [DecidableEq β] {items : List α}
    (distinct : (items.map key).Nodup) {item : α} {name : β} :
    items.find? (fun row => decide (key row = name)) = some item ↔
      item ∈ items ∧ key item = name := by
  constructor
  · intro found
    exact ⟨mem_of_find?_eq_some found, by simpa using find?_some found⟩
  · rintro ⟨member, rfl⟩
    obtain ⟨before, after, rfl⟩ := append_of_mem member
    have others := key_ne_of_split distinct
    exact find?_split (fun other early => by
      simpa using others other (Or.inl early)) (by simp)

theorem find?_concat_key {key : α → β} [DecidableEq β] {items : List α}
    {item : α} (absent : key item ∉ items.map key) (name : β) :
    (items ++ [item]).find? (fun row => decide (key row = name)) = if name = key item then some item
      else items.find? fun row => decide (key row = name) := by
  by_cases own : name = key item
  · subst own
    rw [if_pos rfl]
    apply find?_split
    · intro other member
      have different : key other ≠ key item := by
        intro same
        exact absent (mem_map.mpr ⟨other, member, same⟩)
      simpa using different
    · simp
  · have other : ¬ key item = name := fun same => own same.symm
    rw [if_neg own, find?_append]
    simp [other]

theorem map_where_split (test : α → Bool) (hit : test item = true)
    (others : ∀ row, row ∈ before ∨ row ∈ after → test row = false)
    (change : α → α) :
    (before ++ item :: after).map (fun row => if test row = true then change row else row) =
      before ++ change item :: after := by
  have kept : ∀ rows : List α, (∀ row ∈ rows, test row = false) →
      rows.map (fun row => if test row = true then change row else row) =
        rows := by
    intro rows apart
    rw [map_congr_left (g := id) (fun row member => by simp [apart row member]), map_id]
  rw [map_append, map_cons, if_pos hit, kept before fun row member => others row (Or.inl member),
    kept after fun row member => others row (Or.inr member)]

theorem map_at_key_split [DecidableEq β] (distinct : ((before ++ item :: after).map key).Nodup)
    (change : α → α) :
    (before ++ item :: after).map (fun row => if key row = key item then change row else row) =
      before ++ change item :: after := by
  have hit : decide (key item = key item) = true := by simp
  have others : ∀ row, row ∈ before ∨ row ∈ after → decide (key row = key item) = false := by
    intro row side
    simpa using key_ne_of_split distinct row side
  simpa only [decide_eq_true_eq] using
    map_where_split (fun row => decide (key row = key item)) hit others change

theorem filter_where_split (test : α → Bool) (hit : test item = true)
    (others : ∀ row, row ∈ before ∨ row ∈ after → test row = false) :
    (before ++ item :: after).filter test = [item] := by
  have dropped : ∀ rows : List α, (∀ row ∈ rows, test row = false) → rows.filter test = [] := by
    intro rows apart
    exact filter_eq_nil_iff.mpr fun row member => by simp [apart row member]
  rw [filter_append, filter_cons_of_pos hit,
    dropped before fun row member => others row (Or.inl member),
    dropped after fun row member => others row (Or.inr member)]
  rfl

theorem filter_not_where_split (test : α → Bool) (hit : test item = true)
    (others : ∀ row, row ∈ before ∨ row ∈ after → test row = false) :
    (before ++ item :: after).filter (fun row => !test row) = before ++ after := by
  have kept : ∀ rows : List α, (∀ row ∈ rows, test row = false) →
      rows.filter (fun row => !test row) = rows := by
    intro rows apart
    exact filter_eq_self.mpr fun row member => by simp [apart row member]
  rw [filter_append, filter_cons_of_neg (by simp [hit]),
    kept before fun row member => others row (Or.inl member),
    kept after fun row member => others row (Or.inr member)]

theorem filter_at_key_split [DecidableEq β] (distinct : ((before ++ item :: after).map key).Nodup) :
    (before ++ item :: after).filter (fun row => decide (key row ≠ key item)) =
      before ++ after := by
  have hit : decide (key item = key item) = true := by simp
  have others : ∀ row, row ∈ before ∨ row ∈ after → decide (key row = key item) = false := by
    intro row side
    simpa using key_ne_of_split distinct row side
  simpa only [decide_not] using
    filter_not_where_split (fun row => decide (key row = key item)) hit others

/-! ## The first best element -/

/-- One pass over `items`, with the best eligible element seen so far. -/
def bestIndexFrom (eligible : α → Bool) (better : α → α → Bool) :
    List α → Nat → Option (Nat × α) → Option (Nat × α)
  | [], _, best => best
  | item :: rest, index, best =>
    bestIndexFrom eligible better rest (index + 1) <| if eligible item then
        match best with
        | some (position, leader) =>
          if better item leader then
            some (index, item)
          else
            some (position, leader)
        | none => some (index, item)
      else
        best

/-- The position of the first eligible element that no eligible element
beats. -/
def bestIndex (eligible : α → Bool) (better : α → α → Bool) (items : List α) : Option Nat :=
  (bestIndexFrom eligible better items 0 none).map Prod.fst

/-- A strict weak order, as a Boolean comparison. -/
structure Ranking (better : α → α → Bool) : Prop where
  asymm : ∀ left right, better left right = true → better right left = false
  negTrans : ∀ left middle right, better left middle = false →
    better middle right = false → better left right = false

namespace Ranking

variable {better : α → α → Bool}

theorem trans (ranking : Ranking better) {left middle right : α} (first : better left middle = true)
    (second : better middle right = true) :
    better left right = true := by
  by_contra notAbove
  have below : better left right = false := by simpa using notAbove
  have crossed := ranking.negTrans left right middle below (ranking.asymm middle right second)
  rw [first] at crossed
  cases crossed

theorem beats_of_not_above (ranking : Ranking better) {winner leader other : α}
    (above : better winner leader = true)
    (notAbove : better other leader = false) :
    better winner other = true := by
  by_contra notWinner
  have below : better winner other = false := by simpa using notWinner
  have crossed := ranking.negTrans winner other leader below notAbove
  rw [above] at crossed
  cases crossed

end Ranking

/-- `chosen` is eligible, beats every eligible element before it and is
beaten by no eligible element after it. -/
structure BestSplit (eligible : α → Bool) (better : α → α → Bool)
    (items before : List α) (chosen : α) (after : List α) : Prop where
  split : items = before ++ chosen :: after
  chosenEligible : eligible chosen = true
  earlier : ∀ other ∈ before, eligible other = true → better chosen other = true
  later : ∀ other ∈ after, eligible other = true → better other chosen = false

section Scan

variable {eligible : α → Bool} {better : α → α → Bool}

theorem BestSplit.cons {rest before after : List α} {item chosen : α}
    (best : BestSplit eligible better rest before chosen after)
    (beats : eligible item = true → better chosen item = true) :
    BestSplit eligible better (item :: rest) (item :: before) chosen after where
  split := by rw [best.split, cons_append]
  chosenEligible := best.chosenEligible
  earlier := by
    intro other member visible
    rcases mem_cons.mp member with rfl | early
    · exact beats visible
    · exact best.earlier other early visible
  later := best.later

/-- With a leader in hand, the scan either keeps it or ends on an element of
the remaining list that beats it. -/
theorem bestIndexFrom_some (ranking : Ranking better) (items : List α)
    (index position : Nat) (leader : α) :
    (bestIndexFrom eligible better items index (some (position, leader)) = some (position, leader) ∧
        ∀ other ∈ items, eligible other = true → better other leader = false) ∨
      ∃ before chosen after, bestIndexFrom eligible better items index (some (position, leader)) =
          some (index + before.length, chosen) ∧
        BestSplit eligible better items before chosen after ∧
        better chosen leader = true := by
  induction items generalizing index position leader with
  | nil => exact Or.inl ⟨rfl, by simp⟩
  | cons item rest ih =>
    by_cases takesLead : eligible item = true ∧ better item leader = true
    · obtain ⟨visible, above⟩ := takesLead
      have unfolded : bestIndexFrom eligible better (item :: rest) index (some (position, leader)) =
            bestIndexFrom eligible better rest (index + 1) (some (index, item)) := by
        simp [bestIndexFrom, visible, above]
      rw [unfolded]
      rcases ih (index + 1) index item with
        ⟨kept, notAbove⟩ |
        ⟨before, chosen, after, ended, best, beats⟩
      · exact Or.inr ⟨[], item, rest, by simpa using kept, ⟨rfl, visible, by simp, notAbove⟩, above⟩
      · refine Or.inr ⟨item :: before, chosen, after, ?_,
          best.cons fun _ => beats, ranking.trans beats above⟩
        rw [ended, length_cons, Nat.add_right_comm, Nat.add_assoc]
    · have notAbove : eligible item = true → better item leader = false := by
        intro visible
        simpa [visible] using takesLead
      have unfolded : bestIndexFrom eligible better (item :: rest) index (some (position, leader)) =
            bestIndexFrom eligible better rest (index + 1) (some (position, leader)) := by
        by_cases visible : eligible item = true
        · simp [bestIndexFrom, visible, notAbove visible]
        · simp [bestIndexFrom, visible]
      rw [unfolded]
      rcases ih (index + 1) position leader with
        ⟨kept, restBelow⟩ |
        ⟨before, chosen, after, ended, best, beats⟩
      · refine Or.inl ⟨kept, ?_⟩
        intro other member visible
        rcases mem_cons.mp member with rfl | late
        · exact notAbove visible
        · exact restBelow other late visible
      · refine Or.inr ⟨item :: before, chosen, after, ?_, best.cons fun visible =>
            ranking.beats_of_not_above beats (notAbove visible),
        beats⟩
        rw [ended, length_cons, Nat.add_right_comm, Nat.add_assoc]

theorem bestIndexFrom_none (ranking : Ranking better) (items : List α) (index : Nat) :
    (bestIndexFrom eligible better items index none = none ∧
        ∀ other ∈ items, eligible other = false) ∨
      ∃ before chosen after, bestIndexFrom eligible better items index none =
          some (index + before.length, chosen) ∧
        BestSplit eligible better items before chosen after := by
  induction items generalizing index with
  | nil => exact Or.inl ⟨rfl, by simp⟩
  | cons item rest ih =>
    by_cases visible : eligible item = true
    · have unfolded : bestIndexFrom eligible better (item :: rest) index none =
            bestIndexFrom eligible better rest (index + 1) (some (index, item)) := by
        simp [bestIndexFrom, visible]
      rw [unfolded]
      rcases @bestIndexFrom_some α eligible better ranking rest (index + 1) index item with
        ⟨kept, notAbove⟩ |
        ⟨before, chosen, after, ended, best, beats⟩
      · exact Or.inr ⟨[], item, rest, by simpa using kept, ⟨rfl, visible, by simp, notAbove⟩⟩
      · refine Or.inr ⟨item :: before, chosen, after, ?_, best.cons fun _ => beats⟩
        rw [ended, length_cons, Nat.add_right_comm, Nat.add_assoc]
    · have hidden : eligible item = false := by simpa using visible
      have unfolded : bestIndexFrom eligible better (item :: rest) index none =
            bestIndexFrom eligible better rest (index + 1) none := by
        simp [bestIndexFrom, hidden]
      rw [unfolded]
      rcases ih (index + 1) with
        ⟨empty, restHidden⟩ | ⟨before, chosen, after, ended, best⟩
      · refine Or.inl ⟨empty, ?_⟩
        intro other member
        rcases mem_cons.mp member with rfl | late
        · exact hidden
        · exact restHidden other late
      · refine Or.inr ⟨item :: before, chosen, after, ?_,
          best.cons fun counted => absurd counted visible⟩
        rw [ended, length_cons, Nat.add_right_comm, Nat.add_assoc]

/-- What `bestIndex` returns: nothing when nothing is eligible, else the
position of a best split. -/
theorem bestIndex_cases (ranking : Ranking better) (items : List α) :
    (bestIndex eligible better items = none ∧ ∀ other ∈ items, eligible other = false) ∨
      ∃ before chosen after, bestIndex eligible better items = some before.length ∧
        BestSplit eligible better items before chosen after := by
  rcases bestIndexFrom_none ranking items 0 with
    ⟨empty, hidden⟩ | ⟨before, chosen, after, ended, best⟩
  · exact Or.inl ⟨by simp [bestIndex, empty], hidden⟩
  · exact Or.inr ⟨before, chosen, after, by simp [bestIndex, ended], best⟩

variable {before : List α}

theorem BestSplit.not_before {items before' after after' : List α} {chosen chosen' : α}
    (best : BestSplit eligible better items before chosen after)
    (other : BestSplit eligible better items before' chosen' after') :
    ¬ before.length < before'.length := by
  intro less
  rcases append_eq_append_iff.mp (best.split.symm.trans other.split)
    with ⟨middle, longer, rest⟩ | ⟨middle, longer, _⟩
  · cases middle with
    | nil =>
      rw [longer, append_nil] at less
      exact absurd less (Nat.lt_irrefl _)
    | cons first middle =>
      obtain ⟨rfl, later⟩ := List.cons.inj rest
      have beats := other.earlier chosen (longer ▸ mem_append_right _ (mem_cons_self ..))
        best.chosenEligible
      have loses := best.later chosen' (later ▸ mem_append_right _ (mem_cons_self ..))
        other.chosenEligible
      rw [beats] at loses
      cases loses
  · rw [longer, length_append] at less
    omega

theorem BestSplit.bestIndex_eq (ranking : Ranking better) {items after : List α} {chosen : α}
    (best : BestSplit eligible better items before chosen after) :
    bestIndex eligible better items = some before.length := by
  rcases @bestIndex_cases _ eligible better ranking items with
    ⟨_, hidden⟩ | ⟨before', chosen', after', found, other⟩
  · have counted := best.chosenEligible
    rw [hidden chosen (best.split ▸ mem_append_right _ (mem_cons_self ..))] at counted
    cases counted
  · have notBefore := best.not_before other
    have notAfter := other.not_before best
    rw [found]
    exact congrArg some (by omega)

theorem BestSplit.filter {items after : List α} {chosen : α}
    (best : BestSplit eligible better items before chosen after)
    {keep : α → Bool} (kept : keep chosen = true) :
    BestSplit eligible better (items.filter keep) (before.filter keep)
      chosen (after.filter keep) where
  split := by
    rw [best.split, filter_append, filter_cons_of_pos kept]
  chosenEligible := best.chosenEligible
  earlier := fun other member =>
    best.earlier other (mem_of_mem_filter member)
  later := fun other member =>
    best.later other (mem_of_mem_filter member)

end Scan

/-! ## Two scans that agree -/

variable {eligible : α → Bool} {better : α → α → Bool}

theorem bestIndexFrom_congr {eligible' : β → Bool} {better' : β → β → Bool} {same : α → β → Prop}
    (aligned : List.Forall₂ same items items')
    (eligibleSame : ∀ item item', same item item' → eligible item = eligible' item')
    (betterSame : ∀ item item' leader leader', same item item' →
      same leader leader' → eligible item = true →
      eligible leader = true →
      better item leader = better' item' leader')
    (index : Nat) (best : Option (Nat × α)) (best' : Option (Nat × β))
    (bestSame : Option.Rel (fun left right => left.1 = right.1 ∧ same left.2 right.2 ∧
        eligible left.2 = true) best best') :
    Option.Rel (fun left right => left.1 = right.1 ∧ same left.2 right.2 ∧ eligible left.2 = true)
      (bestIndexFrom eligible better items index best)
      (bestIndexFrom eligible' better' items' index best') := by
  induction aligned generalizing index best best' with
  | nil => exact bestSame
  | @cons item item' rest rest' paired _ ih =>
    simp only [bestIndexFrom]
    apply ih
    rw [← eligibleSame item item' paired]
    by_cases visible : eligible item = true
    · simp only [visible, if_true]
      cases bestSame with
      | none => exact Option.Rel.some ⟨rfl, paired, visible⟩
      | @some leader leader' leaderSame =>
        obtain ⟨position, leader⟩ := leader
        obtain ⟨position', leader'⟩ := leader'
        obtain ⟨samePosition, sameLeader, visibleLeader⟩ := leaderSame
        simp only at samePosition sameLeader visibleLeader ⊢
        rw [← betterSame item item' leader leader' paired sameLeader visible visibleLeader]
        split
        · exact Option.Rel.some ⟨rfl, paired, visible⟩
        · exact Option.Rel.some ⟨samePosition, sameLeader, visibleLeader⟩
    · simpa [visible] using bestSame

theorem bestIndex_congr {eligible' : β → Bool} {better' : β → β → Bool} {same : α → β → Prop}
    (aligned : List.Forall₂ same items items')
    (eligibleSame : ∀ item item', same item item' → eligible item = eligible' item')
    (betterSame : ∀ item item' leader leader', same item item' →
      same leader leader' → eligible item = true →
      eligible leader = true →
      better item leader = better' item' leader') :
    bestIndex eligible better items = bestIndex eligible' better' items' := by
  have ended := bestIndexFrom_congr aligned eligibleSame betterSame 0 none none Option.Rel.none
  unfold bestIndex
  generalize bestIndexFrom eligible better items 0 none = best at ended ⊢
  generalize bestIndexFrom eligible' better' items' 0 none = best' at ended ⊢
  cases ended with
  | none => rfl
  | some samePosition => simp [samePosition.1]

/-- A tie-break that always favours the earlier element changes nothing. -/
theorem bestIndexFrom_tieBreak {better' : α → α → Bool}
    (items : List α) (index : Nat) (best : Option (Nat × α))
    (ordered : items.Pairwise fun early late =>
      better' late early = better late early)
    (bestOrdered : ∀ leader ∈ best, ∀ item ∈ items, better' item leader.2 = better item leader.2) :
    bestIndexFrom eligible better' items index best =
      bestIndexFrom eligible better items index best := by
  induction items generalizing index best with
  | nil => rfl
  | cons item rest ih =>
    obtain ⟨itemOrdered, restOrdered⟩ := pairwise_cons.mp ordered
    have newLeader : ∀ leader ∈ some (index, item), ∀ other ∈ rest,
        better' other leader.2 = better other leader.2 := by
      intro leader chosen other member
      cases chosen
      exact itemOrdered other member
    have oldLeader : ∀ leader ∈ best, ∀ other ∈ rest,
        better' other leader.2 = better other leader.2 :=
      fun leader chosen other member =>
        bestOrdered leader chosen other (mem_cons_of_mem _ member)
    simp only [bestIndexFrom]
    cases best with
    | none =>
      split
      · exact ih _ _ restOrdered newLeader
      · exact ih _ _ restOrdered oldLeader
    | some leader =>
      obtain ⟨position, leader⟩ := leader
      have same := bestOrdered (position, leader) rfl item (mem_cons_self ..)
      simp only at same ⊢
      rw [same]
      split
      · split
        · exact ih _ _ restOrdered newLeader
        · exact ih _ _ restOrdered oldLeader
      · exact ih _ _ restOrdered oldLeader

theorem bestIndex_tieBreak {better' : α → α → Bool} (ordered : items.Pairwise fun early late =>
      better' late early = better late early) :
  bestIndex eligible better' items = bestIndex eligible better items := by
  unfold bestIndex
  rw [bestIndexFrom_tieBreak items 0 none ordered (by simp)]

/-! ## Dropping the first elements that pass a test -/

/-- Without the first `count` elements that pass the test. -/
def dropFirst (test : α → Bool) : Nat → List α → List α
  | _, [] => []
  | count, item :: rest =>
    if test item = true ∧ 0 < count then
      dropFirst test (count - 1) rest
    else
      item :: dropFirst test count rest

@[simp]
theorem dropFirst_zero (test : α → Bool) (items : List α) : dropFirst test 0 items = items := by
  induction items with
  | nil => rfl
  | cons item rest ih =>
    simp [dropFirst, ih]

theorem dropFirst_aligned (aligned : List.Forall₂ related items items')
    (same : ∀ item item', related item item' → test item = test' item')
    (count : Nat) :
    List.Forall₂ related (dropFirst test count items) (dropFirst test' count items') := by
  induction aligned generalizing count with
  | nil => exact .nil
  | cons matched _ ih =>
    simp only [dropFirst, same _ _ matched]
    split
    · exact ih (count - 1)
    · exact .cons matched (ih count)

/-- Keeping the elements that fail the test or are among the last that pass
it drops the first that pass it. -/
theorem filter_last_eq_dropFirst [DecidableEq β] (test : α → Bool) :
    ∀ (count : Nat) (items : List α), (items.map key).Nodup →
      items.filter (fun item => decide (¬ (test item = true ∧
        key item ∉ ((items.filter test).drop count).map key))) =
      dropFirst test count items
  | _, [], _ => rfl
  | count, item :: rest, distinct => by
      obtain ⟨apart, restDistinct⟩ := nodup_cons.mp distinct
      have ih := fun count =>
        filter_last_eq_dropFirst test count rest restDistinct
      by_cases hit : test item = true
      · cases count with
        | zero =>
          rw [dropFirst_zero]
          apply filter_eq_self.mpr
          intro other member
          simp only [drop_zero, decide_eq_true_eq, not_and, not_not]
          intro passes
          exact mem_map_of_mem (mem_filter.mpr ⟨member, passes⟩)
        | succ count =>
          have gone : key item ∉ ((rest.filter test).drop count).map key := by
            intro member
            obtain ⟨other, kept, same⟩ := mem_map.mp member
            exact apart (same ▸ mem_map_of_mem (mem_of_mem_filter (mem_of_mem_drop kept)))
          rw [filter_cons_of_pos hit, drop_succ_cons, filter_cons_of_neg
              (by simp only [hit, gone]; decide),
            ih count]
          simp [dropFirst, hit]
      · rw [filter_cons_of_neg (p := test) hit, filter_cons_of_pos (by simp [hit]), ih count]
        simp [dropFirst, hit]

end Lib
