import Mathlib.Data.List.Nodup
import Mathlib.Logic.Function.Basic
import Mathlib.Order.Basic
import Mathlib.Order.Lattice
import Mathlib.Tactic.Common

/-!
# Sorted sets

A sorted set holds each member once, under a score, and lists its entries by
score and then by member.  The order and the distinctness of the members are
part of the structure; the operations are specified by membership.
-/

namespace Lib

open List

universe u v

structure ZEntry (μ : Type u) where
  score : Nat
  member : μ
  deriving DecidableEq, Repr

section Order

variable {μ : Type u} [LinearOrder μ]

/-- By score, ties by member. -/
def ZEntry.Before (left right : ZEntry μ) : Prop :=
  left.score < right.score ∨ (left.score = right.score ∧ left.member < right.member)

instance (left right : ZEntry μ) : Decidable (left.Before right) :=
  inferInstanceAs (Decidable (_ ∨ _))

theorem ZEntry.Before.trans {first second third : ZEntry μ}
    (left : first.Before second) (right : second.Before third) :
    first.Before third := by
  rcases left with less | ⟨same, less⟩
  · rcases right with less' | ⟨same', _⟩
    · exact Or.inl (Nat.lt_trans less less')
    · exact Or.inl (same' ▸ less)
  · rcases right with less' | ⟨same', less'⟩
    · exact Or.inl (same ▸ less')
    · exact Or.inr ⟨same.trans same', less.trans less'⟩

theorem ZEntry.Before.irrefl (entry : ZEntry μ) : ¬ entry.Before entry := by
  rintro (less | ⟨_, less⟩)
  · exact Nat.lt_irrefl _ less
  · exact lt_irrefl _ less

theorem ZEntry.before_of_not {left right : ZEntry μ}
    (notBefore : ¬ left.Before right) (apart : left.member ≠ right.member) :
    right.Before left := by
  rcases Nat.lt_trichotomy left.score right.score with less | same | more
  · exact absurd (Or.inl less) notBefore
  · rcases lt_or_gt_of_ne apart with less | more
    · exact absurd (Or.inr ⟨same, less⟩) notBefore
    · exact Or.inr ⟨same.symm, more⟩
  · exact Or.inl more

/-- Insertion in front of the first entry it comes before. -/
def ZEntry.insert (entry : ZEntry μ) : List (ZEntry μ) → List (ZEntry μ)
  | [] => [entry]
  | other :: rest =>
    if entry.Before other then entry :: other :: rest
    else other :: entry.insert rest

theorem ZEntry.insert_perm (entry : ZEntry μ) (entries : List (ZEntry μ)) :
    (entry.insert entries).Perm (entry :: entries) := by
  induction entries with
  | nil => exact List.Perm.refl _
  | cons other rest ih =>
    unfold ZEntry.insert
    split
    · exact List.Perm.refl _
    · exact (ih.cons other).trans (List.Perm.swap entry other rest)

theorem ZEntry.insert_sorted {entry : ZEntry μ}
    {entries : List (ZEntry μ)} (sorted : entries.Pairwise ZEntry.Before)
    (absent : ∀ other ∈ entries, entry.member ≠ other.member) :
    (entry.insert entries).Pairwise ZEntry.Before := by
  induction entries with
  | nil => exact pairwise_singleton ..
  | cons other rest ih =>
    obtain ⟨first, later⟩ := pairwise_cons.mp sorted
    unfold ZEntry.insert
    split
    · next before =>
      refine pairwise_cons.mpr ⟨?_, sorted⟩
      intro late member
      rcases mem_cons.mp member with rfl | inside
      · exact before
      · exact before.trans (first late inside)
    · next notBefore =>
      have behind := ZEntry.before_of_not notBefore (absent other (mem_cons_self ..))
      refine pairwise_cons.mpr ⟨?_, ih later
        fun late member => absent late (mem_cons_of_mem _ member)⟩
      intro late member
      rcases mem_cons.mp ((entry.insert_perm rest).mem_iff.mp member) with rfl | inside
      · exact behind
      · exact first late inside

/-- Dropping as many entries as a lower part has leaves the upper part. -/
theorem ZEntry.drop_perm {entries front back : List (ZEntry μ)}
    (sorted : entries.Pairwise ZEntry.Before) (perm : entries.Perm (front ++ back))
    (below : ∀ early ∈ front, ∀ late ∈ back, early.Before late) :
    (entries.drop front.length).Perm back := by
  induction entries generalizing front with
  | nil =>
    obtain ⟨rfl, rfl⟩ := append_eq_nil_iff.mp (nil_perm.mp perm)
    exact List.Perm.refl _
  | cons entry rest ih =>
    obtain ⟨first, later⟩ := pairwise_cons.mp sorted
    cases front with
    | nil => exact perm
    | cons lowest others =>
      -- the first entry is of the lower part, or an entry of that part would come before it
      have lower : entry ∈ lowest :: others := by
        by_contra upper
        have late : entry ∈ back :=
          (mem_append.mp (perm.subset (mem_cons_self ..))).resolve_left upper
        have before := below lowest (mem_cons_self ..) entry late
        rcases mem_cons.mp (perm.symm.subset (mem_cons_self ..)) with same | inside
        · exact ZEntry.Before.irrefl _ (same ▸ before)
        · exact ZEntry.Before.irrefl _ (before.trans (first lowest inside))
      obtain ⟨left, right, split⟩ := append_of_mem lower
      have remaining : rest.Perm ((left ++ right) ++ back) := by
        rw [split, append_assoc, cons_append] at perm
        rw [append_assoc]
        exact (perm_cons _).mp (perm.trans perm_middle)
      have size : (lowest :: others).length = (left ++ right).length + 1 := by
        rw [split]
        simp only [length_append, length_cons]
        omega
      rw [size, drop_succ_cons]
      apply ih later remaining
      intro early inside
      refine below early ?_
      rw [split]
      exact (mem_append.mp inside).elim (mem_append_left _) fun there =>
        mem_append_right _ (mem_cons_of_mem _ there)

end Order

/-- A sorted set. -/
structure ZSet (μ : Type u) [LinearOrder μ] where
  entries : List (ZEntry μ)
  sorted : entries.Pairwise ZEntry.Before
  distinct : (entries.map ZEntry.member).Nodup

namespace ZSet

variable {μ : Type u} [LinearOrder μ]

instance : Membership (ZEntry μ) (ZSet μ) where
  mem set entry := entry ∈ set.entries

def empty : ZSet μ := ⟨[], List.Pairwise.nil, nodup_nil⟩

instance : EmptyCollection (ZSet μ) := ⟨empty⟩

@[simp]
theorem not_mem_empty (entry : ZEntry μ) : entry ∉ (∅ : ZSet μ) :=
  not_mem_nil

/-- `ZCARD`. -/
def zcard (set : ZSet μ) : Nat := set.entries.length

/-- `ZREM`. -/
def zrem (set : ZSet μ) (member : μ) : ZSet μ where
  entries := set.entries.filter fun entry => decide (entry.member ≠ member)
  sorted := set.sorted.sublist filter_sublist
  distinct := set.distinct.sublist (filter_sublist.map _)

variable {set : ZSet μ} {entry : ZEntry μ}

theorem mem_zrem {member : μ} : entry ∈ set.zrem member ↔ entry ∈ set ∧ entry.member ≠ member := by
  change entry ∈ List.filter _ _ ↔ _
  rw [mem_filter, decide_eq_true_eq]
  rfl

/-- `ZADD`: a member that is there gets the new score. -/
def zadd (set : ZSet μ) (score : Nat) (member : μ) : ZSet μ where
  entries := (ZEntry.mk score member).insert (set.zrem member).entries
  sorted := by
    apply ZEntry.insert_sorted (set.zrem member).sorted
    intro other inside
    exact (mem_zrem.mp inside).2.symm
  distinct := by
    apply (((ZEntry.mk score member).insert_perm _).map ZEntry.member).nodup_iff.mpr
    rw [map_cons, nodup_cons]
    refine ⟨?_, (set.zrem member).distinct⟩
    intro listed
    obtain ⟨other, inside, same⟩ := mem_map.mp listed
    exact (mem_zrem.mp inside).2 same

theorem mem_zadd {score : Nat} {member : μ} : entry ∈ set.zadd score member ↔
      entry = ⟨score, member⟩ ∨ (entry ∈ set ∧ entry.member ≠ member) := by
  rw [← mem_zrem]
  exact ((ZEntry.mk score member).insert_perm (set.zrem member).entries).mem_iff.trans mem_cons

theorem zadd_perm {score : Nat} {member : μ} (fresh : ∀ other ∈ set, other.member ≠ member) :
    (set.zadd score member).entries.Perm (set.entries ++ [⟨score, member⟩]) := by
  have all : (set.zrem member).entries = set.entries := by
    refine filter_eq_self.mpr fun other inside => ?_
    exact decide_eq_true (fresh other inside)
  have inserted : (set.zadd score member).entries.Perm (_ :: (set.zrem member).entries) :=
    ZEntry.insert_perm ..
  rw [all] at inserted
  exact inserted.trans (perm_append_singleton _ _).symm

/-- `ZRANGEBYSCORE set -inf bound LIMIT 0 1`. -/
def firstUpTo (set : ZSet μ) (bound : Nat) : Option (ZEntry μ) :=
  set.entries.find? fun entry => decide (entry.score ≤ bound)

theorem firstUpTo_eq_none {bound : Nat} :
    set.firstUpTo bound = none ↔ ∀ entry ∈ set, ¬ entry.score ≤ bound := by
  unfold firstUpTo
  rw [find?_eq_none]
  simp only [decide_eq_true_eq]
  rfl

theorem firstUpTo_eq_some {bound : Nat} (found : set.firstUpTo bound = some entry) :
    entry ∈ set ∧ entry.score ≤ bound ∧ ∀ other ∈ set, other.score ≤ bound →
        other = entry ∨ entry.Before other := by
  obtain ⟨due, front, back, shape, skipped⟩ := find?_eq_some_iff_append.mp found
  have member : entry ∈ set.entries := by
    rw [shape]
    simp
  refine ⟨member, of_decide_eq_true due, ?_⟩
  intro other inside otherDue
  have inside : other ∈ front ++ entry :: back := shape ▸ inside
  have sorted : (front ++ entry :: back).Pairwise ZEntry.Before := shape ▸ set.sorted
  rcases mem_append.mp inside with early | late
  · have := skipped other early
    rw [decide_eq_true otherDue] at this
    cases this
  · rcases mem_cons.mp late with same | behind
    · exact Or.inl same
    · exact Or.inr ((pairwise_cons.mp (pairwise_append.mp sorted).2.1).1 other behind)

/-- The entries that pass a test, as `ZREMRANGEBYSCORE` leaves them. -/
def keep (set : ZSet μ) (test : ZEntry μ → Bool) : ZSet μ where
  entries := set.entries.filter test
  sorted := set.sorted.sublist filter_sublist
  distinct := set.distinct.sublist (filter_sublist.map _)

/-- `ZREMRANGEBYRANK set 0 (count - 1)`. -/
def dropFirst (set : ZSet μ) (count : Nat) : ZSet μ where
  entries := set.entries.drop count
  sorted := set.sorted.sublist (drop_sublist ..)
  distinct := set.distinct.sublist ((drop_sublist ..).map _)

/-! ## Families of sorted sets -/

section Family

variable {Key : Type v} [DecidableEq Key] {sets : Key → ZSet μ}
variable {key other : Key} {score : Nat} {member : μ} {entry : ZEntry μ}

theorem mem_update_zadd : entry ∈ Function.update sets key ((sets key).zadd score member) other ↔
      (other = key ∧ entry = ⟨score, member⟩) ∨
        (entry ∈ sets other ∧ (other = key → entry.member ≠ member)) := by
  by_cases same : other = key
  · subst same
    rw [Function.update_self, mem_zadd]
    simp
  · rw [Function.update_of_ne same]
    simp [same]

theorem mem_update_zrem : entry ∈ Function.update sets key ((sets key).zrem member) other ↔
      entry ∈ sets other ∧ (other = key → entry.member ≠ member) := by
  by_cases same : other = key
  · subst same
    rw [Function.update_self, mem_zrem]
    simp
  · rw [Function.update_of_ne same]
    simp [same]

end Family

end ZSet

end Lib
