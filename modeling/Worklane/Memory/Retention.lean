import Worklane.Memory.Changes

/-!
# Retention in memory

`prune_dead` touches the records of one lane only, and leaves of them the
young ones that were dead-lettered last.
-/

namespace Worklane.Memory

open List

variable {keep : DeadEntry → Bool} {lane : Lane} {now : Nat}

variable {dead : List DeadEntry}

theorem dropOldest_filter (toDrop : Nat)
    (inside : ∀ entry ∈ dead, entry.lane = lane → keep entry = true) :
    (dropOldest lane toDrop dead).1.filter keep =
      (dropOldest lane toDrop (dead.filter keep)).1 := by
  induction dead generalizing toDrop with
  | nil => rfl
  | cons entry rest ih =>
    have later := fun other member =>
      inside other (mem_cons_of_mem entry member)
    cases kept : keep entry with
    | true =>
      rw [filter_cons_of_pos kept, dropOldest, dropOldest]
      split
      · exact ih (toDrop - 1) later
      · rw [filter_cons_of_pos kept, ih _ later]
    | false =>
      have elsewhere : ¬ (entry.lane = lane ∧ 0 < toDrop) := by
        rintro ⟨here, _⟩
        rw [inside entry (mem_cons_self ..) here] at kept
        cases kept
      rw [filter_cons_of_neg (by simp [kept]), dropOldest,
        if_neg elsewhere, filter_cons_of_neg (by simp [kept]),
        ih _ later]

theorem filter_lane_filter (inside : ∀ entry ∈ dead, entry.lane = lane → keep entry = true) :
    (dead.filter keep).filter (fun entry => entry.lane = lane) =
      dead.filter fun entry => entry.lane = lane := by
  rw [filter_filter]
  apply filter_congr
  intro entry member
  by_cases here : entry.lane = lane
  · simp [here, inside entry member here]
  · simp [here]

theorem pruneByCount_filter (maxCount : Option Nat)
    (inside : ∀ entry ∈ dead, entry.lane = lane → keep entry = true) :
    (pruneByCount lane maxCount dead).1.filter keep =
      (pruneByCount lane maxCount (dead.filter keep)).1 := by
  cases maxCount with
  | none => rfl
  | some count =>
    simp only [pruneByCount, filter_lane_filter inside]
    split
    · exact dropOldest_filter _ inside
    · rfl

theorem pruneByAge_filter (maxAge : Option Nat) (dead : List DeadEntry) :
    (pruneByAge lane now maxAge dead).1.filter keep =
      (pruneByAge lane now maxAge (dead.filter keep)).1 := by
  cases maxAge with
  | none => rfl
  | some age =>
    simp only [pruneByAge, partition_eq_filter_filter, filter_filter, Bool.and_comm]

theorem pruneDead_bounded {policy : RetentionPolicy}
    (bounded : ¬ policy.isUnbounded) (dead : List DeadEntry) :
    (pruneDead policy lane now dead).1 = (pruneByCount lane policy.maxCount
        (pruneByAge lane now policy.maxAge dead).1).1 := by
  rw [pruneDead, if_neg bounded]

theorem pruneDead_unbounded {policy : RetentionPolicy}
    (unbounded : policy.isUnbounded) (dead : List DeadEntry) :
    (pruneDead policy lane now dead).1 = dead := by
  rw [pruneDead, if_pos unbounded]

theorem pruneDead_filter (policy : RetentionPolicy)
    (inside : ∀ entry ∈ dead, entry.lane = lane → keep entry = true) :
    (pruneDead policy lane now dead).1.filter keep =
      (pruneDead policy lane now (dead.filter keep)).1 := by
  by_cases unbounded : policy.isUnbounded
  · rw [pruneDead_unbounded unbounded, pruneDead_unbounded unbounded]
  · have young := (pruneByAge_spec lane now policy.maxAge dead).1
    rw [pruneDead_bounded unbounded, pruneDead_bounded unbounded, ← pruneByAge_filter]
    exact pruneByCount_filter _ fun entry member =>
      inside entry (young.subset member)

theorem dropOldest_outside (toDrop : Nat)
    (outside : ∀ entry ∈ dead, entry.lane = lane → keep entry = false) :
    (dropOldest lane toDrop dead).1.filter keep = dead.filter keep := by
  induction dead generalizing toDrop with
  | nil => rfl
  | cons entry rest ih =>
    have later := fun other member =>
      outside other (mem_cons_of_mem entry member)
    rw [dropOldest]
    split
    · next gone =>
      rw [ih _ later, filter_cons_of_neg (by simp [outside entry (mem_cons_self ..) gone.1])]
    · simp only [filter_cons, ih _ later]

theorem pruneDead_outside (policy : RetentionPolicy)
    (outside : ∀ entry ∈ dead, entry.lane = lane → keep entry = false) :
    (pruneDead policy lane now dead).1.filter keep = dead.filter keep := by
  by_cases unbounded : policy.isUnbounded
  · rw [pruneDead_unbounded unbounded]
  · have young := (pruneByAge_spec lane now policy.maxAge dead).1
    have aged : (pruneByAge lane now policy.maxAge dead).1.filter keep =
        dead.filter keep := by
      cases policy.maxAge with
      | none => rfl
      | some age =>
        simp only [pruneByAge, partition_eq_filter_filter, filter_filter]
        apply filter_congr
        intro entry member
        by_cases here : entry.lane = lane
        · simp [outside entry member here]
        · simp [here]
    rw [pruneDead_bounded unbounded, ← aged]
    have later := fun entry member =>
      outside entry (young.subset member)
    simp only [pruneByCount]
    cases policy.maxCount with
    | none => rfl
    | some count =>
      simp only
      split
      · exact dropOldest_outside _ later
      · rfl

/-! ## One lane -/

/-- The records young enough to be kept. -/
def isYoung (policy : RetentionPolicy) (now : Nat) (entry : DeadEntry) : Bool :=
  policy.maxAge.all fun age => decide (now - age ≤ entry.deadAt)

/-- How many of `total` records are too many. -/
def excess (policy : RetentionPolicy) (total : Nat) : Nat :=
  match policy.maxCount with
  | none => 0
  | some count => total - count

theorem dropOldest_lane (toDrop : Nat) (own : ∀ entry ∈ dead, entry.lane = lane) :
    (dropOldest lane toDrop dead).1 = dead.drop toDrop := by
  induction dead generalizing toDrop with
  | nil => exact drop_nil.symm
  | cons entry rest ih =>
    have later := fun other member =>
      own other (mem_cons_of_mem entry member)
    have here := own entry (mem_cons_self ..)
    rw [dropOldest]
    cases toDrop with
    | zero =>
      rw [if_neg fun some => Nat.lt_irrefl 0 some.2]
      exact congrArg (entry :: ·) (ih 0 later)
    | succ toDrop =>
      rw [if_pos ⟨here, Nat.succ_pos toDrop⟩]
      exact ih toDrop later

/-- Of the records of one lane the young ones are kept, and of those the
last. -/
theorem pruneDead_lane (policy : RetentionPolicy) (own : ∀ entry ∈ dead, entry.lane = lane) :
    let young := dead.filter (isYoung policy now)
    (pruneDead policy lane now dead).1 = young.drop (excess policy young.length) := by
  intro young
  have aged : (pruneByAge lane now policy.maxAge dead).1 = young := by
    unfold young isYoung
    cases policy.maxAge with
    | none => simp [pruneByAge]
    | some age =>
      simp only [pruneByAge, partition_eq_filter_filter]
      apply filter_congr
      intro entry member
      simp [own entry member]
  by_cases unbounded : policy.isUnbounded
  · rw [pruneDead_unbounded unbounded]
    obtain ⟨noAge, noCount⟩ : policy.maxAge = none ∧ policy.maxCount = none := by
      simpa [RetentionPolicy.isUnbounded] using unbounded
    rw [noAge] at aged
    rw [excess, noCount]
    exact aged
  · rw [pruneDead_bounded unbounded, aged]
    have inLane : young.filter (fun entry => entry.lane = lane) = young := by
      rw [filter_eq_self]
      intro entry member
      exact decide_eq_true (own entry (mem_of_mem_filter member))
    unfold pruneByCount excess
    cases policy.maxCount with
    | none => rfl
    | some count =>
      simp only [inLane]
      split
      · exact dropOldest_lane _ fun entry member =>
        own entry (mem_of_mem_filter member)
      · next few =>
        have none : young.length - count = 0 := by omega
        rw [none]
        rfl

end Worklane.Memory
