import Worklane.Facade.FanIn

/-!
# Captured outputs and the slots of an assembly

A payload carries its captured outputs as a list, in the order they were
captured; an assembly holds them in slots, in dependency order.  `Holds` says
that both are the same assignment of outputs to dependencies.  It determines
the slots, so restoring a checkpoint gives back the assembly it was taken
from.
-/

namespace Worklane.Facade

open List

/-! ## Slots that hold entries -/

/-- Every slot holds what the entries say about its dependency. -/
structure Holds (dependencies : List JobId) (entries : List (JobId × Blob))
    (slots : Slots) : Prop where
  length : slots.length = dependencies.length
  content : ∀ (index : Nat) (id : JobId), dependencies[index]? = some id →
    ∀ bytes, slots[index]? = some (some bytes) ↔ (id, bytes) ∈ entries

/-- The slot of a dependency holds these bytes. -/
def Slotted (dependencies : List JobId) (slots : Slots) (id : JobId) (bytes : Blob) : Prop :=
  ∃ index : Nat, dependencies[index]? = some id ∧ slots[index]? = some (some bytes)

section Holds

variable {dependencies : List JobId} {entries : List (JobId × Blob)}
variable {slots : Slots}

theorem holds_empty : Holds dependencies [] (dependencies.map fun _ => none) where
  length := by simp
  content := by
    intro index id found bytes
    rw [getElem?_map, found]
    simp

variable {index : Nat}

theorem Holds.inside (holds : Holds dependencies entries slots) {id : JobId}
    (found : dependencies[index]? = some id) : index < slots.length := by
  rw [holds.length]
  exact (List.getElem?_eq_some_iff.mp found).1

theorem Holds.empty_iff (holds : Holds dependencies entries slots) {id : JobId}
    (found : dependencies[index]? = some id) :
    slots[index]? = some none ↔ id ∉ entries.map Prod.fst := by
  have inside := holds.inside found
  constructor
  · intro empty member
    obtain ⟨⟨_, bytes⟩, listed, rfl⟩ := mem_map.mp member
    rw [(holds.content index _ found bytes).mpr listed] at empty
    cases empty
  · intro absent
    cases held : slots[index] with
    | none => rw [getElem?_eq_getElem inside, held]
    | some bytes =>
      have listed := (holds.content index id found bytes).mp
        (by rw [getElem?_eq_getElem inside, held])
      exact absurd (mem_map_of_mem listed) absent

theorem Holds.unique {others : Slots} (holds : Holds dependencies entries slots)
    (again : Holds dependencies entries others) : slots = others := by
  apply ext_getElem?
  intro index
  cases found : dependencies[index]? with
  | none =>
    have beyond := getElem?_eq_none_iff.mp found
    rw [getElem?_eq_none (by rw [holds.length]; exact beyond),
      getElem?_eq_none (by rw [again.length]; exact beyond)]
  | some id =>
    by_cases captured : id ∈ entries.map Prod.fst
    · obtain ⟨⟨_, bytes⟩, listed, rfl⟩ := mem_map.mp captured
      rw [(holds.content index _ found bytes).mpr listed,
        (again.content index _ found bytes).mpr listed]
    · rw [(holds.empty_iff found).mpr captured, (again.empty_iff found).mpr captured]

theorem index_unique {other : Nat} {id : JobId} (distinct : dependencies.Nodup)
    (left : dependencies[index]? = some id)
    (right : dependencies[other]? = some id) : index = other := by
  obtain ⟨leftInside, rfl⟩ := List.getElem?_eq_some_iff.mp left
  obtain ⟨rightInside, same⟩ := List.getElem?_eq_some_iff.mp right
  exact ((List.Nodup.getElem_inj_iff distinct).mp same).symm

theorem Holds.set (holds : Holds dependencies entries slots)
    (distinct : dependencies.Nodup) {id : JobId}
    (found : dependencies[index]? = some id)
    (absent : id ∉ entries.map Prod.fst) (bytes : Blob) :
    Holds dependencies (entries ++ [(id, bytes)]) (slots.set index (some bytes)) where
  length := by simp [holds.length]
  content := by
    intro other candidate at_ value
    have inside := holds.inside found
    by_cases same : index = other
    · subst same
      rw [found] at at_
      cases at_
      have unlisted : ∀ value, (id, value) ∉ entries := fun value listed =>
        absent (mem_map_of_mem listed)
      simp [getElem?_set_self inside, unlisted, eq_comm]
    · have different : candidate ≠ id := by
        rintro rfl
        exact same (index_unique distinct found at_)
      rw [getElem?_set_ne same, holds.content other candidate at_]
      simp [different]

end Holds

/-! ## `position` -/

variable {dependencies : List JobId}

theorem position_of_mem {id : JobId} (member : id ∈ dependencies) :
    ∃ index, position dependencies id = some index ∧ dependencies[index]? = some id := by
  cases at_ : position dependencies id with
  | none =>
    have none := findIdx?_eq_none_iff.mp at_ id member
    simp at none
  | some index =>
    obtain ⟨inside, equal, _⟩ := findIdx?_eq_some_iff_getElem.mp at_
    refine ⟨index, rfl, ?_⟩
    rw [getElem?_eq_getElem inside]
    exact congrArg some (of_decide_eq_true equal)

/-! ## Restoring -/

/-- The loop of `restore_fan_in_assembly`, from slots that hold the entries
read so far. -/
theorem restoreSlots_holds (distinct : dependencies.Nodup) :
    ∀ (rest done : List (JobId × Blob)) (slots : Slots), Holds dependencies done slots →
      ((done ++ rest).map Prod.fst).Nodup →
      (∀ entry ∈ rest, entry.1 ∈ dependencies) →
      ∃ restored, restoreSlots dependencies slots rest = .ok restored ∧
        Holds dependencies (done ++ rest) restored := by
  intro rest
  induction rest with
  | nil =>
    intro done slots holds _ _
    exact ⟨slots, rfl, by rwa [append_nil]⟩
  | cons entry rest ih =>
    intro done slots holds once known
    obtain ⟨id, bytes⟩ := entry
    obtain ⟨index, at_, found⟩ := position_of_mem (known (id, bytes) (mem_cons_self ..))
    have absent : id ∉ done.map Prod.fst := by
      intro member
      rw [map_append] at once
      exact (nodup_append.mp once).2.2 id member id (mem_map_of_mem (mem_cons_self ..)) rfl
    have empty := (holds.empty_iff found).mpr absent
    obtain ⟨restored, reads, held⟩ := ih (done ++ [(id, bytes)]) (slots.set index (some bytes))
      (holds.set distinct found absent bytes) (by simpa using once)
      (fun other member => known other (mem_cons_of_mem _ member))
    refine ⟨restored, ?_, by simpa using held⟩
    simp only [restoreSlots, at_, empty]
    exact reads

theorem restore_valid (lengkap : Lengkap) {payload : FanInWatcherPayload} (valid : payload.Valid) :
    ∃ assembly, restoreFanInAssembly lengkap payload.dependencies payload.collected = .ok assembly ∧
      Holds payload.dependencies payload.collected (lengkap.intoSlots assembly) := by
  obtain ⟨slots, reads, holds⟩ := restoreSlots_holds valid.distinct
    payload.collected [] _ holds_empty valid.once valid.known
  refine ⟨lengkap.fromSlots slots, ?_, ?_⟩
  · rw [restoreFanInAssembly, reads]
    rfl
  · rw [lengkap.intoSlots_fromSlots]
    exact holds

/-! ## Filling -/

@[simp]
theorem length_fill (slots : Slots) (findings : List (Nat × Finding)) :
    (fill slots findings).length = slots.length := by
  induction findings generalizing slots with
  | nil => rfl
  | cons finding rest ih =>
    obtain ⟨index, finding⟩ := finding
    cases finding with
    | produced bytes => simp [fill, ih]
    | impossible cause => simp [fill, ih]

/-- Findings for distinct empty slots: a slot holds what it held before or
what was found for it. -/
theorem fill_content {slots : Slots} {findings : List (Nat × Finding)}
    (distinct : (findings.map Prod.fst).Nodup)
    (empty : ∀ finding ∈ findings, slots[finding.1]? = some none)
    (index : Nat) (bytes : Blob) :
    (fill slots findings)[index]? = some (some bytes) ↔ slots[index]? = some (some bytes) ∨
        (index, Finding.produced bytes) ∈ findings := by
  induction findings generalizing slots with
  | nil => simp [fill]
  | cons finding rest ih =>
    obtain ⟨slot, finding⟩ := finding
    rw [map_cons, nodup_cons] at distinct
    obtain ⟨fresh, distinct⟩ := distinct
    have here := empty (slot, finding) (mem_cons_self ..)
    have later : ∀ other ∈ rest, slots[other.1]? = some none :=
      fun other member => empty other (mem_cons_of_mem _ member)
    cases finding with
    | impossible cause =>
      rw [fill, ih distinct later]
      simp
    | produced value =>
      have inside : slot < slots.length := (List.getElem?_eq_some_iff.mp here).1
      rw [fill, ih distinct]
      · by_cases same : slot = index
        · subst same
          have unlisted : (slot, Finding.produced bytes) ∉ rest :=
            fun member => fresh (mem_map.mpr ⟨_, member, rfl⟩)
          simp only [getElem?_set_self inside, unlisted, or_false,
            Option.some.injEq, mem_cons, Prod.mk.injEq, true_and,
            Finding.produced.injEq, here, reduceCtorEq, false_or]
          exact eq_comm
        · have other : ¬ index = slot := fun equal => same equal.symm
          simp [getElem?_set_ne same, other]
      · intro other member
        have different : slot ≠ other.1 := by
          intro same
          exact fresh (mem_map.mpr ⟨other, member, same.symm⟩)
        rw [getElem?_set_ne different]
        exact later other member

/-! ## Checkpointing -/

/-- The first loop of `checkpoint_fan_in_assembly` takes out exactly the
outputs captured before. -/
theorem takeCaptured_ok (distinct : dependencies.Nodup) :
    ∀ (previous : List (JobId × Blob)) (slots : Slots), slots.length = dependencies.length →
      (previous.map Prod.fst).Nodup →
      (∀ entry ∈ previous, Slotted dependencies slots entry.1 entry.2) →
      ∃ left, takeCaptured dependencies slots previous = .ok (previous, left) ∧
        left.length = dependencies.length ∧
        ∀ (index : Nat) (id : JobId), dependencies[index]? = some id →
          left[index]? = if id ∈ previous.map Prod.fst then some none
            else slots[index]? := by
  intro previous
  induction previous with
  | nil =>
    intro slots length _ _
    exact ⟨slots, rfl, length, by simp⟩
  | cons entry rest ih =>
    intro slots length once held
    obtain ⟨id, bytes⟩ := entry
    rw [map_cons, nodup_cons] at once
    obtain ⟨index, found, holds⟩ := held (id, bytes) (mem_cons_self ..)
    simp only at found holds
    obtain ⟨place, at_, again⟩ := position_of_mem (mem_of_getElem? found)
    obtain rfl := index_unique distinct found again
    have inside : index < slots.length := (List.getElem?_eq_some_iff.mp holds).1
    obtain ⟨left, takes, longer, content⟩ := ih
      (slots.set index none) (by simpa using length) once.2 (by
        intro other member
        obtain ⟨where_, known, value⟩ := held other (mem_cons_of_mem _ member)
        refine ⟨where_, known, ?_⟩
        have different : index ≠ where_ := by
          rintro rfl
          rw [found] at known
          exact once.1 (mem_map.mpr ⟨other, member, (Option.some.inj known).symm⟩)
        rwa [getElem?_set_ne different])
    refine ⟨left, ?_, longer, ?_⟩
    · simp only [takeCaptured, at_, holds, Option.join_some, takes]
      rfl
    · intro other candidate known
      rw [content other candidate known]
      by_cases same : index = other
      · subst same
        rw [found] at known
        cases known
        simp [once.1, getElem?_set_self inside]
      · have different : candidate ≠ id := by
          rintro rfl
          exact same (index_unique distinct found known)
        rw [getElem?_set_ne same, map_cons]
        simp only [mem_cons, different, false_or]

theorem mem_remaining {slots : Slots} {id : JobId} {bytes : Blob} :
    (id, bytes) ∈ remaining dependencies slots ↔
      Slotted dependencies slots id bytes := by
  simp only [Slotted, remaining, mem_filterMap, Prod.exists, Option.map_eq_some_iff, Prod.mk.injEq]
  constructor
  · rintro ⟨_, _, member, _, rfl, rfl, rfl⟩
    obtain ⟨index, inside, equal⟩ := mem_iff_getElem.mp member
    have lengths := length_zip.symm ▸ inside
    rw [getElem_zip, Prod.mk.injEq] at equal
    refine ⟨index, ?_, ?_⟩
    · rw [← equal.1]
      exact getElem?_eq_getElem (by omega)
    · rw [← equal.2]
      exact getElem?_eq_getElem (by omega)
  · rintro ⟨index, found, held⟩
    obtain ⟨left, rfl⟩ := List.getElem?_eq_some_iff.mp found
    obtain ⟨right, equal⟩ := List.getElem?_eq_some_iff.mp held
    refine ⟨_, some bytes, ?_, bytes, rfl, rfl, rfl⟩
    refine mem_iff_getElem.mpr ⟨index, by simp; omega, ?_⟩
    rw [getElem_zip, equal]

theorem remaining_keys (dependencies : List JobId) (slots : Slots) :
    ((remaining dependencies slots).map Prod.fst).Sublist dependencies := by
  induction dependencies generalizing slots with
  | nil => simp [remaining]
  | cons id rest ih =>
    cases slots with
    | nil => simp [remaining]
    | cons slot slots =>
      have tail := ih slots
      cases slot with
      | none => exact tail.cons id
      | some bytes => exact tail.cons_cons id

/-- A checkpoint keeps what was captured before, in front, and its slots hold
exactly its entries. -/
theorem checkpoint_ok (lengkap : Lengkap) {payload : FanInWatcherPayload}
    (valid : payload.Valid) {assembly : lengkap.Assembly}
    (length : (lengkap.intoSlots assembly).length = payload.dependencies.length)
    (kept : ∀ entry ∈ payload.collected,
      Slotted payload.dependencies (lengkap.intoSlots assembly) entry.1 entry.2) :
    ∃ fresh, checkpointFanInAssembly lengkap payload.dependencies
        payload.collected assembly = .ok (payload.collected ++ fresh) ∧
      ((payload.collected ++ fresh).map Prod.fst).Nodup ∧
      (∀ entry ∈ payload.collected ++ fresh, entry.1 ∈ payload.dependencies) ∧
      Holds payload.dependencies (payload.collected ++ fresh) (lengkap.intoSlots assembly) := by
  obtain ⟨left, takes, _, content⟩ := takeCaptured_ok valid.distinct
    payload.collected (lengkap.intoSlots assembly) length valid.once kept
  -- What is left belongs to the dependencies not captured before.
  have fresh : ∀ id bytes, (id, bytes) ∈ remaining payload.dependencies left ↔
        id ∉ payload.collected.map Prod.fst ∧
          Slotted payload.dependencies (lengkap.intoSlots assembly) id
            bytes := by
    intro id bytes
    rw [mem_remaining]
    constructor
    · rintro ⟨index, found, held⟩
      rw [content index id found] at held
      split at held
      · cases held
      · next absent => exact ⟨absent, index, found, held⟩
    · rintro ⟨absent, index, found, held⟩
      refine ⟨index, found, ?_⟩
      rw [content index id found, if_neg absent, held]
  refine ⟨remaining payload.dependencies left, ?_, ?_, ?_, ?_⟩
  · simp only [checkpointFanInAssembly, takes, Except.map]
  · rw [map_append]
    refine nodup_append.mpr ⟨valid.once, (remaining_keys _ _).nodup valid.distinct, ?_⟩
    rintro id captured other member rfl
    obtain ⟨⟨_, bytes⟩, listed, rfl⟩ := mem_map.mp member
    exact ((fresh _ bytes).mp listed).1 captured
  · intro entry member
    rcases mem_append.mp member with early | late
    · exact valid.known entry early
    · obtain ⟨_, index, found, _⟩ := (fresh entry.1 entry.2).mp late
      exact mem_of_getElem? found
  · refine ⟨length, ?_⟩
    intro index id found bytes
    rw [mem_append]
    constructor
    · intro held
      by_cases captured : id ∈ payload.collected.map Prod.fst
      · obtain ⟨⟨_, value⟩, listed, rfl⟩ := mem_map.mp captured
        obtain ⟨other, known, value'⟩ := kept _ listed
        obtain rfl := index_unique valid.distinct found known
        rw [held] at value'
        cases value'
        exact Or.inl listed
      · exact Or.inr ((fresh id bytes).mpr ⟨captured, index, found, held⟩)
    · rintro (listed | listed)
      · obtain ⟨other, known, held⟩ := kept _ listed
        obtain rfl := index_unique valid.distinct found known
        exact held
      · obtain ⟨_, other, known, held⟩ := (fresh id bytes).mp listed
        obtain rfl := index_unique valid.distinct found known
        exact held

end Worklane.Facade
