import Worklane.Memory.Ranking

/-!
# What an empty answer of `reserve` means

The sweep of over-delivered jobs is bounded.  When `reserve` hands out
nothing, visible jobs remain exactly when the sweep fell short of them.
-/

namespace Worklane.Memory

open List

/-- A job that is due and not under an unexpired lease. -/
def Available (lane : Lane) (now : Nat) (stored : StoredJob) : Prop :=
  stored.envelope.lane = lane ∧ stored.availableAt ≤ now ∧
    ∀ endsAt, stored.leasedUntil = some endsAt → endsAt ≤ now

/-- The visible jobs outnumber the sweep, and those it takes are all over the
delivery bound. -/
def SweepFallsShort (config : Config) (inner : Inner) (lane : Lane) (now : Nat) : Prop :=
  maxDeadLetterSweep ≤ (leading (overBound config) (laneOrder inner lane now)).length ∧
    maxDeadLetterSweep < (laneOrder inner lane now).length

instance (config : Config) (inner : Inner) (lane : Lane) (now : Nat) :
    Decidable (SweepFallsShort config inner lane now) :=
  inferInstanceAs (Decidable (_ ∧ _))

section Empty

variable {config : Config} {inner : Inner} {lane : Lane} {now : Nat} {mint : ReservationReceipt}

theorem available_releasedJob {stored : StoredJob} : Available lane now (releasedJob now stored) ↔
      visible lane now (releasedJob now stored) = true := by
  rw [visible_iff, Available]
  constructor
  · rintro ⟨onLane, due, free⟩
    refine ⟨onLane, ?_, due⟩
    cases leased : (releasedJob now stored).leasedUntil with
    | none => rfl
    | some endsAt =>
      exfalso
      have exceeded := free endsAt leased
      unfold releasedJob at leased
      split at leased
      · cases leased
      · rename_i held
        exact held (by simp [expired, leased, exceeded])
  · rintro ⟨onLane, idle, due⟩
    refine ⟨onLane, due, fun endsAt leased => ?_⟩
    rw [idle] at leased
    cases leased

theorem laneOrder_nodup : (laneOrder inner lane now).Nodup := by
  refine (laneOrder_rankOrder inner lane now).perm.nodup_iff.mpr ?_
  refine ((placedJobs_places inner now).filter _).imp ?_
  rintro left right earlier rfl
  exact Nat.lt_irrefl _ earlier

theorem mem_laneOrder_placed {item : StoredJob × Nat} : item ∈ laneOrder inner lane now ↔
      item ∈ placedJobs inner now ∧ visible lane now item.1 = true := by
  rw [(laneOrder_rankOrder inner lane now).perm.mem_iff, mem_filter]

theorem unswept_available {swept : List (StoredJob × Nat)} :
    (∀ stored ∈ leaseNext config now mint (placedJobs inner now) swept none,
      ¬ Available lane now stored) ↔
      ∀ item ∈ laneOrder inner lane now, item ∈ swept := by
  constructor
  · intro gone item member
    by_contra spared
    obtain ⟨placed, seen⟩ := mem_laneOrder_placed.mp member
    obtain ⟨stored, found, same⟩ := mem_placedJobs.mp placed
    refine gone item.1 ?_ ?_
    · exact mem_map.mpr ⟨item, mem_filter.mpr ⟨placed, decide_eq_true spared⟩, rfl⟩
    · rw [same] at seen ⊢
      exact available_releasedJob.mpr seen
  · intro all stored member free
    obtain ⟨item, kept, rfl⟩ := mem_map.mp member
    obtain ⟨placed, spared⟩ := mem_filter.mp kept
    obtain ⟨original, found, same⟩ := mem_placedJobs.mp placed
    refine of_decide_eq_true spared (all item ?_)
    refine mem_laneOrder_placed.mpr ⟨placed, ?_⟩
    simp only [reduceCtorEq, if_false] at free
    rw [same] at free ⊢
    exact available_releasedJob.mp free

/-- The whole ranking is swept exactly when the sweep does not fall short. -/
theorem all_swept (missing : nextInOrder (overBound config) maxDeadLetterSweep
      (laneOrder inner lane now) = none) :
    (∀ item ∈ laneOrder inner lane now,
      item ∈ (leading (overBound config) (laneOrder inner lane now)).take
        maxDeadLetterSweep) ↔ ¬ SweepFallsShort config inner lane now := by
  have front : leading (overBound config) (laneOrder inner lane now) <+:
      laneOrder inner lane now := takeWhile_prefix _
  by_cases few : (leading (overBound config) (laneOrder inner lane now)).length < maxDeadLetterSweep
  · rw [nextInOrder, if_pos few, getElem?_eq_none_iff] at missing
    have whole := front.eq_of_length_le missing
    rw [take_of_length_le (Nat.le_of_lt few), whole]
    exact iff_of_true (fun _ member => member) fun short => absurd short.1 (Nat.not_le.mpr few)
  · have many := Nat.not_lt.mp few
    rw [take_leading many]
    by_cases more : maxDeadLetterSweep < (laneOrder inner lane now).length
    · refine iff_of_false ?_ (fun fits => fits ⟨many, more⟩)
      intro all
      have last := all _ (getElem_mem more)
      obtain ⟨place, within, same⟩ := mem_take_iff_getElem.mp last
      have equal := (List.Nodup.getElem_inj_iff laneOrder_nodup).mp same
      omega
    · rw [take_of_length_le (Nat.not_lt.mp more)]
      exact iff_of_true (fun _ member => member) fun short => more short.2

theorem available_iff_laneOrder : (∀ stored ∈ inner.jobs, ¬ Available lane now stored) ↔
      laneOrder inner lane now = [] := by
  rw [eq_nil_iff_forall_not_mem]
  constructor
  · rintro gone ⟨job, place⟩ member
    obtain ⟨stored, found, _, onLane, free, due⟩ := mem_laneOrder.mp member
    exact gone stored (mem_of_getElem? found) ⟨onLane, due, free⟩
  · rintro gone stored member ⟨onLane, due, free⟩
    obtain ⟨place, found⟩ := mem_iff_getElem?.mp member
    exact gone (releasedJob now stored, place)
      (mem_laneOrder.mpr ⟨stored, found, rfl, onLane, free, due⟩)

/-- When `reserve` hands out nothing, no visible job is left exactly when the
sweep did not fall short, and there was none before it exactly when the sweep
took nothing. -/
theorem reserve_empty (empty : (reserve releaseLease config inner now mint lane).reply =
      .ok (.reserved none)) :
    ((∀ stored ∈ (reserve releaseLease config inner now mint lane).inner.jobs,
        ¬ Available lane now stored) ↔
      ¬ SweepFallsShort config inner lane now) ∧
    ((∀ stored ∈ inner.jobs, ¬ Available lane now stored) ↔
      leading (overBound config) (laneOrder inner lane now) = []) := by
  obtain ⟨state, reply⟩ := reserve_ranked config inner now mint lane
  have missing : nextInOrder (overBound config) maxDeadLetterSweep
      (laneOrder inner lane now) = none := by
    rw [reply] at empty
    exact Option.map_eq_none_iff.mp (Value.reserved.inj (Except.ok.inj empty))
  constructor
  · rw [state, missing]
    exact unswept_available.trans (all_swept missing)
  · rw [available_iff_laneOrder]
    constructor
    · intro none
      rw [none]
      rfl
    · intro untouched
      rw [nextInOrder, untouched, if_pos (by decide)] at missing
      exact length_eq_zero_iff.mp (Nat.le_zero.mp (getElem?_eq_none_iff.mp missing))

end Empty

end Worklane.Memory
