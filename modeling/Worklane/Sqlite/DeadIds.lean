import Worklane.Sql.DeadIds
import Worklane.Sqlite.Invariant

/-!
# Dead-lettering on SQLite

`fail` and the sweep of `reserve` are refused exactly when the job's id has a
record already.
-/

namespace Worklane.Sqlite

open List
open Worklane.Sql

section Calls

variable {serde : SerdeJson} {config : Config} {tables : Tables}

variable {now : Nat}

theorem fail_buries_iff (tidy : Tidy serde tables) (distinct : DistinctReceipts (holders tables))
    {receipt : ReservationReceipt} {row : JobRow} (live : row ∈ tables.jobs)
    (current : Current (nanos now) row receipt) (error : String) :
    Buries config.retention (nanos now) tables row error
        (fail serde config tables now receipt error) ↔
      tables.hasDead row.id = false := by
  have found := tidy.findValidRow_current distinct live current
  obtain ⟨before, after, split⟩ := append_of_mem live
  unfold fail resolve
  simp only [found, Bind.bind, Except.bind, deadLetterSeq_eq tidy split]
  by_cases taken : tables.hasDead row.id = true
  · simp only [if_pos taken, commit]
    constructor
    · intro buries
      cases buries.accepted
    · intro free
      rw [free] at taken
      cases taken
  · simp only [if_neg taken, commit]
    exact ⟨fun _ => by simpa using taken,
      fun _ => tidy.buries split config.retention _ error (nanos now) _⟩

variable {mint : ReservationReceipt}

/-- An error of the bounded `reserve` is about an over-delivered job of the
lane whose id has a record. -/
theorem reserveLoop_blames (tidy : Tidy serde tables) {lane : Lane} {max left : Nat}
    {failure : Error}
    (failed : reserveLoop serde config now mint lane max left tables = .error failure) :
    ∃ row ∈ tables.jobs, row.lane = lane ∧ max ≤ row.deliveries ∧ tables.hasDead row.id = true := by
  induction left generalizing tables with
  | zero => cases failed
  | succ left ih =>
    unfold reserveLoop at failed
    rcases nextVisible_cases tables lane (nanos now) with
      ⟨none, _⟩ | ⟨before, row, after, picked, best⟩
    · rw [none] at failed
      cases failed
    · have member : row ∈ tables.jobs := by simp [best.split]
      obtain ⟨envelope, decoded, stored⟩ := tidy.decode member
      obtain ⟨inLane, _, free⟩ := visible_iff.mp best.chosenEligible
      rw [picked] at failed
      simp only at failed
      split at failed
      · next exceeded =>
        rw [deadLetterSeq_eq tidy best.split] at failed
        split at failed
        · next taken =>
          exact ⟨row, member, inLane, Nat.lt_succ_iff.mp exceeded, taken⟩
        · next notDead =>
          have moved := tidy.deadMove best.split (by simpa using notDead) (lt_nextDeadSeq tables)
            config.retention (overDeliveredText max) (nanos now)
          obtain ⟨other, inside, place, many, buried⟩ := ih (tidy.remove best.split moved) failed
          obtain ⟨live, before⟩ := tidy.hasDead_of_swept best.split moved inside buried
          exact ⟨other, live, place, many, before⟩
      · rw [decoded] at failed
        cases failed

theorem reserve_blames (tidy : Tidy serde tables) {lane : Lane} {failure : Error}
    (failed : (reserve serde config tables now mint lane).2 = .error failure) :
    SweepBlocked config tables lane := by
  unfold reserve at failed
  split at failed
  · unfold reserveUnbounded at failed
    rcases nextVisible_cases tables lane (nanos now) with
      ⟨none, _⟩ | ⟨before, row, after, picked, best⟩
    · rw [none] at failed
      cases failed
    · obtain ⟨envelope, decoded, _⟩ := @Tidy.decode _ _ tidy row (by simp [best.split])
      simp only [picked, decoded] at failed
      cases failed
  · next max bounded =>
    cases looped : reserveLoop serde config now mint lane max maxDeadLetterSweep tables with
    | error _ =>
      exact ⟨max, bounded, reserveLoop_blames tidy looped⟩
    | ok result =>
      rw [looped] at failed
      cases failed

theorem run_apart (serde : SerdeJson) (config : Config)
    (inputs : List Input) (fresh : FreshMints inputs)
    (unburied : ∀ step ∈ (machine serde config).steps inputs, Unburied step.1 step.2.call) :
    Apart ((machine serde config).run inputs) := by
  induction inputs using List.reverseRecOn with
  | nil => exact apart_empty
  | append_singleton past input ih =>
    have earlier := freshMints_past past input fresh
    rw [Lib.Machine.steps_concat] at unburied
    obtain ⟨tidy, leases⟩ := run_tidy_and_leases serde config past earlier
    have apart := ih earlier fun step member => unburied step (mem_append_left _ member)
    rw [Lib.Machine.run_concat]
    exact (perform_isChanges config tidy leases.faithful.unique input).apart tidy apart
      (unburied ((machine serde config).run past, input) (by simp))

end Calls

end Worklane.Sqlite
