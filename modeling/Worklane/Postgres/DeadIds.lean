import Worklane.Core.Json
import Worklane.Postgres.Invariant
import Worklane.Sqlite.DeadIds

/-!
# Dead-lettering on Postgres

The same unique index refuses the same jobs; besides, an error text with a NUL
cannot be stored.
-/

namespace Worklane.Postgres

open List
open Worklane.Sql

theorem checkText_overDelivered (max : Nat) : checkText (overDeliveredText max) = .ok () := by
  have digits : '\x00' ∉ Nat.toDigits 10 max := by
    intro member
    have digit := Nat.isDigit_of_mem_toDigits (by decide) (by decide) member
    revert digit
    decide
  unfold checkText overDeliveredText
  rw [if_neg]
  simp only [String.toList_append, mem_append, Nat.toString_eq_repr, Nat.toList_repr, not_or]
  exact ⟨⟨by decide, digits⟩, by decide⟩

section Calls

variable {serde : SerdeJson} {config : Config} {db : Database}

variable {now : Nat}

theorem fail_buries_iff (ready : Ready serde db) (distinct : DistinctReceipts (holders db.tables))
    {receipt : ReservationReceipt} {row : JobRow}
    (live : row ∈ db.tables.jobs)
    (current : Current (nanos now) row receipt) (error : String) :
    Buries config.retention (nanos now) db.tables row error
        ((fail serde config db now receipt error).1.tables,
          (fail serde config db now receipt error).2) ↔
      db.tables.hasDead row.id = false ∧ '\x00' ∉ error.toList := by
  have found := ready.tidy.findValidRow_current distinct live current
  obtain ⟨before, after, split⟩ := append_of_mem live
  unfold fail resolve
  simp only [findValidRowLocked_eq ready.tidy distinct, found,
    deadLetterSeq_eq ready.tidy split, checkText]
  by_cases null : '\x00' ∈ error.toList
  · simp only [if_pos null, transaction]
    exact ⟨fun buries => (by cases buries.accepted), fun free => absurd null free.2⟩
  · simp only [if_neg null]
    by_cases taken : db.tables.hasDead row.id = true
    · simp only [if_pos taken, transaction]
      constructor
      · intro buries
        cases buries.accepted
      · intro free
        rw [free.1] at taken
        cases taken
    · simp only [if_neg taken, transaction]
      exact ⟨fun _ => ⟨by simpa using taken, null⟩, fun _ =>
        ready.tidy.buries split config.retention _ error (nanos now) _⟩

theorem deadLetterSeq_swept (ready : Ready serde db) {before after : List JobRow} {row : JobRow}
    (split : db.tables.jobs = before ++ row :: after) (error : String)
    (now : Nat) :
    (∃ next failure, deadLetterSeq serde config db row error now = (next, .error failure) ∧
          (checkText error = .ok () → db.tables.hasDead row.id = true)) ∨
      ∃ keys dead, DeadMove serde db.tables.dead row.id dead ∧
        deadLetterSeq serde config db row error now =
          ({ db with
              tables :=
                { db.tables with
                  jobs := before ++ after
                  uniqueKeys := keys
                  dead := dead }
              deadSeq := db.deadSeq + 1 },
            .ok ()) := by
  rw [deadLetterSeq_eq ready.tidy split]
  cases checkText error with
  | error failure => exact Or.inl ⟨_, _, rfl, fun sent => nomatch sent⟩
  | ok _ =>
    simp only
    split
    · next taken => exact Or.inl ⟨_, _, rfl, fun _ => taken⟩
    · next free =>
      exact Or.inr ⟨_, _, ready.tidy.deadMove split
        (by simpa using free) ready.numbered.nextDead config.retention
        error now, rfl⟩

theorem swept_ready (ready : Ready serde db) {before after : List JobRow}
    {row : JobRow} (split : db.tables.jobs = before ++ row :: after) {error : String}
    {next : Database}
    (swept : deadLetterSeq serde config db row error (nanos now) =
      (next, .ok ())) (free : Free (nanos now) row) : Ready serde next := by
  have transacts : Transacts serde config now ⟨⟨0⟩⟩ [] db (fun _ => [])
      (deadLetterSeq serde config db row error (nanos now)) :=
    deadLetterSeq_transacts ready split error
      fun dead burial => Changes.single (.sweep split free rfl burial)
  rw [swept] at transacts
  exact (transacts.commits () rfl).ready ready

variable {mint : ReservationReceipt}

/-- As on SQLite: an error of the bounded `reserve` is about a job whose id
has a record. -/
theorem reserveLoop_blames (ready : Ready serde db) {lane : Lane} {max left : Nat} {failure : Error}
    (failed : (reserveLoop serde config now mint lane max left db).2 = .error failure) :
    ∃ row ∈ db.tables.jobs, row.lane = lane ∧ max ≤ row.deliveries ∧
      db.tables.hasDead row.id = true := by
  induction left generalizing db with
  | zero => cases failed
  | succ left ih =>
    unfold reserveLoop at failed
    rcases nextVisible_cases db.tables lane (nanos now) with
      ⟨none, _⟩ | ⟨before, row, after, picked, best⟩
    · rw [none] at failed
      cases failed
    · have member : row ∈ db.tables.jobs := by simp [best.split]
      obtain ⟨envelope, decoded, stored⟩ := ready.tidy.decode member
      obtain ⟨inLane, _, free⟩ := visible_iff.mp best.chosenEligible
      rw [picked] at failed
      simp only at failed
      split at failed
      · next exceeded =>
        rcases @deadLetterSeq_swept _ config _ ready _ _ _ best.split
            (overDeliveredText max) (nanos now) with
          ⟨_, _, refused, taken⟩ | ⟨keys, dead, moved, swept⟩
        · exact ⟨row, member, inLane, Nat.lt_succ_iff.mp exceeded,
            taken (checkText_overDelivered max)⟩
        · rw [swept] at failed
          obtain ⟨other, inside, place, many, buried⟩ :=
            ih (swept_ready ready best.split swept free) failed
          obtain ⟨live, before⟩ := ready.tidy.hasDead_of_swept best.split moved inside buried
          exact ⟨other, live, place, many, before⟩
      · rw [decoded] at failed
        cases failed

theorem reserve_blames (ready : Ready serde db) {lane : Lane} {failure : Error}
    (failed : (reserve serde config db now mint lane).2 = .error failure) :
    SweepBlocked config db.tables lane := by
  unfold reserve at failed
  split at failed
  · unfold reserveUnbounded at failed
    rcases nextVisible_cases db.tables lane (nanos now) with
      ⟨none, _⟩ | ⟨before, row, after, picked, best⟩
    · rw [none] at failed
      cases failed
    · obtain ⟨envelope, decoded, _⟩ := @Tidy.decode _ _ ready.tidy row (by simp [best.split])
      simp only [picked, decoded] at failed
      cases failed
  · next max bounded =>
    unfold transaction at failed
    split at failed
    · cases failed
    · next looped =>
      exact ⟨max, bounded, reserveLoop_blames ready looped⟩

theorem run_apart (serde : SerdeJson) (config : Config)
    (inputs : List Input) (fresh : FreshMints inputs)
    (unburied : ∀ step ∈ (machine serde config).steps inputs, Unburied step.1.tables step.2.call) :
    Apart ((machine serde config).run inputs).tables := by
  induction inputs using List.reverseRecOn with
  | nil => exact apart_empty
  | append_singleton past input ih =>
    have earlier := freshMints_past past input fresh
    rw [Lib.Machine.steps_concat] at unburied
    obtain ⟨ready, leases⟩ := run_ready_and_leases serde config past earlier
    have apart := ih earlier fun step member => unburied step (mem_append_left _ member)
    rw [Lib.Machine.run_concat]
    exact (perform_performs config ready leases.faithful.unique input).changes.apart ready.tidy
      apart (unburied ((machine serde config).run past, input) (by simp))

end Calls

/-! ## The guarantee -/

/-- `fail` buries a current job exactly when its id has no record, and an error
of `reserve` comes from a job of the lane that is over its deliveries and whose
id has one.  In a run that never enqueues under the id of a record no live job
is of that kind. -/
theorem dead_lettering_succeeds (serde : SerdeJson) (config : Config)
    (inputs : List Input) (fresh : FreshMints inputs) :
    let tables := (Sqlite.machine serde config).run inputs
    let db := (machine serde config).run inputs
    (∀ now receipt row error, row ∈ tables.jobs → Current (nanos now) row receipt →
      (Buries config.retention (nanos now) tables row error
          (Sqlite.fail serde config tables now receipt error) ↔
        tables.hasDead row.id = false)) ∧
    (∀ now receipt row error, row ∈ db.tables.jobs → Current (nanos now) row receipt →
      (Buries config.retention (nanos now) db.tables row error
          ((fail serde config db now receipt error).1.tables,
            (fail serde config db now receipt error).2) ↔
        db.tables.hasDead row.id = false ∧ '\x00' ∉ error.toList)) ∧
    (∀ now mint lane failure,
      ((Sqlite.reserve serde config tables now mint lane).2 = .error failure →
        SweepBlocked config tables lane) ∧
      ((reserve serde config db now mint lane).2 = .error failure →
        SweepBlocked config db.tables lane)) ∧
    ((∀ step ∈ (Sqlite.machine serde config).steps inputs, Unburied step.1 step.2.call) →
      Apart tables ∧ ∀ now mint lane failure, (Sqlite.reserve serde config tables now mint lane).2 ≠
          .error failure) ∧
    ((∀ step ∈ (machine serde config).steps inputs, Unburied step.1.tables step.2.call) →
      Apart db.tables ∧ ∀ now mint lane failure,
        (reserve serde config db now mint lane).2 ≠ .error failure) := by
  intro tables db
  obtain ⟨tidy, leases⟩ := Sqlite.run_tidy_and_leases serde config inputs fresh
  obtain ⟨ready, locks⟩ := run_ready_and_leases serde config inputs fresh
  refine ⟨?_, ?_, ?_, ?_, ?_⟩
  · intro now receipt row error live current
    exact Sqlite.fail_buries_iff tidy leases.faithful.unique live current error
  · intro now receipt row error live current
    exact fail_buries_iff ready locks.faithful.unique live current error
  · intro now mint lane failure
    exact ⟨Sqlite.reserve_blames tidy, reserve_blames ready⟩
  · intro unburied
    have apart := Sqlite.run_apart serde config inputs fresh unburied
    refine ⟨apart, ?_⟩
    intro now mint lane failure failed
    obtain ⟨_, _, row, live, _, _, buried⟩ := Sqlite.reserve_blames tidy failed
    rw [apart row live] at buried
    cases buried
  · intro unburied
    have apart := run_apart serde config inputs fresh unburied
    refine ⟨apart, ?_⟩
    intro now mint lane failure failed
    obtain ⟨_, _, row, live, _, _, buried⟩ := reserve_blames ready failed
    rw [apart row live] at buried
    cases buried

/-- One job, handed out once, under a bound of one delivery. -/
theorem dead_lettering_succeeds_one_job : let config : Config := ⟨30, ⟨none, none⟩, some 1⟩
    let inputs : List Input :=
      [⟨1, ⟨⟨0⟩⟩, .enqueue ⟨⟨⟨1⟩⟩, ⟨"mail"⟩, "send", [], 3, 0, none, 0, none⟩⟩,
        ⟨2, ⟨⟨7⟩⟩, .reserve ⟨"mail"⟩⟩]
    let tables := (Sqlite.machine Json.serde config).run inputs
    FreshMints inputs ∧ (∃ row ∈ tables.jobs, Current (nanos 3) row ⟨⟨7⟩⟩ ∧
        Buries config.retention (nanos 3) tables row "boom"
          (Sqlite.fail Json.serde config tables 3 ⟨⟨7⟩⟩ "boom")) ∧
      ∀ now mint lane failure, (reserve Json.serde config
          ((machine Json.serde config).run inputs) now mint lane).2 ≠
            .error failure := by
  intro config inputs tables
  have fresh : FreshMints inputs := by decide
  obtain ⟨buries, _, _, _, reserves⟩ := dead_lettering_succeeds Json.serde config inputs fresh
  have unburied : ∀ step ∈ (machine Json.serde config).steps inputs,
      Unburied step.1.tables step.2.call := by
    decide +kernel
  have handed : ∃ row ∈ tables.jobs, row.receipt = some ⟨⟨7⟩⟩ ∧
      row.leasedUntil = some 32 ∧ tables.hasDead row.id = false := by
    decide +kernel
  obtain ⟨row, live, held, ends, free⟩ := handed
  have current : Current (nanos 3) row ⟨⟨7⟩⟩ := ⟨held, 32, ends, by decide⟩
  exact ⟨fresh, ⟨row, live, current, (buries 3 ⟨⟨7⟩⟩ row "boom" live current).mpr free⟩,
    (reserves unburied).2⟩

/-- A job id that was dead-lettered is enqueued again, which both brokers
accept; the new job cannot be dead-lettered, by `fail` or by the sweep, and
the sweep keeps the next job of the lane from being reserved. -/
theorem dead_lettering_blocks_lane :
    let job : NewJob := ⟨⟨⟨1⟩⟩, ⟨"mail"⟩, "send", [], 3, 0, none, 0, none⟩
    let other : NewJob := ⟨⟨⟨2⟩⟩, ⟨"mail"⟩, "send", [], 3, 0, none, 0, none⟩
    let config : Config := ⟨30, ⟨none, none⟩, some 1⟩
    let inputs : List Input :=
      [⟨1, ⟨⟨0⟩⟩, .enqueue job⟩, ⟨2, ⟨⟨7⟩⟩, .reserve ⟨"mail"⟩⟩,
        ⟨3, ⟨⟨0⟩⟩, .fail ⟨⟨7⟩⟩ "first"⟩, ⟨4, ⟨⟨0⟩⟩, .enqueue job⟩,
        ⟨5, ⟨⟨8⟩⟩, .reserve ⟨"mail"⟩⟩, ⟨6, ⟨⟨0⟩⟩, .fail ⟨⟨8⟩⟩ "second"⟩,
        ⟨7, ⟨⟨0⟩⟩, .enqueue other⟩, ⟨60, ⟨⟨9⟩⟩, .reserve ⟨"mail"⟩⟩]
    FreshMints inputs ∧ ((Sqlite.machine Json.serde config).replies inputs).drop 5 =
        [.error (Sqlite.uniqueFailed "dead.id"), .ok (.jobId ⟨⟨2⟩⟩),
          .error (Sqlite.uniqueFailed "dead.id")] ∧
      ((machine Json.serde config).replies inputs).drop 5 =
        [.error (pgErr .uniqueViolation), .ok (.jobId ⟨⟨2⟩⟩), .error (pgErr .uniqueViolation)] := by
  decide +kernel

end Worklane.Postgres
