import Worklane.Core.Json
import Worklane.Postgres.Invariant
import Worklane.Sqlite.Fencing

/-!
# Leases on the SQL brokers

Receipt fencing for Postgres, and lease exclusivity for both SQL brokers.
Their clocks are cut off at `i64::MAX` nanoseconds; as long as readings stay
below that, a rounded lease end that has passed has passed.
-/

namespace Worklane.Postgres

open List

/-- Exclusivity with a clock that is cut off. -/
theorem exclusive_of_small {config : Config} {trace : List Entry}
    (run : LeaseRun (nanosClock config) trace) (monotone : ClockMonotone (trace.map Prod.fst))
    (small : ∀ entry ∈ trace, entry.1.now < i64Max) : Exclusive config trace := by
  apply run.exclusive_of_passed monotone
  intro entry member endsAt exceeded
  change nanos endsAt ≤ nanos entry.1.now at exceeded
  rw [nanos_of_lt (small entry member)] at exceeded
  unfold nanos at exceeded
  have below := small entry member
  omega

variable {receipt : ReservationReceipt}

theorem transaction_rejected {α : Type} {db : Database} {value : α → Value}
    {result : Database × Except Error α} {failure : Error}
    (rejected : (transaction db value result).2 = .error failure) :
    (transaction db value result).1.tables = db.tables := by
  obtain ⟨next, outcome⟩ := result
  cases outcome with
  | error => rfl
  | ok => cases rejected

theorem reserve_stale (serde : SerdeJson) (config : Config) {db : Database} {now : Nat}
    {mint : ReservationReceipt} {lane : Lane}
    (rejected : (reserve serde config db now mint lane).2 = .error (.staleReservation receipt)) :
    (reserve serde config db now mint lane).1.tables = db.tables := by
  unfold reserve at rejected ⊢
  split at rejected
  · -- The unbounded path fails only on an envelope it cannot decode.
    unfold reserveUnbounded at rejected
    split at rejected
    · cases rejected
    · next row _ =>
      cases decoded : decodeEnvelope serde row.envelope with
      | ok envelope =>
        rw [decoded] at rejected
        cases rejected
      | error failure =>
        rw [decoded] at rejected
        cases rejected
        exact absurd decoded Sqlite.decode_never_stale
  · exact transaction_rejected rejected

theorem onLane_rejected {db : Database} {lane : Lane} {outcome : Database × Reply} {failure : Error}
    (rejected : (onLane lane db outcome).2 = .error failure)
    (kept : outcome.2 = .error failure → outcome.1.tables = db.tables) :
    (onLane lane db outcome).1.tables = db.tables := by
  unfold onLane at rejected ⊢
  split at rejected
  · rfl
  · exact kept rejected

theorem perform_stale (serde : SerdeJson) (config : Config) (db : Database) (input : Input)
    (rejected : (perform serde config db input).2 = .error (.staleReservation receipt)) :
    (perform serde config db input).1.tables = db.tables := by
  obtain ⟨now, mint, call⟩ := input
  cases call with
  | enqueue | enqueueBatch | enqueueScheduled | ack | retry | defer | fail | requeue =>
    exact transaction_rejected rejected
  | reserve => exact onLane_rejected rejected fun stale => reserve_stale serde config stale
  | extend =>
    simp only [perform, extend] at rejected ⊢
    split at rejected
    · cases rejected
    · next absent => rw [if_neg absent]
  | purgeDeadLetters => exact onLane_rejected rejected (by rintro ⟨⟩)
  | readDeadLetters | countDeadLetters | pendingCount =>
    exact onLane_rejected rejected fun _ => rfl
  | removeSchedule scheduleId =>
    simp only [perform, removeSchedule] at rejected ⊢
    split at rejected
    · rfl
    · cases rejected
  | classify => rfl

/-- Receipt fencing of `PostgresBroker`. -/
theorem receipts_guard (serde : SerdeJson) (config : Config) (inputs : List Input)
    (fresh : FreshMints inputs) :
    Fenced config ((machine serde config).trace inputs) ∧
      ∀ db input receipt, (perform serde config db input).2 = .error (.staleReservation receipt) →
        (perform serde config db input).1.tables = db.tables := by
  have leases : LeaseRun (nanosClock config) ((machine serde config).trace inputs) :=
    ⟨_, (run_ready_and_leases serde config inputs fresh).2⟩
  exact ⟨leases.fenced, fun db input receipt => perform_stale serde config db input⟩

theorem receipts_guard_leased_twice : let config : Config := ⟨30, ⟨none, none⟩, none⟩
    let trace := (machine Json.serde config).trace leasedTwice
    FreshMints leasedTwice ∧ trace.map leaseAction = leasedTwiceActions ∧ Fenced config trace :=
  ⟨by decide, by decide +kernel, (receipts_guard Json.serde _ _ (by decide)).1⟩

/-- Lease exclusivity of `SqliteBroker` and `PostgresBroker`: a reserved job
is handed out again before its lease end only after a `retry` or `defer` with
its receipt. -/
theorem leases_exclusive (serde : SerdeJson) (config : Config) (inputs : List Input)
    (fresh : FreshMints inputs) (monotone : ClockMonotone inputs)
    (small : ∀ input ∈ inputs, input.now < i64Max) :
    Exclusive config ((Sqlite.machine serde config).trace inputs) ∧
      Exclusive config ((machine serde config).trace inputs) := by
  have readings : ∀ {State : Type} (broker : Lib.Machine State Input Reply),
      ∀ entry ∈ broker.trace inputs, entry.1.now < i64Max := by
    intro State broker entry member
    apply small
    rw [← broker.trace_inputs inputs]
    exact mem_map_of_mem member
  refine ⟨exclusive_of_small ⟨_, (Sqlite.run_tidy_and_leases serde config inputs fresh).2⟩ ?_
      (readings _), exclusive_of_small ⟨_, (run_ready_and_leases serde config inputs fresh).2⟩ ?_
      (readings _)⟩
  · rwa [Lib.Machine.trace_inputs]
  · rwa [Lib.Machine.trace_inputs]

theorem leases_exclusive_leased_twice : let config : Config := ⟨30, ⟨none, none⟩, none⟩
    FreshMints leasedTwice ∧ ClockMonotone leasedTwice ∧
      (∀ input ∈ leasedTwice, input.now < i64Max) ∧
      Exclusive config ((Sqlite.machine Json.serde config).trace leasedTwice) ∧
      Exclusive config ((machine Json.serde config).trace leasedTwice) :=
  ⟨by decide, by decide, by decide,
    leases_exclusive Json.serde _ _ (by decide) (by decide) (by decide)⟩

end Worklane.Postgres
