import Worklane.Core.Json
import Worklane.Memory.Lease
import Worklane.Sqlite.Invariant

/-!
# Receipt fencing

A receipt fences the holders of a job off from each other, in memory and in
SQLite: it is spent by one resolution, accepted only while its lease runs and
nobody else has been handed the job, and a call it is rejected for changes
nothing.
-/

namespace Worklane.Sqlite

open Worklane.Sql

variable {receipt : ReservationReceipt}

theorem decode_never_stale {serde : SerdeJson} {bytes : Blob} :
    decodeEnvelope serde bytes ≠ .error (.staleReservation receipt) := by
  unfold decodeEnvelope
  intro decoded
  split at decoded
  · cases decoded
  · split at decoded <;> cases decoded

theorem commit_rejected {α : Type} {tables : Tables} {value : α → Value}
    {result : Except Error (α × Tables)} {failure : Error}
    (rejected : (commit tables value result).2 = .error failure) :
    (commit tables value result).1 = tables := by
  cases result with
  | error => rfl
  | ok => cases rejected

theorem reserve_never_stale (serde : SerdeJson) (config : Config)
    {tables : Tables} {now : Nat} {mint : ReservationReceipt} {lane : Lane}
    (rejected : (reserve serde config tables now mint lane).2 =
      .error (.staleReservation receipt)) :
    (reserve serde config tables now mint lane).1 = tables := by
  unfold reserve at rejected ⊢
  split at rejected
  · -- The unbounded path fails only on an envelope it cannot decode.
    unfold reserveUnbounded at rejected
    split at rejected
    · cases rejected
    · simp only at rejected
      split at rejected
      · next failed =>
        cases rejected
        exact absurd failed decode_never_stale
      · cases rejected
  · exact commit_rejected rejected

theorem extend_rejected {config : Config} {tables : Tables} {now : Nat} {failure : Error}
    (rejected : (extend config tables now receipt).2 = .error failure) :
    (extend config tables now receipt).1 = tables := by
  unfold extend at rejected ⊢
  split
  · next found =>
    rw [if_pos found] at rejected
    cases rejected
  · rfl

theorem perform_stale (serde : SerdeJson) (config : Config) (tables : Tables) (input : Input)
    (rejected : (perform serde config tables input).2 = .error (.staleReservation receipt)) :
    (perform serde config tables input).1 = tables := by
  obtain ⟨now, mint, call⟩ := input
  cases call with
  | enqueue => exact commit_rejected rejected
  | enqueueBatch => exact commit_rejected rejected
  | reserve => exact reserve_never_stale serde config rejected
  | ack | retry | defer | fail => exact commit_rejected rejected
  | extend => exact extend_rejected rejected
  | requeue => exact commit_rejected rejected
  | enqueueScheduled => exact commit_rejected rejected
  | classify | readDeadLetters | countDeadLetters | pendingCount => rfl
  | purgeDeadLetters => cases rejected
  | removeSchedule => cases rejected

/-- Receipt fencing of `InMemoryBroker` and `SqliteBroker`. -/
theorem receipts_fence (serde : SerdeJson) (config : Config)
    (inputs : List Input) (fresh : FreshMints inputs) :
    Fenced config ((Memory.machine config).trace inputs) ∧
      Fenced config ((machine serde config).trace inputs) ∧
      (∀ inner input receipt, (Memory.perform Memory.releaseLease config inner input).reply =
          .error (.staleReservation receipt) →
        Memory.SameJobs inner (Memory.perform Memory.releaseLease config inner input).inner) ∧
      ∀ tables input receipt, (perform serde config tables input).2 =
          .error (.staleReservation receipt) →
        (perform serde config tables input).1 = tables := by
  refine ⟨?_, ?_, ?_, ?_⟩
  · exact (Memory.trace_leaseRun Memory.releaseLease_releases config inputs fresh).fenced
  · have leases : LeaseRun (nanosClock config) ((machine serde config).trace inputs) :=
      ⟨_, (run_tidy_and_leases serde config inputs fresh).2⟩
    exact leases.fenced
  · intro inner input receipt rejected
    exact Memory.perform_rejected config inner input rejected
  · intro tables input receipt rejected
    exact perform_stale serde config tables input rejected

theorem receipts_fence_leased_twice : let config : Config := ⟨30, ⟨none, none⟩, none⟩
    let memory := (Memory.machine config).trace leasedTwice
    let sqlite := (machine Json.serde config).trace leasedTwice
    FreshMints leasedTwice ∧ memory.map leaseAction = leasedTwiceActions ∧
      sqlite.map leaseAction = leasedTwiceActions ∧
      Fenced config memory ∧ Fenced config sqlite := by
  intro config memory sqlite
  have fresh : FreshMints leasedTwice := by decide
  have fenced := receipts_fence Json.serde config leasedTwice fresh
  exact ⟨fresh, by decide +kernel, by decide +kernel, fenced.1, fenced.2.1⟩

end Worklane.Sqlite
