import Worklane.Core.Broker

/-!
# The delivery bound

What `max_deliveries` promises, for any broker: while a job stays live it is
returned at most so many times, and the `reserve` that would return it once
more dead-letters it.
-/

namespace Worklane

/-- The reply hands out the job of this id. -/
def returnsJob (id : JobId) : Reply → Bool
  | .ok (.reserved (some reservation)) => reservation.envelope.id = id
  | _ => false

theorem returnsJob_iff {id : JobId} {reply : Reply} :
    returnsJob id reply = true ↔ ∃ reservation : Reservation,
      reply = .ok (.reserved (some reservation)) ∧ reservation.envelope.id = id := by
  constructor
  · intro returns
    unfold returnsJob at returns
    split at returns
    · next reservation => exact ⟨reservation, rfl, of_decide_eq_true returns⟩
    · cases returns
  · rintro ⟨reservation, rfl, same⟩
    exact decide_eq_true same

/-- A broker by its delivery bound, with its live jobs and the calls that move
a job to the dead-letter store with an error. -/
structure BoundedBroker (State : Type) where
  machine : Option Nat → Lib.Machine State Input Reply
  live : State → JobId → Prop
  buries : Option Nat → State → Input → JobId → String → Prop

namespace BoundedBroker

variable {State : Type} (broker : BoundedBroker State)
variable (bound : Option Nat) (id : JobId)

/-- How often the job is returned by the calls that follow `past`. -/
def returned : List Input → List Input → Nat
  | _, [] => 0
  | past, input :: rest =>
    let machine := broker.machine bound
    let returns := returnsJob id (machine.step (machine.run past) input).2
    (if returns then 1 else 0) + returned (past ++ [input]) rest

/-- The job is live before each of the calls that follow `past`.  No call
both removes a job and stores it again, so it is one incarnation. -/
def LiveThroughout : List Input → List Input → Prop
  | _, [] => True
  | past, input :: rest =>
    broker.live ((broker.machine bound).run past) id ∧ LiveThroughout (past ++ [input]) rest

/-- The bound `max` is kept in every run: an incarnation is returned at most
`max` times, and a call that a broker without a bound would answer with it once
more dead-letters it. -/
def KeepsBound (max : Nat) : Prop :=
  ∀ past calls id, FreshMints (past ++ calls) → broker.LiveThroughout (some max) id past calls →
    broker.returned (some max) id past calls ≤ max ∧
      (broker.returned (some max) id past calls = max →
        let state := (broker.machine (some max)).run (past ++ calls)
        broker.live state id → ∀ input,
        returnsJob id ((broker.machine none).step state input).2 = true →
        broker.buries (some max) state input id (overDeliveredText max) ∧
          ¬ broker.live ((broker.machine (some max)).step state input).1 id)

/-- A count of deliveries that never falls while the job is live, that a
return raises, and that makes a call dead-letter the job once it is `max`. -/
structure Counts (max : Nat) (count : State → JobId → Nat → Prop) : Prop where
  total : ∀ state id, broker.live state id → ∃ n, count state id n
  grows : ∀ past input id n, FreshMints (past ++ [input]) →
    let machine := broker.machine (some max)
    let next := machine.step (machine.run past) input
    count (machine.run past) id n →
      (returnsJob id next.2 = true → n < max ∧ broker.live next.1 id) ∧
      (broker.live next.1 id → ∃ m, count next.1 id m ∧
        n + (if returnsJob id next.2 then 1 else 0) ≤ m)
  sweeps : ∀ past id n, FreshMints past →
    let state := (broker.machine (some max)).run past
    count state id n → max ≤ n → ∀ input,
      returnsJob id ((broker.machine none).step state input).2 = true →
      broker.buries (some max) state input id (overDeliveredText max) ∧
        ¬ broker.live ((broker.machine (some max)).step state input).1 id

variable {broker} {id} {max : Nat} {count : State → JobId → Nat → Prop}

theorem Counts.returned_le (counts : broker.Counts max count)
    {past calls : List Input} {n : Nat} (fresh : FreshMints (past ++ calls))
    (counted : count ((broker.machine (some max)).run past) id n)
    (live : broker.LiveThroughout (some max) id past calls) :
    broker.returned (some max) id past calls ≤ max - n ∧
      (broker.live ((broker.machine (some max)).run (past ++ calls)) id →
        ∃ m, count ((broker.machine (some max)).run (past ++ calls)) id m ∧
          n + broker.returned (some max) id past calls ≤ m) := by
  induction calls generalizing past n with
  | nil =>
    refine ⟨Nat.zero_le _, fun _ => ⟨n, ?_, Nat.le_refl _⟩⟩
    rwa [List.append_nil]
  | cons input rest ih =>
    rw [List.append_cons] at fresh ⊢
    have now : FreshMints (past ++ [input]) :=
      freshMints_sublist (List.sublist_append_left ..) fresh
    obtain ⟨returns, grows⟩ := counts.grows past input id n now counted
    simp only [returned]
    by_cases still : broker.live ((broker.machine (some max)).run (past ++ [input])) id
    · rw [Lib.Machine.run_concat] at still
      obtain ⟨m, next, more⟩ := grows still
      rw [← Lib.Machine.run_concat] at next
      obtain ⟨few, final⟩ := ih fresh next live.2
      constructor
      · split at more
        · next hit =>
          rw [if_pos hit]
          have under := (returns hit).1
          omega
        · next miss =>
          rw [if_neg miss]
          omega
      · intro last
        obtain ⟨total, counted, least⟩ := final last
        exact ⟨total, counted, by omega⟩
    · -- Nothing follows a call that ends the job.
      cases rest with
      | cons other later => exact absurd live.2.1 still
      | nil =>
        rw [List.append_nil]
        refine ⟨?_, fun last => absurd last still⟩
        rw [Lib.Machine.run_concat] at still
        have missed : ¬ returnsJob id ((broker.machine (some max)).step
            ((broker.machine (some max)).run past) input).2 = true :=
          fun hit => still (returns hit).2
        rw [if_neg missed]
        exact Nat.zero_le _

theorem Counts.keepsBound (counts : broker.Counts max count) :
    broker.KeepsBound max := by
  intro past calls id fresh throughout
  by_cases live : broker.live ((broker.machine (some max)).run past) id
  · obtain ⟨n, counted⟩ := counts.total _ id live
    obtain ⟨few, final⟩ := counts.returned_le fresh counted throughout
    refine ⟨few.trans (Nat.sub_le ..), ?_⟩
    intro reached state still input
    obtain ⟨m, total, least⟩ := final still
    exact counts.sweeps (past ++ calls) id m fresh total (by omega) input
  · cases calls with
    | cons input rest => exact absurd throughout.1 live
    | nil =>
      refine ⟨Nat.zero_le _, ?_⟩
      rw [List.append_nil]
      exact fun _ still => absurd still live

end BoundedBroker

end Worklane
