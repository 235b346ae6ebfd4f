import Worklane.Core.Broker
import Worklane.Lib.Lease

/-!
# Leases as seen from outside

What a caller sees of a lease: a reserve hands out a job under a receipt,
`ack`, `retry`, `defer` and `fail` settle the receipt, `extend` renews it.
The guarantees of the contract are stated over the trace of calls and replies
alone; a broker has them as soon as its trace is a run of the lease table.
-/

namespace Worklane

open List
open Lib.Lease (Action)

/-- What a call is seen to do to a lease. -/
def leaseAction : Entry → Action JobId ReservationReceipt
  | (input, .ok value) =>
    match input.call, value with
    | .reserve _, .reserved (some reservation) =>
      .grant reservation.envelope.id reservation.receipt
    | .ack receipt, _ => .settle receipt
    | .retry receipt _, _ => .settle receipt
    | .defer receipt _, _ => .settle receipt
    | .fail receipt _, _ => .settle receipt
    | .extend receipt, _ => .renew receipt
    | _, _ => .idle
  | (_, .error _) => .idle

/-- The log of a trace, with clock readings as the broker rounds them. -/
def leaseLog (round : Nat → Nat) (entries : List Entry) :
    Lib.Lease.Log JobId ReservationReceipt :=
  entries.map fun entry => (round entry.1.now, leaseAction entry)

@[simp]
theorem leaseLog_append (round : Nat → Nat) (first second : List Entry) :
    leaseLog round (first ++ second) = leaseLog round first ++ leaseLog round second :=
  map_append

@[simp]
theorem leaseLog_cons (round : Nat → Nat) (entry : Entry) (rest : List Entry) :
    leaseLog round (entry :: rest) =
      (round entry.1.now, leaseAction entry) :: leaseLog round rest := rfl

/-- The lease a broker gives at `now` ends here. -/
def Config.leaseUntil (config : Config) (now : Nat) : Nat :=
  saturatingAdd now config.lease

/-- The lease end of a receipt: set by the reserve that handed it out and by
every successful `extend` since. -/
def receiptEnd (config : Config) (entries : List Entry)
    (receipt : ReservationReceipt) : Option Nat :=
  Lib.Lease.leaseEnd config.leaseUntil (leaseLog id entries) receipt

/-- A successful `retry` or `defer` with this receipt. -/
def givesBack (receipt : ReservationReceipt) (entry : Entry) : Bool :=
  match entry.1.call, entry.2 with
  | .retry given _, .ok _ => decide (given = receipt)
  | .defer given _, .ok _ => decide (given = receipt)
  | _, _ => false

/-- A successful `ack` or `fail` with this receipt: the stored job is gone,
and a later job with its id is another stored job. -/
def removes (receipt : ReservationReceipt) (entry : Entry) : Bool :=
  match entry.1.call, entry.2 with
  | .ack given, .ok _ => decide (given = receipt)
  | .fail given _, .ok _ => decide (given = receipt)
  | _, _ => false

variable {receipt : ReservationReceipt}

theorem leaseAction_settle {entry : Entry} (settles : leaseAction entry = .settle receipt) :
    givesBack receipt entry = true ∨ removes receipt entry = true := by
  obtain ⟨⟨now, mint, call⟩, reply⟩ := entry
  unfold leaseAction at settles
  split at settles
  · next input value equal =>
    cases equal
    simp only at settles
    split at settles <;> simp_all [givesBack, removes]
  · cases settles

theorem leaseAction_grant {input : Input} {reply : Reply} {id : JobId}
    (grants : leaseAction (input, reply) = .grant id receipt) :
    ∃ lane reservation, input.call = .reserve lane ∧ reply = .ok (.reserved (some reservation)) ∧
      reservation.envelope.id = id ∧ reservation.receipt = receipt := by
  cases reply with
  | error => cases grants
  | ok value =>
    simp only [leaseAction] at grants
    split at grants <;> simp_all

/-- The lease action of what `reserve` returns. -/
def grantOf (handed : Option Reservation) : List (Action JobId ReservationReceipt) :=
  (handed.map fun reservation =>
    .grant reservation.envelope.id reservation.receipt).toList

theorem leaseAction_reserve (now : Nat) (mint : ReservationReceipt)
    (lane : Lane) (handed : Option Reservation) :
    (leaseAction (⟨now, mint, .reserve lane⟩, .ok (.reserved handed))).active = grantOf handed := by
  cases handed <;> rfl

/-- `id` was handed out under `receipt`, and by no reserve since. -/
def HandedLast (past : List Entry) (id : JobId) (receipt : ReservationReceipt) : Prop :=
  ∃ before handed after, past = before ++ handed :: after ∧ leaseAction handed = .grant id receipt ∧
    ∀ entry ∈ after, ∀ other, leaseAction entry ≠ .grant id other

/-- Receipt fencing, over a trace. -/
structure Fenced (config : Config) (trace : List Entry) : Prop where
  once : ∀ receipt, trace.Pairwise fun earlier later =>
    leaseAction earlier = .settle receipt → leaseAction later ≠ .settle receipt
  current : ∀ past entry future receipt, trace = past ++ entry :: future →
    (leaseAction entry = .settle receipt ∨ leaseAction entry = .renew receipt) →
    ∃ id endsAt, HandedLast past id receipt ∧ receiptEnd config past receipt = some endsAt ∧
      entry.1.now < endsAt

/-- Lease exclusivity, over a trace. -/
def Exclusive (config : Config) (trace : List Entry) : Prop :=
  ∀ past first between second future id receipt other,
    trace = past ++ first :: between ++ second :: future →
    leaseAction first = .grant id receipt →
    leaseAction second = .grant id other →
    (∀ entry ∈ between, removes receipt entry = false) →
    ∃ endsAt, receiptEnd config (past ++ first :: between) receipt = some endsAt ∧
      (second.1.now < endsAt → ∃ entry ∈ between, givesBack receipt entry = true)

/-- A job is handed out and kept, and handed out once more after its lease;
then both receipts are presented. -/
def leasedTwice : List Input :=
  [⟨1, ⟨⟨0⟩⟩, .enqueue ⟨⟨⟨1⟩⟩, ⟨"mail"⟩, "send", [1, 2], 3, 0, some "key", 5, none⟩⟩,
    ⟨7, ⟨⟨7⟩⟩, .reserve ⟨"mail"⟩⟩, ⟨20, ⟨⟨0⟩⟩, .extend ⟨⟨7⟩⟩⟩, ⟨90, ⟨⟨8⟩⟩, .reserve ⟨"mail"⟩⟩,
    ⟨95, ⟨⟨0⟩⟩, .ack ⟨⟨7⟩⟩⟩, ⟨96, ⟨⟨0⟩⟩, .retry ⟨⟨8⟩⟩ 1⟩]

/-- The first receipt is stale when it is presented. -/
def leasedTwiceActions : List (Action JobId ReservationReceipt) :=
  [.idle, .grant ⟨⟨1⟩⟩ ⟨⟨7⟩⟩, .renew ⟨⟨7⟩⟩, .grant ⟨⟨1⟩⟩ ⟨⟨8⟩⟩, .idle, .settle ⟨⟨8⟩⟩]

/-- What a broker makes of its clock: how it rounds a reading, and the lease
end it computes from the rounded reading. -/
structure LeaseClock (config : Config) where
  round : Nat → Nat
  round_mono : ∀ early late, early ≤ late → round early ≤ round late
  deadline : Nat → Nat
  deadline_round : ∀ now, deadline (round now) = round (config.leaseUntil now)

/-- Readings are taken as they are. -/
def exactClock (config : Config) : LeaseClock config where
  round := id
  round_mono := fun _ _ ordered => ordered
  deadline := config.leaseUntil
  deadline_round := fun _ => rfl

/-- Readings are integer nanoseconds, saturating. -/
def nanosClock (config : Config) : LeaseClock config where
  round := nanos
  round_mono := fun _ _ ordered => nanos_mono ordered
  deadline := fun now => nanos (now + config.lease)
  deadline_round := by
    intro now
    simp only [Config.leaseUntil, saturatingAdd, nanos, durationMax, i64Max]
    omega

/-- The trace is a run of the lease table. -/
def LeaseRun {config : Config} (clock : LeaseClock config) (trace : List Entry) : Prop :=
  ∃ holders, Lib.Lease.Runs clock.deadline (leaseLog clock.round trace) holders

variable {config : Config}

theorem LeaseRun.shorten {clock : LeaseClock config} {first second : List Entry}
    (run : LeaseRun clock (first ++ second)) : LeaseRun clock first := by
  obtain ⟨holders, runs⟩ := run
  rw [leaseLog_append] at runs
  exact runs.shorten

theorem leaseEnd_round (clock : LeaseClock config)
    (entries : List Entry) (receipt : ReservationReceipt) :
    Lib.Lease.leaseEnd clock.deadline (leaseLog clock.round entries) receipt =
      (receiptEnd config entries receipt).map clock.round := by
  induction entries using List.reverseRecOn with
  | nil => rfl
  | append_singleton past entry ih =>
    rw [receiptEnd] at ih ⊢
    rw [leaseLog_append, leaseLog_append, leaseLog_cons, leaseLog_cons]
    simp only [leaseLog, map_nil] at ih ⊢
    rw [Lib.Lease.leaseEnd_concat, Lib.Lease.leaseEnd_concat, ih]
    cases action : leaseAction entry with
    | idle => rfl
    | settle => rfl
    | grant job granted =>
      by_cases same : granted = receipt <;>
        simp [Lib.Lease.entryEnd, same, clock.deadline_round]
    | renew renewed =>
      by_cases same : renewed = receipt <;>
        simp [Lib.Lease.entryEnd, same, clock.deadline_round]

theorem handedLast_of_standing {round : Nat → Nat} {past : List Entry} {id : JobId}
    (standing : Lib.Lease.Standing (leaseLog round past) id receipt) :
    HandedLast past id receipt := by
  obtain ⟨before, time, after, split, later⟩ := standing.granted
  obtain ⟨before', rest, rfl, _, restSplit⟩ := map_eq_append_iff.mp split
  obtain ⟨handed, after', rfl, granted, rfl⟩ := map_eq_cons_iff.mp restSplit
  refine ⟨before', handed, after', rfl, congrArg Prod.snd granted, ?_⟩
  intro entry member other
  exact later (round entry.1.now, leaseAction entry) (mem_map_of_mem member) other

theorem not_settled_of_standing {round : Nat → Nat} {past : List Entry} {id : JobId}
    (standing : Lib.Lease.Standing (leaseLog round past) id receipt) :
    ∀ entry ∈ past, leaseAction entry ≠ .settle receipt := by
  intro entry member settles
  apply standing.unsettled (round entry.1.now)
  rw [← settles]
  exact mem_map_of_mem member

theorem LeaseRun.fenced {clock : LeaseClock config}
    {trace : List Entry} (run : LeaseRun clock trace) :
    Fenced config trace := by
  constructor
  · intro receipt
    induction trace using List.reverseRecOn with
    | nil => exact List.Pairwise.nil
    | append_singleton past entry ih =>
      rw [pairwise_append]
      refine ⟨ih run.shorten, pairwise_singleton .., ?_⟩
      intro earlier member later inside first second
      rw [mem_singleton.mp inside] at second
      obtain ⟨holders, runs⟩ := run
      rw [leaseLog_append] at runs
      obtain ⟨id, endsAt, standing, _⟩ := runs.accepted (Or.inl second)
      exact not_settled_of_standing standing earlier member first
  · rintro past entry future receipt rfl accepts
    obtain ⟨holders, runs⟩ := run
    rw [leaseLog_append, leaseLog_cons] at runs
    obtain ⟨id, rounded, standing, ends, current⟩ := runs.accepted accepts
    rw [leaseEnd_round] at ends
    obtain ⟨endsAt, unrounded, rfl⟩ := Option.map_eq_some_iff.mp ends
    refine ⟨id, endsAt, handedLast_of_standing standing, unrounded, ?_⟩
    apply Nat.lt_of_not_le
    intro exceeded
    have ordered := clock.round_mono endsAt entry.1.now exceeded
    omega

/-- Exclusivity for a clock that only shows a lease end as passed when it has
passed. -/
theorem LeaseRun.exclusive_of_passed {clock : LeaseClock config} {trace : List Entry}
    (run : LeaseRun clock trace) (monotone : ClockMonotone (trace.map Prod.fst))
    (passed : ∀ entry ∈ trace, ∀ endsAt,
      clock.round endsAt ≤ clock.round entry.1.now → endsAt ≤ entry.1.now) :
    Exclusive config trace := by
  rintro past first between second future job receipt other rfl handed again stored
  obtain ⟨holders, runs⟩ : LeaseRun clock (past ++ first :: between ++ [second]) := by
    apply LeaseRun.shorten
    simpa using run
  have granted : Lib.Lease.Granted (leaseLog id (past ++ first :: between)) receipt :=
    ⟨first.1.now, job, by simp [handed]⟩
  obtain ⟨endsAt, ends⟩ := Lib.Lease.exists_leaseEnd_of_granted config.leaseUntil granted
  refine ⟨endsAt, ends, fun early => ?_⟩
  by_contra kept
  push Not at kept
  -- Nobody gave the lease back, so the lease table has it to its end.
  have unsettled : ∀ time, (time, Action.settle receipt) ∉ leaseLog clock.round between := by
    intro time member
    obtain ⟨entry, inside, equal⟩ := mem_map.mp member
    rcases leaseAction_settle (congrArg Prod.snd equal) with given | removed
    · exact kept entry inside given
    · rw [stored entry inside] at removed
      cases removed
  have ordered : (leaseLog clock.round (first :: between ++ [second])).Pairwise
      fun earlier later => earlier.1 ≤ later.1 := by
    apply pairwise_map.mpr
    apply Pairwise.sublist _ ((pairwise_map.mp monotone).imp fun before =>
      clock.round_mono _ _ before)
    rw [append_assoc]
    exact sublist_append_of_sublist_right ((List.Sublist.refl _).append (by simp))
  have log := leaseEnd_round clock (past ++ first :: between) receipt
  simp only [leaseLog_append, leaseLog_cons, handed, again] at runs ordered log
  obtain ⟨rounded, found, exceeded⟩ := runs.exclusive ordered unsettled
  rw [log, receiptEnd, ends] at found
  cases found
  exact absurd (passed second (by simp) endsAt exceeded) (Nat.not_le_of_lt early)

theorem LeaseRun.exclusive {trace : List Entry} (run : LeaseRun (exactClock config) trace)
    (monotone : ClockMonotone (trace.map Prod.fst)) :
    Exclusive config trace :=
  run.exclusive_of_passed monotone fun _ _ _ exceeded => exceeded

/-! ## Brokers whose steps are steps of the lease table -/

section Broker

variable {State : Type} {broker : Lib.Machine State Input Reply}
variable {config : Config}

/-- The broker hands jobs out under the receipts it mints. -/
def HandsOutMinted (broker : Lib.Machine State Input Reply) : Prop :=
  ∀ state input id receipt, leaseAction (input, (broker.step state input).2) = .grant id receipt →
      receipt = input.mint

theorem minted_of_granted (own : HandsOutMinted broker) (round : Nat → Nat) (inputs : List Input)
    (receipt : ReservationReceipt)
    (granted : Lib.Lease.Granted (leaseLog round (broker.trace inputs)) receipt) :
    receipt ∈ mints inputs := by
  induction inputs using List.reverseRecOn with
  | nil =>
    obtain ⟨_, _, member⟩ := granted
    cases member
  | append_singleton past input ih =>
    obtain ⟨time, id, member⟩ := granted
    rw [Lib.Machine.trace_concat, leaseLog_append, mem_append] at member
    rw [mints_concat, mem_append]
    rcases member with old | new
    · exact Or.inl (ih ⟨time, id, old⟩)
    · have grants : leaseAction (input, (broker.step (broker.run past) input).2) =
            .grant id receipt :=
        (congrArg Prod.snd (mem_singleton.mp new)).symm
      obtain ⟨lane, _, reserves, _⟩ := leaseAction_grant grants
      rw [own _ input id receipt grants]
      exact Or.inr (by simp [Input.minted, reserves])

/-- No two jobs are held under one receipt. -/
def DistinctReceipts (holders : Lib.Lease.Holders JobId ReservationReceipt) : Prop :=
  ∀ id other receipt endsAt otherEnd, holders id = some (receipt, endsAt) →
      holders other = some (receipt, otherEnd) → id = other

/-- A broker that keeps an invariant, whose calls are steps of the lease
table and which hands jobs out under the receipts it mints, has lease runs as
traces. -/
theorem leaseRun_of_steps (clock : LeaseClock config) (invariant : State → Prop)
    (holders : State → Lib.Lease.Holders JobId ReservationReceipt)
    (own : HandsOutMinted broker)
    (initially : invariant broker.initial)
    (start : holders broker.initial = fun _ => none)
    (steps : ∀ past input, FreshMints (past ++ [input]) → invariant (broker.run past) →
      DistinctReceipts (holders (broker.run past)) →
      invariant (broker.step (broker.run past) input).1 ∧
      Lib.Lease.Step clock.deadline (clock.round input.now) (holders (broker.run past))
        (leaseAction (input, (broker.step (broker.run past) input).2))
        (holders (broker.step (broker.run past) input).1))
    (inputs : List Input) (fresh : FreshMints inputs) :
    invariant (broker.run inputs) ∧ Lib.Lease.Runs clock.deadline
        (leaseLog clock.round (broker.trace inputs))
        (holders (broker.run inputs)) := by
  induction inputs using List.reverseRecOn with
  | nil =>
    rw [Lib.Machine.run_nil, start]
    exact ⟨initially, .start⟩
  | append_singleton past input ih =>
    obtain ⟨held, runs⟩ := ih (freshMints_past past input fresh)
    obtain ⟨kept, step⟩ := steps past input fresh held runs.faithful.unique
    rw [Lib.Machine.run_concat, Lib.Machine.trace_concat, leaseLog_append]
    refine ⟨kept, Lib.Lease.Runs.next runs step ?_⟩
    intro id receipt grants granted
    have earlier := minted_of_granted own clock.round past receipt granted
    obtain ⟨lane, _, reserves, _⟩ := leaseAction_grant grants
    rw [own _ input id receipt grants] at earlier
    rw [FreshMints, mints_concat] at fresh
    exact disjoint_of_nodup_append fresh earlier (by simp [Input.minted, reserves])

end Broker

end Worklane
