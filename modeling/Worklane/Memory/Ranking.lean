import Worklane.Lib.Rank
import Worklane.Memory.Changes

/-!
# `reserve` in full

The loop of `reserve` scans the jobs again after each job it dead-letters.
Seen from outside it goes down one ranking of the visible jobs of the lane, by
priority, then by schedule, then by the order of insertion: the leading jobs
that have reached the delivery bound are dead-lettered, up to the limit of one
sweep, and the next job is leased.
-/

namespace Worklane.Memory

open List
open Lib (RankOrder ranked)

/-! ## The ranking -/

/-- A job whose delivery count has reached the bound. -/
def reachedBound (config : Config) (job : StoredJob) : Bool :=
  config.maxDeliveries.any fun max => decide (max ≤ job.deliveries)

/-- A job the source dead-letters. -/
def overBound (config : Config) (job : StoredJob) : Bool :=
  config.maxDeliveries.any fun max => decide (overDelivered job max)

section Order

variable (exceeded : StoredJob → Bool)

/-- The leading jobs of the ranking that are over the bound. -/
def leading (order : List (StoredJob × Nat)) : List (StoredJob × Nat) :=
  order.takeWhile fun item => exceeded item.1

/-- The job after them, if the sweep gets that far. -/
def nextInOrder (limit : Nat) (order : List (StoredJob × Nat)) : Option (StoredJob × Nat) :=
  if (leading exceeded order).length < limit then
    order[(leading exceeded order).length]?
  else
    none

end Order

/-- The error of a swept job. -/
def sweepText (config : Config) : String :=
  (config.maxDeliveries.map overDeliveredText).getD ""

/-- The dead store after these jobs are dead-lettered, one by one. -/
def buryAll (config : Config) (lane : Lane) (now : Nat) :
    List DeadEntry → List (StoredJob × Nat) → List DeadEntry :=
  List.foldl fun dead item => (pruneDead config.retention lane now
    (dead ++ [deadEntry item.1 (sweepText config) now])).1

/-- The unique keys after these jobs have given up theirs. -/
def freeAll : (String → Option JobId) → List (StoredJob × Nat) → String → Option JobId :=
  List.foldl fun unique item => freeKey unique item.1.uniqueKey

/-- The jobs that are not swept, the next one leased. -/
def leaseNext (config : Config) (now : Nat) (mint : ReservationReceipt)
    (placed swept : List (StoredJob × Nat))
    (next : Option (StoredJob × Nat)) : List StoredJob :=
  (placed.filter fun item => decide (item ∉ swept)).map fun item =>
    if next = some item then
      leaseJob (saturatingAdd now config.lease) mint item.1
    else
      item.1

theorem overBound_eq {config : Config}
    (below : ∀ max, config.maxDeliveries = some max → max < u32Max) :
    overBound config = reachedBound config := by
  funext job
  cases bounded : config.maxDeliveries with
  | none => simp [overBound, reachedBound, bounded]
  | some max =>
    have small := below max bounded
    have same : overDelivered job max ↔ max ≤ job.deliveries := by
      simp only [overDelivered, saturatingSucc]
      omega
    simp only [overBound, reachedBound, bounded, Option.any_some, same]

/-! ## The loop -/

section Loop

variable {config : Config} {lane : Lane} {now : Nat}

theorem leaseNext_none (mint : ReservationReceipt) (placed : List (StoredJob × Nat)) :
    leaseNext config now mint placed [] none = placed.map Prod.fst := by
  simp [leaseNext]

variable {before : List (StoredJob × Nat)} {after : List (StoredJob × Nat)}
variable {item : StoredJob × Nat}

theorem leaseNext_cons {mint : ReservationReceipt} {swept : List (StoredJob × Nat)}
    {next : Option (StoredJob × Nat)} (fresh : item ∉ before ++ after) :
    leaseNext config now mint (before ++ item :: after) (item :: swept) next =
      leaseNext config now mint (before ++ after) swept next := by
  have same : ∀ items : List (StoredJob × Nat), item ∉ items →
      items.filter (fun other => decide (other ∉ item :: swept)) =
        items.filter fun other => decide (other ∉ swept) := by
    intro items absent
    refine filter_congr fun other member => ?_
    have apart : other ≠ item := fun same => absent (same ▸ member)
    simp [apart]
  unfold leaseNext
  rw [filter_append, filter_append, filter_cons_of_neg (by simp),
    same before fun member => fresh (mem_append_left _ member),
    same after fun member => fresh (mem_append_right _ member)]

theorem leaseNext_some {mint : ReservationReceipt} (fresh : item ∉ before ++ after) :
    leaseNext config now mint (before ++ item :: after) [] (some item) = before.map Prod.fst ++
        leaseJob (saturatingAdd now config.lease) mint item.1 :: after.map Prod.fst := by
  have same : ∀ items : List (StoredJob × Nat), item ∉ items →
      (items.map fun other => if some item = some other then
        leaseJob (saturatingAdd now config.lease) mint other.1
      else other.1) = items.map Prod.fst := by
    intro items absent
    refine map_congr_left fun other member => ?_
    rw [if_neg]
    rintro ⟨⟩
    exact absent member
  unfold leaseNext
  rw [show (before ++ item :: after).filter (fun other =>
    decide (other ∉ ([] : List (StoredJob × Nat)))) =
      before ++ item :: after by simp, map_append, map_cons,
    if_pos rfl,
    same before fun member => fresh (mem_append_left _ member),
    same after fun member => fresh (mem_append_right _ member)]

section Pick

variable {exceeded : StoredJob → Bool} {item : StoredJob × Nat} {rest : List (StoredJob × Nat)}

theorem leading_cons (swept : exceeded item.1 = true) :
    leading exceeded (item :: rest) = item :: leading exceeded rest :=
  takeWhile_cons_of_pos swept

theorem leading_stop (within : ¬ exceeded item.1 = true) : leading exceeded (item :: rest) = [] :=
  takeWhile_cons_of_neg within

theorem nextInOrder_cons (swept : exceeded item.1 = true) {limit : Nat} :
    nextInOrder exceeded (limit + 1) (item :: rest) =
      nextInOrder exceeded limit rest := by
  simp [nextInOrder, leading_cons swept]

theorem nextInOrder_stop (within : ¬ exceeded item.1 = true) {limit : Nat} :
    nextInOrder exceeded (limit + 1) (item :: rest) = some item := by
  simp [nextInOrder, leading_stop within]

end Pick

/-- The reservation of a job that is handed out. -/
def handOut (config : Config) (mint : ReservationReceipt)
    (item : StoredJob × Nat) : Reservation where
  envelope := item.1.envelope
  receipt := mint
  lease := config.lease

theorem mem_places (places : (before ++ item :: after).Pairwise fun left right =>
      left.2 < right.2) :
  item ∉ before ++ after ∧ (before ++ after).Pairwise (fun left right => left.2 < right.2) ∧
    ∀ other ∈ after, item.2 < other.2 := by
  obtain ⟨first, second, cross⟩ := pairwise_append.mp places
  obtain ⟨ahead, rest⟩ := pairwise_cons.mp second
  refine ⟨fun member => ?_, pairwise_append.mpr ⟨first, rest,
    fun left early right late => cross left early right (mem_cons_of_mem _ late)⟩, ahead⟩
  rcases mem_append.mp member with early | late
  · exact absurd (cross item early item (mem_cons_self ..)) (Nat.lt_irrefl _)
  · exact absurd (ahead item late) (Nat.lt_irrefl _)

theorem reserveLoop_ranked (mint : ReservationReceipt) (left : Nat) {inner : Inner}
    {placed order : List (StoredJob × Nat)}
    (jobs : inner.jobs = placed.map Prod.fst)
    (places : placed.Pairwise fun left right => left.2 < right.2)
    (ranks : RankOrder (visible lane now) outranks placed order) :
    (reserveLoop config lane now mint left inner).1 =
        { inner with
          jobs := leaseNext config now mint placed ((leading (overBound config) order).take left)
            (nextInOrder (overBound config) left order)
          unique := freeAll inner.unique ((leading (overBound config) order).take left)
          dead := buryAll config lane now inner.dead
            ((leading (overBound config) order).take left) } ∧
      (reserveLoop config lane now mint left inner).2.1 =
        (nextInOrder (overBound config) left order).map (handOut config mint) := by
  -- By induction on how many jobs may still be swept.
  induction left generalizing inner placed order with
  | zero =>
    simp only [reserveLoop, take_zero, nextInOrder, Nat.not_lt_zero,
      if_false, leaseNext_none, ← jobs, freeAll, buryAll, foldl_nil,
      Option.map_none, and_self]
  | succ left ih =>
    rcases pickBest_cases inner.jobs lane now with
      ⟨picked, hidden⟩ | ⟨first, job, last, picked, best⟩
    · have empty : order = [] := by
        refine ranks.empty fun item member => hidden item.1 ?_
        rw [jobs]
        exact mem_map_of_mem member
      rw [reserveLoop_empty config picked, empty]
      simp [leading, nextInOrder, leaseNext_none, ← jobs, freeAll, buryAll]
    · obtain ⟨before, tail, rfl, firstJobs, tailJobs⟩ :=
        map_eq_append_iff.mp (jobs.symm.trans best.split)
      obtain ⟨item, after, rfl, rfl, lastJobs⟩ := map_eq_cons_iff.mp tailJobs
      obtain ⟨fresh, placesLeft, ahead⟩ := mem_places places
      obtain ⟨rest, rfl, ranksLeft⟩ := ranks.pick outranks_ranking best.chosenEligible
        (fun other member => best.earlier other.1 (firstJobs ▸ mem_map_of_mem member))
        (fun other member => best.later other.1 (lastJobs ▸ mem_map_of_mem member)) ahead
      have onLane := (visible_iff.mp best.chosenEligible).1
      by_cases swept : overBound config item.1 = true
      · obtain ⟨max, bounded, exceeded⟩ := (Option.any_eq_true ..).mp swept
        have text : sweepText config = overDeliveredText max := by
          simp [sweepText, bounded]
        rw [reserveLoop_swept bounded best.split picked
          (of_decide_eq_true exceeded), deadLetterAt_split _ best.split,
          leading_cons swept, nextInOrder_cons swept, take_succ_cons,
          leaseNext_cons fresh]
        obtain ⟨state, handed⟩ := @ih
          { inner with
            jobs := first ++ last
            unique := freeKey inner.unique item.1.uniqueKey
            dead := (pruneDead config.retention item.1.envelope.lane now (inner.dead ++
                [deadEntry item.1 (overDeliveredText max) now])).1 }
          (before ++ after) rest
          (by rw [map_append, firstJobs, lastJobs])
          placesLeft ranksLeft
        refine ⟨?_, handed⟩
        rw [state]
        simp only [freeAll, buryAll, foldl_cons, onLane, text]
      · have within : ∀ max, config.maxDeliveries = some max → ¬ overDelivered item.1 max := by
          intro max bounded exceeded
          exact swept (by simp [overBound, bounded, exceeded])
        rw [reserveLoop_leased best.split picked within,
          leaseAt_split config best.split, leading_stop swept,
          nextInOrder_stop swept, take_nil, leaseNext_some fresh,
          firstJobs, lastJobs]
        exact ⟨rfl, rfl⟩

end Loop

/-! ## Termination -/

/-- The loop of the source between two passes. -/
inductive LoopState where
  | running (swept : Nat) (inner : Inner)
  | returned (inner : Inner) (reservation : Option Reservation)

section Rounds

variable (config : Config) (lane : Lane) (now : Nat) (mint : ReservationReceipt)

/-- One pass: `swept` counts up, and the loop returns when it reaches the
limit. -/
def loopPass (swept : Nat) (inner : Inner) : LoopState :=
  match pickBest inner.jobs lane now with
  | none => .returned inner none
  | some index =>
    match config.maxDeliveries with
    | some max =>
      if inner.jobs[index]?.any fun job => overDelivered job max then
        let moved := deadLetterAt config.retention inner index (overDeliveredText max) now
        if swept + 1 ≥ maxDeadLetterSweep then
          .returned moved.1 none
        else
          .running (swept + 1) moved.1
      else
        let leased := leaseAt config inner index now mint
        .returned leased.1 leased.2
    | none =>
      let leased := leaseAt config inner index now mint
      .returned leased.1 leased.2

/-- At most this many passes. -/
def loopPasses : Nat → LoopState → LoopState
  | rounds + 1, .running swept inner =>
    loopPasses rounds (loopPass config lane now mint swept inner)
  | _, state => state

theorem loopPasses_returned (rounds : Nat) (inner : Inner) (reservation : Option Reservation) :
    loopPasses config lane now mint rounds (.returned inner reservation) =
      .returned inner reservation := by
  cases rounds <;> rfl

/-- The loop of the source ends, with what `reserveLoop` computes. -/
theorem loopPasses_returns (left swept : Nat) (inner : Inner)
    (count : swept + left = maxDeadLetterSweep) (some : 0 < left) :
    loopPasses config lane now mint left (.running swept inner) =
      .returned (reserveLoop config lane now mint left inner).1
        (reserveLoop config lane now mint left inner).2.1 := by
  induction left generalizing swept inner with
  | zero => cases some
  | succ left ih =>
    simp only [loopPasses, loopPass, reserveLoop]
    cases picked : pickBest inner.jobs lane now with
    | none => exact loopPasses_returned ..
    | some index =>
      simp only
      cases config.maxDeliveries with
      | none => exact loopPasses_returned ..
      | some max =>
        simp only
        split
        · by_cases last : swept + 1 ≥ maxDeadLetterSweep
          · have none : left = 0 := by omega
            rw [if_pos last, none]
            rfl
          · rw [if_neg last]
            exact ih _ _ (by omega) (by omega)
        · exact loopPasses_returned ..

end Rounds

/-! ## The call -/

/-- The jobs with their places, after the first loop. -/
def placedJobs (inner : Inner) (now : Nat) : List (StoredJob × Nat) :=
  (releaseExpired releaseLease now inner.jobs).zipIdx

/-- The visible jobs of the lane, the best first. -/
def laneOrder (inner : Inner) (lane : Lane) (now : Nat) : List (StoredJob × Nat) :=
  ranked (visible lane now) outranks (placedJobs inner now)

/-- What `reserve` does: `order` ranks the visible jobs of the lane, `swept`
are those it dead-letters and `next` is the one it leases. -/
structure ReserveSpec (config : Config) (inner : Inner) (now : Nat)
    (mint : ReservationReceipt) (lane : Lane)
    (order swept : List (StoredJob × Nat)) (next : Option (StoredJob × Nat))
    (outcome : Outcome) : Prop where
  visible : ∀ job place, (job, place) ∈ order ↔ ∃ stored, inner.jobs[place]? = some stored ∧
      job = releasedJob now stored ∧ stored.envelope.lane = lane ∧
      (∀ endsAt, stored.leasedUntil = some endsAt → endsAt ≤ now) ∧
      stored.availableAt ≤ now
  sorted : order.Pairwise fun left right =>
    right.1.envelope.priority < left.1.envelope.priority ∨
      left.1.envelope.priority = right.1.envelope.priority ∧
        (left.1.availableAt < right.1.availableAt ∨
          left.1.availableAt = right.1.availableAt ∧ left.2 < right.2)
  reached : (leading (reachedBound config) order).length < maxDeadLetterSweep →
    swept = leading (reachedBound config) order ∧
      next = order[(leading (reachedBound config) order).length]?
  exhausted : maxDeadLetterSweep ≤ (leading (reachedBound config) order).length →
    swept = order.take maxDeadLetterSweep ∧ next = none
  jobs : outcome.inner.jobs = leaseNext config now mint (placedJobs inner now) swept next
  unique : outcome.inner.unique = freeAll inner.unique swept
  dead : outcome.inner.dead = buryAll config lane now inner.dead swept
  schedules : outcome.inner.schedules = inner.schedules
  reply : outcome.reply = .ok (.reserved (next.map (handOut config mint)))
  others : ∀ place stored, inner.jobs[place]? = some stored →
    (releasedJob now stored, place) ∉ swept →
    next ≠ some (releasedJob now stored, place) →
    releasedJob now stored ∈ outcome.inner.jobs ∧
      (releasedJob now stored).envelope = stored.envelope ∧
      (releasedJob now stored).availableAt = stored.availableAt ∧
      (releasedJob now stored).uniqueKey = stored.uniqueKey ∧
      (releasedJob now stored).deliveries = stored.deliveries
  returns : ∃ rounds ≤ maxDeadLetterSweep, loopPasses config lane now mint rounds
        (.running 0 { inner with
          jobs := releaseExpired releaseLease now inner.jobs }) =
      .returned outcome.inner (next.map (handOut config mint))

section Reserve

variable {inner : Inner} {lane : Lane} {now : Nat}

theorem releasedJob_spec (now : Nat) (stored : StoredJob) :
    (releasedJob now stored).envelope = stored.envelope ∧
      (releasedJob now stored).availableAt = stored.availableAt ∧
      (releasedJob now stored).uniqueKey = stored.uniqueKey ∧
      (releasedJob now stored).deliveries = stored.deliveries := by
  unfold releasedJob
  split
  · exact ⟨rfl, rfl, rfl, rfl⟩
  · exact ⟨rfl, rfl, rfl, rfl⟩

theorem releasedJob_idle {stored : StoredJob} : (releasedJob now stored).leasedUntil = none ↔
      ∀ endsAt, stored.leasedUntil = some endsAt → endsAt ≤ now := by
  cases leased : stored.leasedUntil with
  | none => simp [releasedJob, expired, leased]
  | some leasedUntil =>
    by_cases exceeded : leasedUntil ≤ now
    · simp [releasedJob, expired, leased, exceeded, releaseLease]
    · simp [releasedJob, expired, leased, exceeded]

theorem mem_placedJobs {job : StoredJob} {place : Nat} : (job, place) ∈ placedJobs inner now ↔
      ∃ stored, inner.jobs[place]? = some stored ∧ job = releasedJob now stored := by
  rw [placedJobs, mem_zipIdx_iff_getElem?, releaseExpired, getElem?_map, Option.map_eq_some_iff]
  refine exists_congr fun stored => and_congr_right fun _ => ?_
  exact eq_comm

theorem placedJobs_places (inner : Inner) (now : Nat) :
    (placedJobs inner now).Pairwise fun left right => left.2 < right.2 := by
  have places : ((placedJobs inner now).map Prod.snd).Pairwise (· < ·) := by
    rw [placedJobs, zipIdx_map_snd]
    exact pairwise_lt_range'
  exact pairwise_map.mp places

theorem outplaces_iff {left right : StoredJob × Nat} : Lib.outplaces outranks left right = true ↔
      right.1.envelope.priority < left.1.envelope.priority ∨
        left.1.envelope.priority = right.1.envelope.priority ∧
          (left.1.availableAt < right.1.availableAt ∨ left.1.availableAt = right.1.availableAt ∧
              left.2 < right.2) := by
  simp only [Lib.outplaces, outranks, Bool.or_eq_true, Bool.and_eq_true,
    Bool.not_eq_true', Bool.or_eq_false_iff, Bool.and_eq_false_iff,
    decide_eq_true_eq, decide_eq_false_iff_not]
  omega

theorem laneOrder_rankOrder (inner : Inner) (lane : Lane) (now : Nat) :
    RankOrder (visible lane now) outranks (placedJobs inner now) (laneOrder inner lane now) :=
  Lib.ranked_rankOrder outranks_ranking (placedJobs_places inner now)

theorem reserve_ranked (config : Config) (inner : Inner) (now : Nat)
    (mint : ReservationReceipt) (lane : Lane) :
    (reserve releaseLease config inner now mint lane).inner =
        { inner with
          jobs := leaseNext config now mint (placedJobs inner now)
            ((leading (overBound config) (laneOrder inner lane now)).take maxDeadLetterSweep)
            (nextInOrder (overBound config) maxDeadLetterSweep (laneOrder inner lane now))
          unique := freeAll inner.unique
            ((leading (overBound config) (laneOrder inner lane now)).take maxDeadLetterSweep)
          dead := buryAll config lane now inner.dead
            ((leading (overBound config) (laneOrder inner lane now)).take maxDeadLetterSweep) } ∧
      (reserve releaseLease config inner now mint lane).reply =
        .ok (.reserved ((nextInOrder (overBound config) maxDeadLetterSweep
          (laneOrder inner lane now)).map (handOut config mint))) := by
  have start : ({ inner with
      jobs := releaseExpired releaseLease now inner.jobs } : Inner).jobs =
      (placedJobs inner now).map Prod.fst := by
    rw [placedJobs, zipIdx_map_fst]
  obtain ⟨state, handed⟩ := @reserveLoop_ranked config lane now mint
    maxDeadLetterSweep _ _ _ start (placedJobs_places inner now)
    (laneOrder_rankOrder inner lane now)
  exact ⟨state, congrArg (fun handed => Except.ok (Value.reserved handed)) handed⟩

theorem mem_laneOrder {job : StoredJob} {place : Nat} : (job, place) ∈ laneOrder inner lane now ↔
      ∃ stored, inner.jobs[place]? = some stored ∧
        job = releasedJob now stored ∧ stored.envelope.lane = lane ∧
        (∀ endsAt, stored.leasedUntil = some endsAt → endsAt ≤ now) ∧
        stored.availableAt ≤ now := by
  rw [(laneOrder_rankOrder inner lane now).perm.mem_iff, mem_filter, mem_placedJobs]
  constructor
  · rintro ⟨⟨stored, found, rfl⟩, seen⟩
    obtain ⟨onLane, idle, due⟩ := visible_iff.mp seen
    obtain ⟨sameEnvelope, sameTime, _⟩ := releasedJob_spec now stored
    exact ⟨stored, found, rfl, sameEnvelope ▸ onLane, releasedJob_idle.mp idle, sameTime ▸ due⟩
  · rintro ⟨stored, found, rfl, onLane, idle, due⟩
    obtain ⟨sameEnvelope, sameTime, _⟩ := releasedJob_spec now stored
    refine ⟨⟨stored, found, rfl⟩, visible_iff.mpr ⟨?_, ?_, ?_⟩⟩
    · rw [sameEnvelope]
      exact onLane
    · exact releasedJob_idle.mpr idle
    · rw [sameTime]
      exact due

theorem take_leading {exceeded : StoredJob → Bool} {limit : Nat} {order : List (StoredJob × Nat)}
    (many : limit ≤ (leading exceeded order).length) :
    (leading exceeded order).take limit = order.take limit := by
  have front : leading exceeded order <+: order := takeWhile_prefix _
  obtain ⟨rest, whole⟩ := front
  conv_rhs => rw [← whole, take_append_of_le_length many]

/-- **The full specification of `reserve`**, for every state, lane and time
and every delivery bound below the largest count. -/
theorem reserve_spec (config : Config) (inner : Inner) (now : Nat)
    (mint : ReservationReceipt) (lane : Lane)
    (below : ∀ max, config.maxDeliveries = some max → max < u32Max) :
    ReserveSpec config inner now mint lane (laneOrder inner lane now)
      ((leading (reachedBound config) (laneOrder inner lane now)).take maxDeadLetterSweep)
      (nextInOrder (reachedBound config) maxDeadLetterSweep (laneOrder inner lane now))
      (reserve releaseLease config inner now mint lane) := by
  obtain ⟨state, reply⟩ := reserve_ranked config inner now mint lane
  rw [overBound_eq below] at state reply
  refine ⟨fun _ _ => mem_laneOrder, ?_, ?_, ?_, ?_, ?_, ?_, ?_, reply, ?_, ?_⟩
  · exact (laneOrder_rankOrder inner lane now).sorted.imp outplaces_iff.mp
  · intro few
    exact ⟨take_of_length_le (Nat.le_of_lt few), if_pos few⟩
  · intro many
    exact ⟨take_leading many, if_neg (Nat.not_lt.mpr many)⟩
  · rw [state]
  · rw [state]
  · rw [state]
  · rw [state]
  · intro place stored found spared other
    refine ⟨?_, releasedJob_spec now stored⟩
    rw [state]
    exact mem_map.mpr ⟨(releasedJob now stored, place),
      mem_filter.mpr ⟨mem_placedJobs.mpr ⟨stored, found, rfl⟩, decide_eq_true spared⟩, if_neg other⟩
  · refine ⟨maxDeadLetterSweep, Nat.le_refl _, ?_⟩
    rw [loopPasses_returns config lane now mint maxDeadLetterSweep 0 _ (Nat.zero_add _) (by decide)]
    exact congrArg (LoopState.returned _) (Value.reserved.inj (Except.ok.inj reply))

end Reserve

/-- A job that was delivered once, ahead of one that was not. -/
def poisonedLane : Inner :=
  { Inner.empty with
    jobs :=
      [⟨⟨⟨⟨1⟩⟩, ⟨"mail"⟩, "send", [], 0, 3, 0, none⟩, 0, none, none, none, 0⟩,
        ⟨⟨⟨⟨2⟩⟩, ⟨"mail"⟩, "send", [], 0, 3, 7, none⟩, 0, none, none, none, 1⟩] }

theorem poisonedLane_reserved :
    (reserve releaseLease ⟨30, ⟨none, none⟩, some 1⟩ poisonedLane 5 ⟨⟨9⟩⟩ ⟨"mail"⟩).reply =
      .ok (.reserved (some ⟨⟨⟨⟨1⟩⟩, ⟨"mail"⟩, "send", [], 0, 3, 0, none⟩, ⟨⟨9⟩⟩, 30⟩)) := by
  have spec := reserve_spec ⟨30, ⟨none, none⟩, some 1⟩ poisonedLane 5 ⟨⟨9⟩⟩ ⟨"mail"⟩ (by
      rintro max ⟨⟩
      decide)
  rw [spec.reply]
  decide +kernel

end Worklane.Memory
