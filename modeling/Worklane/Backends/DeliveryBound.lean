import Worklane.Core.Json
import Worklane.Memory.Deliveries
import Worklane.Redis.Fates

/-!
# The delivery bound in memory and on Redis

The in-memory broker counts deliveries in a `u32` that saturates, so a bound
of `u32::MAX` is never exceeded.  The Redis script reads a bound of zero as no
bound.  Every other bound is kept by both.
-/

namespace Worklane

open List

/-! ## In memory -/

namespace Memory

/-- `InMemoryBroker` by its delivery bound. -/
def boundedBroker (config : Config) : BoundedBroker Inner where
  machine := fun bound => machine { config with maxDeliveries := bound }
  live := fun inner id => ∃ job ∈ inner.jobs, job.id = id
  buries := fun bound inner input id error =>
    let outcome := perform releaseLease { config with maxDeliveries := bound } inner input
    ∃ entry ∈ outcome.inner.dead ++ outcome.dropped, entry.id = id ∧ entry.letter.error = error

variable {config : Config} {inner : Inner} {max : Nat}

variable {job : StoredJob}

theorem overDelivered_of_le (small : max < u32Max)
    (reached : max ≤ job.deliveries) : overDelivered job max := by
  unfold overDelivered saturatingSucc
  omega

theorem Coherent.unique_job (coherent : Coherent inner)
    {other : StoredJob} (member : job ∈ inner.jobs)
    (inside : other ∈ inner.jobs) (same : job.id = other.id) :
    job = other :=
  inj_on_of_nodup_map coherent.ids member inside same

variable {lane : Lane}

theorem reserve_sweeps {now : Nat} {mint : ReservationReceipt}
    (coherent : Coherent inner) (small : max < u32Max) {id : JobId} {n : Nat}
    (counted : Counted inner id n) (reached : max ≤ n)
    (returns : returnsJob id (reserve releaseLease
      { config with maxDeliveries := none } inner now mint lane).reply = true) :
    let outcome := reserve releaseLease
      { config with maxDeliveries := some max } inner now mint lane
    (∃ entry ∈ outcome.inner.dead ++ outcome.dropped, entry.id = id ∧
      entry.letter.error = overDeliveredText max) ∧
    ¬ ∃ job ∈ outcome.inner.jobs, job.id = id := by
  let freed : Inner := { inner with jobs := releaseExpired releaseLease now inner.jobs }
  have apart : (freed.jobs.map StoredJob.id).Nodup := by
    rw [releaseExpired_ids]
    exact coherent.ids
  obtain ⟨handed, answered, own⟩ := returnsJob_iff.mp returns
  have answered : (reserveLoop { config with maxDeliveries := none } lane now
      mint maxDeadLetterSweep freed).2.1 = some handed :=
    Value.reserved.inj (Except.ok.inj answered)
  rcases pickBest_cases freed.jobs lane now with
    ⟨picked, _⟩ | ⟨before, best, after, picked, chosen⟩
  · rw [reserveLoop_empty _ picked] at answered
    cases answered
  · have first : reserveLoop { config with maxDeliveries := none } lane now
        mint (maxDeadLetterSweep - 1 + 1) freed = _ :=
      reserveLoop_leased chosen.split picked (fun _ bounded => by cases bounded) mint _
    have steps : maxDeadLetterSweep - 1 + 1 = maxDeadLetterSweep := rfl
    rw [steps, leaseAt_split _ chosen.split] at first
    rw [first] at answered
    cases answered
    have listed : best ∈ freed.jobs := by simp [chosen.split]
    obtain ⟨old, inside, released⟩ := Lib.exists_left_of_mem
      (releaseExpired_aligned now inner.jobs) listed
    have same : best.deliveries = old.deliveries ∧ best.id = old.id := by
      rcases released with rfl | ⟨_, rfl⟩ <;> exact ⟨rfl, rfl⟩
    obtain ⟨job, member, jobId, count⟩ := counted
    have oldJob : old = job := coherent.unique_job inside member
      (same.2.symm.trans (own.trans jobId.symm))
    have exceeded : overDelivered best max := by
      refine overDelivered_of_le small ?_
      rw [same.1, oldJob, count]
      exact reached
    have sweeps : reserveLoop { config with maxDeliveries := some max } lane now
        mint (maxDeadLetterSweep - 1 + 1) freed = _ :=
      reserveLoop_swept rfl chosen.split picked exceeded mint _
    unfold freed at sweeps
    rw [steps] at sweeps
    obtain ⟨gone, _, entered⟩ :=
      (reserveLoop_loops _ _ _ _ (maxDeadLetterSweep - 1) _).swept apart chosen.split
    simp only [reserve, sweeps]
    refine ⟨⟨_, entered, own, rfl⟩, ?_⟩
    rintro ⟨other, kept, sameId⟩
    exact gone other kept (sameId.trans own.symm)

theorem counts (config : Config) (small : max < u32Max) :
    (boundedBroker config).Counts max Counted where
  total := by
    rintro inner id ⟨job, member, same⟩
    exact ⟨job.deliveries, job, member, same, rfl⟩
  grows := by
    intro past input id n fresh machine next counted
    obtain ⟨job, member, rfl, rfl⟩ := counted
    have coherent : Coherent (machine.run past) := run_coherent _ past
    rcases (@perform_fate { config with maxDeliveries := some max } _ input
      job coherent.ids member).count with
      ⟨unmoved, silent⟩ | ⟨_, moved, within⟩
    · have silent : returnsJob job.id next.2 = false := silent
      rw [silent]
      refine ⟨nofun, ?_⟩
      rintro ⟨other, inside, same⟩
      rcases unmoved with ⟨kept, still, sameId, count⟩ | gone
      · exact ⟨job.deliveries, ⟨kept, still, sameId, count⟩, Nat.le_refl _⟩
      · exact absurd same (gone other inside)
    · have within := within max rfl
      have room : saturatingSucc job.deliveries ≤ max := Nat.not_lt.mp within
      have under : job.deliveries < max := by
        unfold saturatingSucc at room
        omega
      have count : saturatingSucc job.deliveries = job.deliveries + 1 := by
        unfold saturatingSucc at room ⊢
        omega
      rw [count] at moved
      have ⟨kept, still, sameId, _⟩ := moved
      refine ⟨fun _ => ⟨under, kept, still, sameId⟩, fun _ => ?_⟩
      refine ⟨_, moved, ?_⟩
      split <;> omega
  sweeps := by
    intro past id n fresh state counted reached input returns
    have coherent : Coherent state := run_coherent _ past
    have ⟨job, member, same, _⟩ := counted
    rcases (@perform_fate { config with maxDeliveries := none } _ input
      job coherent.ids member).count with
      ⟨_, silent⟩ | ⟨⟨lane, reserves⟩, _⟩
    · rw [same] at silent
      cases silent.symm.trans returns
    · obtain ⟨now, mint, call⟩ := input
      cases reserves
      exact reserve_sweeps coherent small counted reached returns

/-! ### A bound that is never exceeded -/

/-- A job of the lane that `reserve` finds at time 1. -/
structure Due (lane : Lane) (job : StoredJob) : Prop where
  lane : job.envelope.lane = lane
  available : job.availableAt ≤ 1
  lapsed : ∀ endsAt, job.leasedUntil = some endsAt → endsAt ≤ 1

/-- Leases that are over at once, and the largest bound there is. -/
def busyConfig : Config := ⟨0, ⟨none, none⟩, some u32Max⟩

theorem reserve_due (due : Due lane job) (alone : inner.jobs = [job]) (mint : ReservationReceipt) :
    let outcome := reserve releaseLease busyConfig inner 1 mint lane
    (∃ next, outcome.inner.jobs = [next] ∧ Due lane next ∧
      next.id = job.id) ∧ returnsJob job.id outcome.reply = true := by
  let freed := if expired 1 job then releaseLease job else job
  have released : releaseExpired releaseLease 1 inner.jobs = [freed] := by
    rw [alone]
    rfl
  have idle : visible lane 1 freed = true := by
    refine visible_iff.mpr ?_
    by_cases exceeded : expired 1 job = true
    · simp only [freed, if_pos exceeded]
      exact ⟨due.lane, rfl, due.available⟩
    · simp only [freed, if_neg exceeded]
      refine ⟨due.lane, ?_, due.available⟩
      cases leased : job.leasedUntil with
      | none => rfl
      | some endsAt =>
        refine absurd ?_ exceeded
        rw [expired, leased]
        exact decide_eq_true (due.lapsed endsAt leased)
  have kept : freed.envelope = job.envelope ∧ freed.availableAt ≤ 1 := by
    refine ⟨?_, (visible_iff.mp idle).2.2⟩
    simp only [freed]
    split <;> rfl
  let cleared : Inner := { inner with jobs := [freed] }
  have picked : pickBest cleared.jobs lane 1 = some ([] : List StoredJob).length := by
    rcases pickBest_cases cleared.jobs lane 1 with
      ⟨_, hidden⟩ | ⟨before, best, after, picked, chosen⟩
    · cases idle.symm.trans (hidden freed (mem_singleton_self _))
    · have split : [freed] = before ++ best :: after := chosen.split
      cases before with
      | nil => exact picked
      | cons first rest => simp at split
  have within : ∀ max, busyConfig.maxDeliveries = some max → ¬ overDelivered freed max := by
    rintro max ⟨⟩
    unfold overDelivered saturatingSucc
    omega
  have leased : reserveLoop busyConfig lane 1 mint (maxDeadLetterSweep - 1 + 1) cleared = _ :=
    reserveLoop_leased rfl picked within mint _
  have steps : maxDeadLetterSweep - 1 + 1 = maxDeadLetterSweep := rfl
  have first : cleared.jobs = ([] : List StoredJob) ++ freed :: [] := rfl
  rw [steps, leaseAt_split busyConfig first] at leased
  have handed : reserveLoop busyConfig lane 1 mint maxDeadLetterSweep
      { inner with jobs := [freed] } = _ := leased
  simp only [reserve, released, handed]
  refine ⟨⟨_, rfl, ?_, ?_⟩, ?_⟩
  · refine ⟨kept.1 ▸ due.lane, kept.2, ?_⟩
    rintro endsAt ⟨⟩
    decide
  · exact congrArg JobEnvelope.id kept.1
  · exact decide_eq_true (congrArg JobEnvelope.id kept.1)

theorem returned_due {past calls : List Input} (due : Due lane job)
    (alone : ((machine busyConfig).run past).jobs = [job])
    (reserves : ∀ call ∈ calls, call.now = 1 ∧ call.call = .reserve lane) :
    (boundedBroker busyConfig).LiveThroughout (some u32Max) job.id past calls ∧
      (boundedBroker busyConfig).returned (some u32Max) job.id past calls =
        calls.length := by
  induction calls generalizing past job with
  | nil => exact ⟨trivial, rfl⟩
  | cons input rest ih =>
    obtain ⟨now, mint, call⟩ := input
    obtain ⟨rfl, rfl⟩ := reserves _ (mem_cons_self ..)
    obtain ⟨⟨next, single, again, same⟩, returns⟩ := reserve_due due alone mint
    have after : ((machine busyConfig).run (past ++ [⟨1, mint, .reserve lane⟩])).jobs = [next] := by
      rw [Lib.Machine.run_concat]
      exact single
    obtain ⟨live, count⟩ := ih again after
      fun other member => reserves other (mem_cons_of_mem _ member)
    rw [same] at live count
    constructor
    · refine ⟨⟨job, ?_, rfl⟩, live⟩
      exact alone.symm ▸ mem_singleton_self job
    · rw [BoundedBroker.returned, count, length_cons]
      have hit : returnsJob job.id ((((boundedBroker busyConfig).machine (some u32Max)).step
            (((boundedBroker busyConfig).machine (some u32Max)).run past)
            ⟨1, mint, .reserve lane⟩).2) = true := returns
      rw [if_pos hit]
      omega

/-- Reservations of the lane at time 1, each with a receipt of its own. -/
def busyCalls (lane : Lane) (count : Nat) : List Input :=
  (List.range count).map fun number =>
    ⟨1, ⟨⟨BitVec.ofNat 128 number⟩⟩, .reserve lane⟩

theorem length_busyCalls (lane : Lane) (count : Nat) : (busyCalls lane count).length = count := by
  rw [busyCalls, length_map, length_range]

theorem busyCalls_reserve {count : Nat} : ∀ call ∈ busyCalls lane count,
      call.now = 1 ∧ call.call = .reserve lane := by
  intro call member
  obtain ⟨number, _, rfl⟩ := mem_map.mp member
  exact ⟨rfl, rfl⟩

theorem freshMints_busyCalls (lane : Lane) {count : Nat}
    (small : count ≤ 2 ^ 128) : FreshMints (busyCalls lane count) := by
  have receipts : mints (busyCalls lane count) = (List.range count).map fun number =>
        (⟨⟨BitVec.ofNat 128 number⟩⟩ : ReservationReceipt) := by
    rw [mints, busyCalls, flatMap_map]
    rw [map_eq_flatMap]
    rfl
  rw [FreshMints, receipts]
  refine List.Nodup.map_on ?_ nodup_range
  intro first inside second listed same
  have bits : BitVec.ofNat 128 first = BitVec.ofNat 128 second :=
    congrArg (fun receipt : ReservationReceipt => receipt.uuid.bits) same
  have values := congrArg BitVec.toNat bits
  rw [BitVec.toNat_ofNat, BitVec.toNat_ofNat] at values
  rw [mem_range] at inside listed
  rwa [Nat.mod_eq_of_lt (by omega), Nat.mod_eq_of_lt (by omega)] at values

/-- The count saturates below the largest bound. -/
theorem not_keepsBound_u32Max : ¬ (boundedBroker busyConfig).KeepsBound u32Max := by
  intro keeps
  let job : NewJob := ⟨⟨⟨1⟩⟩, ⟨"mail"⟩, "send", [], 3, 0, none, 0, none⟩
  let past : List Input := [⟨1, ⟨⟨0⟩⟩, .enqueue job⟩]
  have alone : ((machine busyConfig).run past).jobs = [storedJob job 1] := by
    decide +kernel
  have due : Due ⟨"mail"⟩ (storedJob job 1) := ⟨rfl, by decide, nofun⟩
  have fewer : ∀ calls : List Input, FreshMints calls →
      (∀ call ∈ calls, call.now = 1 ∧ call.call = .reserve ⟨"mail"⟩) →
      calls.length ≤ u32Max := by
    intro calls fresh reserves
    obtain ⟨live, count⟩ := returned_due due alone reserves
    have bound := (keeps past calls _ fresh live).1
    rwa [count] at bound
  have most := fewer (busyCalls ⟨"mail"⟩ (u32Max + 1))
    (freshMints_busyCalls _ (by decide)) busyCalls_reserve
  rw [length_busyCalls] at most
  omega

end Memory

/-! ## On Redis -/

namespace Redis

/-- `RedisBroker` by its delivery bound. -/
def boundedBroker (serde : SerdeJson) (config : Config) : BoundedBroker Store where
  machine := fun bound => machine serde { config with maxDeliveries := bound }
  live := fun store id => (store.job id.toText).isSome
  buries := fun bound store input id error =>
    ∃ record, (id.toText, record) ∈
        deadLettered { config with maxDeliveries := bound } store input ∧
      record.error = error

variable {serde : SerdeJson} {config : Config} {store : Store} {max : Nat}

/-- The job is live with so many deliveries. -/
def Counted (store : Store) (id : JobId) (count : Nat) : Prop :=
  ∃ hash, store.job id.toText = some hash ∧ hash.deliveries = count

theorem perform_returns (named : Named serde store) {input : Input} {id : JobId}
    (returns : returnsJob id (perform serde config store input).2 = true) :
    ∃ lane blob attempts, input.call = .reserve lane ∧ laneKeySegment lane = .ok () ∧
      (store.reserve (reserveArgs config input.now input.mint lane)).2.1 = some (blob, attempts) ∧
      ∀ other hash, store.job other = some hash → hash.envelope = blob → other = id.toText := by
  obtain ⟨handed, answered, own⟩ := returnsJob_iff.mp returns
  clear returns
  obtain ⟨now, mint, call⟩ := input
  -- Only `reserve` answers with a reservation.
  have unmapped : ∀ {α : Type} {wrap : α → Value} {result : Except Error α},
      (∀ value, wrap value ≠ .reserved (some handed)) →
      result.map wrap ≠ .ok (.reserved (some handed)) := by
    intro α wrap result different same
    cases result with
    | error failure => cases same
    | ok value => exact different value (Except.ok.inj same)
  have unresolved : ∀ {receipt : ReservationReceipt} {ran : Store × Nat},
      (resolved receipt ran).2 ≠ .ok (.reserved (some handed)) := by
    intro receipt ran
    unfold resolved
    dsimp only
    split <;> simp
  cases call with
  | enqueue job =>
    simp only [perform, enqueue] at answered
    split at answered
    · cases answered
    · exact absurd answered (unmapped (by simp))
  | enqueueBatch jobs =>
    simp only [perform, enqueueBatch] at answered
    split at answered
    · cases answered
    · split at answered
      · cases answered
      · exact absurd answered (unmapped (by simp))
  | reserve lane =>
    simp only [perform, reserve] at answered
    cases safe : laneKeySegment lane with
    | error failure =>
      rw [safe] at answered
      cases answered
    | ok value =>
      rw [safe] at answered
      simp only at answered
      cases picked : (store.reserve (reserveArgs config now mint lane)).2.1 with
      | none =>
        rw [picked] at answered
        cases answered
      | some pair =>
        obtain ⟨blob, attempts⟩ := pair
        rw [picked] at answered
        refine ⟨lane, blob, attempts, rfl, safe, picked, ?_⟩
        intro other hash found same
        obtain ⟨envelope, encoded, named⟩ := named.jobs other hash found
        rw [same] at encoded
        simp only [reservation, envelopeWithAttempts] at answered
        by_cases large : u32Max < attempts
        · rw [if_pos large] at answered
          cases answered
        · rw [if_neg large, decode_of_encode encoded] at answered
          cases answered
          rw [← named, ← own]
  | ack | retry | defer | fail | extend => exact absurd answered unresolved
  | classify job => cases answered
  | readDeadLetters lane limit => exact absurd answered (unmapped (by simp))
  | countDeadLetters lane => exact absurd answered (unmapped (by simp))
  | requeue job =>
    simp only [perform, requeue] at answered
    split at answered <;> cases answered
  | purgeDeadLetters lane =>
    simp only [perform, purgeDeadLetters] at answered
    split at answered <;> cases answered
  | pendingCount lane => exact absurd answered (unmapped (by simp))
  | enqueueScheduled scheduleId occurrence job =>
    simp only [perform, enqueueScheduled] at answered
    split at answered
    · cases answered
    · split at answered
      · cases answered
      · split at answered <;> cases answered
  | removeSchedule scheduleId =>
    simp only [perform, removeSchedule] at answered
    split at answered <;> cases answered

theorem reserveLevels_next {args unbounded : ReserveArgs} (sameLane : unbounded.lane = args.lane)
    (sameTime : unbounded.now = args.now) (free : unbounded.max = 0)
    {levels : List Nat} {left : Nat} {blob : Blob} {attempts : Nat}
    (answered : (store.reserveLevels unbounded levels (left + 1)).2.1 = some (blob, attempts)) :
    ∃ id hash, store.job id = some hash ∧ hash.envelope = blob ∧ (args.Exceeded hash → ∃ record,
        (id, record) ∈ (store.reserveLevels args levels (left + 1)).2.2 ∧
          record.error = overDeliveredText args.max) := by
  induction levels generalizing store with
  | nil => cases answered
  | cons priority rest ih =>
    rw [Store.reserveLevels, sameLane] at answered
    rw [Store.reserveLevels]
    by_cases vacant : (store.lanes (args.lane, priority)).zcard = 0
    · rw [if_pos vacant] at answered ⊢
      exact ih answered
    · rw [if_neg vacant] at answered ⊢
      rw [Store.reserveLevel, sameLane, sameTime] at answered
      rw [Store.reserveLevel]
      cases first : (store.lanes (args.lane, priority)).firstUpTo (Lib.toDouble args.now) with
      | none =>
        rw [first] at answered
        obtain ⟨id, hash, found, same, buries⟩ := ih answered
        refine ⟨id, hash, found, same, ?_⟩
        intro exceeded
        obtain ⟨record, member, error⟩ := buries exceeded
        exact ⟨record, mem_append_right _ member, error⟩
      | some entry =>
        simp only [first] at answered
        cases found : store.job (fifoId entry.member) with
        | none =>
          simp only [found] at answered
          cases answered
        | some hash =>
          have unlimited : ¬ (0 < unbounded.max ∧ unbounded.max < hash.deliveries + 1) := by
            rw [free]
            exact fun exceeded => absurd exceeded.1 (Nat.lt_irrefl 0)
          simp only [found, if_neg unlimited] at answered
          cases answered
          refine ⟨_, hash, found, rfl, ?_⟩
          intro exceeded
          have exceeded : 0 < args.max ∧ args.max < hash.deliveries + 1 := exceeded
          simp only [found, if_pos exceeded]
          rcases store.deadLetterMove (fifoId entry.member) hash args.lane priority entry.member
              (overDeliveredText args.max) (Lib.toDouble args.now)
              args.bounds |>.reserveLevel args priority left with
            ⟨next, outcome, buried⟩
          cases outcome with
          | handed envelope attempts =>
            exact ⟨_, mem_cons_self .., rfl⟩
          | capped => exact ⟨_, mem_cons_self .., rfl⟩
          | drained remaining =>
            exact ⟨_, mem_append_left _ (mem_cons_self ..), rfl⟩

theorem counts (serde : SerdeJson) (config : Config) (positive : 0 < max) :
    (boundedBroker serde config).Counts max Counted where
  total := by
    intro store id live
    obtain ⟨hash, found⟩ := Option.isSome_iff_exists.mp live
    exact ⟨hash.deliveries, hash, found, rfl⟩
  grows := by
    intro past input id n fresh machine next counted
    obtain ⟨hash, found, rfl⟩ := counted
    obtain ⟨indexed, named⟩ := run_indexed_named serde
      { config with maxDeliveries := some max } past
      (freshMints_past past input fresh)
    have leased : returnsJob id next.2 = true →
        hash.deliveries < max ∧ ∃ kept, next.1.job id.toText = some kept ∧
          kept.deliveries = hash.deliveries + 1 := by
      intro returns
      obtain ⟨lane, blob, attempts, called, safe, picked, own⟩ := perform_returns named returns
      obtain ⟨other, stored, held, same, _, after, _, within⟩ :=
        (reserve_hands _ _).of_answer picked
      have sameId := own other stored held same
      subst sameId
      cases found.symm.trans held
      have under : ¬ (0 < max ∧ max < hash.deliveries + 1) := within
      refine ⟨by omega, hash.leasedBy (reserveArgs
        { config with maxDeliveries := some max } input.now input.mint
        lane), ?_, rfl⟩
      have step : next.1 = ((machine.run past).reserve
          (reserveArgs { config with maxDeliveries := some max } input.now input.mint lane)).1 := by
        change (perform serde { config with maxDeliveries := some max }
          (machine.run past) input).1 = _
        simp only [perform, called, reserve, safe]
      rw [step]
      exact after
    constructor
    · intro returns
      obtain ⟨under, kept, after, _⟩ := leased returns
      exact ⟨under, Option.isSome_iff_exists.mpr ⟨kept, after⟩⟩
    · intro live
      by_cases returns : returnsJob id next.2 = true
      · obtain ⟨_, kept, after, count⟩ := leased returns
        rw [if_pos returns]
        exact ⟨_, ⟨kept, after, rfl⟩, count.ge⟩
      · rw [if_neg returns]
        rcases @perform_fate serde { config with maxDeliveries := some max }
          (machine.run past) input _ hash found with
          ends | ⟨kept, after, _, more⟩
        · have gone : next.1.job id.toText = none := ends.gone indexed
          have live : (next.1.job id.toText).isSome := live
          rw [gone] at live
          cases live
        · exact ⟨_, ⟨kept, after, rfl⟩, more⟩
  sweeps := by
    intro past id n fresh state counted reached input returns
    obtain ⟨hash, found, rfl⟩ := counted
    obtain ⟨indexed, named⟩ := run_indexed_named serde
      { config with maxDeliveries := some max } past fresh
    obtain ⟨lane, blob, attempts, called, safe, picked, own⟩ := perform_returns named returns
    let args := reserveArgs { config with maxDeliveries := some max } input.now input.mint lane
    obtain ⟨other, stored, held, same, buries⟩ := @reserveLevels_next state
      args (reserveArgs { config with maxDeliveries := none } input.now
        input.mint lane) rfl rfl rfl (state.levels lane)
      (maxDeadLetterSweep - 1) blob attempts picked
    have sameId := own other stored held same
    subst sameId
    cases found.symm.trans held
    have exceeded : args.Exceeded hash := ⟨positive, Nat.lt_succ_of_le reached⟩
    obtain ⟨record, member, error⟩ := buries exceeded
    have listed : (id.toText, record) ∈ deadLettered
        { config with maxDeliveries := some max } state input := by
      simp only [deadLettered, called, safe]
      exact member
    refine ⟨⟨record, listed, error⟩, ?_⟩
    have ends : Ends { config with maxDeliveries := some max } state input
        id.toText := .buried (mem_map_of_mem listed)
    have gone : (perform serde { config with maxDeliveries := some max }
        state input).1.job id.toText = none := ends.gone indexed
    intro live
    have live : ((perform serde { config with maxDeliveries := some max }
      state input).1.job id.toText).isSome := live
    rw [gone] at live
    cases live

/-- The script reads a bound of zero as no bound. -/
theorem not_keepsBound_zero :
    ¬ (boundedBroker Json.serde ⟨30, ⟨none, none⟩, none⟩).KeepsBound 0 := by
  intro keeps
  let job : NewJob := ⟨⟨⟨1⟩⟩, ⟨"mail"⟩, "send", [], 3, 0, none, 0, none⟩
  have bound := (keeps [⟨1, ⟨⟨0⟩⟩, .enqueue job⟩] [⟨2, ⟨⟨7⟩⟩, .reserve ⟨"mail"⟩⟩] ⟨⟨1⟩⟩ (by decide)
    ⟨by change Option.isSome _ = true; decide +kernel, trivial⟩).1
  revert bound
  decide +kernel

end Redis

/-! ## The two together -/

/-- On Redis every bound but zero is kept, and in memory every bound but the
largest. -/
theorem delivery_bound_kept_iff (max : Nat) (fits : max ≤ u32Max) :
    ((∀ (serde : SerdeJson) (config : Config),
        (Redis.boundedBroker serde config).KeepsBound max) ↔ max ≠ 0) ∧
      ((∀ config : Config, (Memory.boundedBroker config).KeepsBound max) ↔ max ≠ u32Max) := by
  refine ⟨⟨?_, ?_⟩, ⟨?_, ?_⟩⟩
  · rintro kept rfl
    exact Redis.not_keepsBound_zero (kept _ _)
  · intro positive serde config
    exact (Redis.counts serde config (Nat.pos_of_ne_zero positive)).keepsBound
  · rintro kept rfl
    exact Memory.not_keepsBound_u32Max (kept _)
  · intro below config
    exact (Memory.counts config (Nat.lt_of_le_of_ne fits below)).keepsBound

theorem delivery_bound_kept_three : 3 ≤ u32Max ∧
      (Redis.boundedBroker Json.serde ⟨30, ⟨none, none⟩, none⟩).KeepsBound 3 ∧
      (Memory.boundedBroker ⟨30, ⟨none, none⟩, none⟩).KeepsBound 3 := by
  have kept := delivery_bound_kept_iff 3 (by decide)
  exact ⟨by decide, kept.1.mpr (by decide) _ _, kept.2.mpr (by decide) _⟩

/-- With a bound of zero, Redis returns a job again and again; in memory the
first `reserve` dead-letters it. -/
theorem zero_bound_differs : let job : NewJob :=
      ⟨⟨⟨1⟩⟩, ⟨"mail"⟩, "send", [], 3, 0, none, 0, none⟩
    let config : Config := ⟨30, ⟨none, none⟩, some 0⟩
    let inputs : List Input :=
      [⟨1, ⟨⟨0⟩⟩, .enqueue job⟩, ⟨2, ⟨⟨7⟩⟩, .reserve ⟨"mail"⟩⟩, ⟨40, ⟨⟨8⟩⟩, .reserve ⟨"mail"⟩⟩,
        ⟨41, ⟨⟨0⟩⟩, .countDeadLetters ⟨"mail"⟩⟩]
    (Redis.machine Json.serde config).replies inputs = [.ok (.jobId ⟨⟨1⟩⟩),
          .ok (.reserved (some ⟨job.intoEnvelope, ⟨⟨7⟩⟩, 30⟩)),
          .ok (.reserved (some ⟨job.intoEnvelope, ⟨⟨8⟩⟩, 30⟩)),
          .ok (.count 0)] ∧
      (Memory.machine config).replies inputs =
        [.ok (.jobId ⟨⟨1⟩⟩), .ok (.reserved none), .ok (.reserved none), .ok (.count 1)] := by
  decide +kernel

end Worklane
