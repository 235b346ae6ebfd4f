import Worklane.Core.DeliveryBound
import Worklane.Memory.Origin

/-!
# What a call can do to a live job

A live job stays, with the same envelope; it is handed out once more; it is
removed or retried under its receipt; or `reserve` finds it delivered too
often.
-/

namespace Worklane.Memory

open List

variable {config : Config} {inner : Inner} {input : Input}

/-- The job is handed out by this call. -/
def HandsOut (config : Config) (input : Input) (reply : Reply) (envelope : JobEnvelope) : Prop :=
  (∃ lane, input.call = .reserve lane) ∧
    reply = .ok (.reserved (some ⟨envelope, input.mint, config.lease⟩))

/-- `ack`, `retry` or `fail` with the receipt. -/
def Concludes (call : Call) (receipt : ReservationReceipt) : Prop :=
  call = .ack receipt ∨ (∃ delay, call = .retry receipt delay) ∨ ∃ error, call = .fail receipt error

/-- The job is removed or retried by the holder of its receipt. -/
def Settles (input : Input) (outcome : Outcome) (job : StoredJob) : Prop :=
  ∃ receipt value, job.receipt = some receipt ∧ outcome.reply = .ok value ∧
    Concludes input.call receipt

/-- `reserve` finds the job delivered too often. -/
def Exhausted (config : Config) (input : Input) (job : StoredJob) : Prop :=
  ∃ max, input.call = .reserve job.envelope.lane ∧ config.maxDeliveries = some max ∧
    overDelivered job max

/-- The job is live with so many deliveries. -/
def Counted (inner : Inner) (id : JobId) (count : Nat) : Prop :=
  ∃ job ∈ inner.jobs, job.id = id ∧ job.deliveries = count

/-- The job is gone, or it has as many deliveries as before. -/
def Unmoved (job : StoredJob) (jobs : List StoredJob) : Prop :=
  (∃ kept ∈ jobs, kept.id = job.id ∧ kept.deliveries = job.deliveries) ∨
    ∀ other ∈ jobs, other.id ≠ job.id

/-- What a call makes of a live job. -/
inductive Fate (config : Config) (input : Input) (job : StoredJob) (outcome : Outcome) : Prop
  | kept {next : StoredJob} (member : next ∈ outcome.inner.jobs)
      (envelope : next.envelope = job.envelope) (deliveries : next.deliveries = job.deliveries)
      (silent : returnsJob job.id outcome.reply = false)
  | handed {next : StoredJob} (member : next ∈ outcome.inner.jobs)
      (envelope : next.envelope = job.envelope)
      (deliveries : next.deliveries = saturatingSucc job.deliveries)
      (hands : HandsOut config input outcome.reply job.envelope)
      (within : ∀ max, config.maxDeliveries = some max → ¬ overDelivered job max)
  | settled (settles : Settles input outcome job) (unmoved : Unmoved job outcome.inner.jobs)
      (silent : returnsJob job.id outcome.reply = false)
  | swept (exhausted : Exhausted config input job)
      (gone : ∀ other ∈ outcome.inner.jobs, other.id ≠ job.id)
      (silent : returnsJob job.id outcome.reply = false)

variable {job : StoredJob}

/-- A call returns a job within the bound and counts the delivery; otherwise
the count stays as it is. -/
theorem Fate.count {outcome : Outcome} (fate : Fate config input job outcome) :
    (Unmoved job outcome.inner.jobs ∧ returnsJob job.id outcome.reply = false) ∨
    ((∃ lane, input.call = .reserve lane) ∧
      Counted outcome.inner job.id (saturatingSucc job.deliveries) ∧
      ∀ max, config.maxDeliveries = some max → ¬ overDelivered job max) := by
  cases fate with
  | kept member envelope deliveries silent =>
    exact Or.inl ⟨Or.inl ⟨_, member, congrArg JobEnvelope.id envelope, deliveries⟩, silent⟩
  | handed member envelope deliveries hands within =>
    exact Or.inr ⟨hands.1, ⟨_, member, congrArg JobEnvelope.id envelope, deliveries⟩, within⟩
  | settled _ unmoved silent => exact Or.inl ⟨unmoved, silent⟩
  | swept _ gone silent => exact Or.inl ⟨Or.inr gone, silent⟩

theorem mem_of_split {before after : List StoredJob} {found : StoredJob}
    (split : inner.jobs = before ++ found :: after) (member : job ∈ inner.jobs) :
    job = found ∨ job ∈ before ++ after := by
  rw [split] at member
  simp only [mem_append, mem_cons] at member ⊢
  tauto

theorem mem_replaced {before after : List StoredJob} {next : StoredJob}
    (inside : job ∈ before ++ after) : job ∈ before ++ next :: after := by
  simp only [mem_append, mem_cons] at inside ⊢
  tauto

theorem ids_apart {before after : List StoredJob} (distinct : (inner.jobs.map StoredJob.id).Nodup)
    (split : inner.jobs = before ++ job :: after) :
    ∀ other ∈ before ++ after, other.id ≠ job.id := by
  rw [split, map_append, map_cons] at distinct
  have apart := nodup_middle.mp distinct
  intro other inside same
  refine (nodup_cons.mp apart).1 ?_
  rw [← map_append, ← same]
  exact mem_map_of_mem inside

theorem resolve_fate {receipt : ReservationReceipt}
    {change : Inner → Nat → Inner × List DeadEntry}
    (distinct : (inner.jobs.map StoredJob.id).Nodup)
    (changes : ∀ before found after, inner.jobs = before ++ found :: after →
      ((change inner before.length).1.jobs = before ++ after ∧ Concludes input.call receipt) ∨
        ∃ next, (change inner before.length).1.jobs = before ++ next :: after ∧
          next.id = found.id ∧ next.deliveries = found.deliveries ∧
          (next.envelope = found.envelope ∨ Concludes input.call receipt))
    (member : job ∈ inner.jobs) :
    Fate config input job (resolve releaseLease inner receipt input.now change) := by
  rcases resolve_cases releaseLease inner receipt input.now change with
    ⟨jobs, aligned, equal⟩ | ⟨before, found, after, split, _, current, equal⟩
  · rw [equal]
    obtain ⟨kept, inside, released⟩ := Lib.exists_right_of_mem aligned member
    rcases released with rfl | ⟨_, rfl⟩
    · exact .kept inside rfl rfl rfl
    · exact .kept inside rfl rfl rfl
  · rw [equal]
    rcases And.intro (changes before found after split) (mem_of_split split member) with
      ⟨⟨removed, calls⟩ | ⟨next, replaced, same, count, how⟩, rfl | inside⟩
    · refine .settled ⟨receipt, _, current.held, rfl, calls⟩ (Or.inr ?_) rfl
      rw [removed]
      exact ids_apart distinct split
    · exact .kept (removed ▸ inside) rfl rfl rfl
    · have placed : next ∈ (change inner before.length).1.jobs := by simp [replaced]
      rcases how with envelope | calls
      · exact .kept placed envelope count rfl
      · exact .settled ⟨receipt, _, current.held, rfl, calls⟩ (Or.inl ⟨next, placed, same, count⟩)
          rfl
    · exact .kept (replaced ▸ mem_replaced inside) rfl rfl rfl

variable {now : Nat}

theorem insertOne_keeps (new : NewJob)
    (member : job ∈ inner.jobs) : job ∈ (insertOne inner new now).1.jobs := by
  rcases insertOne_cases inner new now with
    ⟨_, equal⟩ | ⟨_, _, _, equal⟩ | ⟨_, _, equal⟩
  · rw [equal]
    exact member
  · rw [equal]
    exact member
  · rw [equal]
    exact mem_append_left _ member

theorem insertAll_keeps (jobs : List NewJob)
    (member : job ∈ inner.jobs) : job ∈ (insertAll now inner jobs).1.jobs := by
  induction jobs generalizing inner with
  | nil => exact member
  | cons new rest ih =>
    exact ih (insertOne_keeps new member)

theorem requeue_fate (id : JobId) (member : job ∈ inner.jobs) :
    Fate config input job (requeue inner now id) := by
  rcases requeue_cases inner now id with ⟨_, _, refused⟩ | ⟨_, _, _, _, _, _, _, _, revived⟩
  · rw [refused]
    exact .kept member rfl rfl rfl
  · rw [revived]
    exact .kept (mem_append_left _ member) rfl rfl rfl

/-! ## The sweep of `reserve` -/

/-- A live job is not picked, handed out within the bound, or swept. -/
inductive LoopFate (config : Config) (lane : Lane) (now : Nat) (mint : ReservationReceipt)
    (job : StoredJob) (result : Inner × Option Reservation × List DeadEntry) :
    Prop
  | kept (member : job ∈ result.1.jobs) (other : ∀ handed, result.2.1 = some handed →
        handed.envelope.id ≠ job.id)
  | leased (member : leaseJob (saturatingAdd now config.lease) mint job ∈ result.1.jobs)
      (handed : result.2.1 = some ⟨job.envelope, mint, config.lease⟩)
      (within : ∀ max, config.maxDeliveries = some max → ¬ overDelivered job max)
  | swept {max : Nat} (inLane : job.envelope.lane = lane)
      (bounded : config.maxDeliveries = some max) (exceeded : overDelivered job max)
      (gone : ∀ other ∈ result.1.jobs, other.id ≠ job.id)
      (other : ∀ handed, result.2.1 = some handed → handed.envelope.id ≠ job.id)

section Loops

variable {lane : Lane} {mint : ReservationReceipt}
variable {result : Inner × Option Reservation × List DeadEntry}

theorem mem_deadLetterAt {before after : List StoredJob} {swept : StoredJob} {error : String}
    (split : inner.jobs = before ++ swept :: after) {entry : DeadEntry}
    (member : entry ∈ inner.dead ++ [deadEntry swept error now])
    (keeps : ∀ entry ∈ (deadLetterAt config.retention inner before.length error now).1.dead,
      entry ∈ result.1.dead ++ result.2.2) :
    entry ∈ result.1.dead ++
      ((deadLetterAt config.retention inner before.length error now).2 ++ result.2.2) := by
  rw [deadLetterAt_split _ split] at keeps ⊢
  have parts := (pruneDead_spec config.retention swept.envelope.lane now
    (inner.dead ++ [deadEntry swept error now])).2
  rcases mem_append.mp (parts.mem_iff.mp member) with still | dropped
  · rcases mem_append.mp (keeps entry still) with kept | later
    · exact mem_append_left _ kept
    · exact mem_append_right _ (mem_append_right _ later)
  · exact mem_append_right _ (mem_append_left _ dropped)

theorem Loops.shrinks (loops : Loops config lane now mint inner result) :
    (∀ other ∈ result.1.jobs, ∃ old ∈ inner.jobs, old.id = other.id) ∧
      ∀ entry ∈ inner.dead, entry ∈ result.1.dead ++ result.2.2 := by
  induction loops with
  | ends =>
    exact ⟨fun other member => ⟨other, member, rfl⟩, fun entry member => mem_append_left _ member⟩
  | @leases _ _ _ best chosen =>
    refine ⟨?_, fun entry member => mem_append_left _ member⟩
    intro other member
    rw [chosen.split]
    simp only [mem_append, mem_cons] at member ⊢
    rcases member with early | rfl | late
    · exact ⟨other, Or.inl early, rfl⟩
    · exact ⟨best, Or.inr (Or.inl rfl), rfl⟩
    · exact ⟨other, Or.inr (Or.inr late), rfl⟩
  | sweeps chosen _ _ _ ih =>
    constructor
    · intro other member
      obtain ⟨old, inside, same⟩ := ih.1 other member
      exact ⟨old, mem_of_swept chosen.split inside, same⟩
    · intro entry member
      exact mem_deadLetterAt chosen.split (mem_append_left _ member) ih.2

theorem Loops.swept {before after : List StoredJob} {best : StoredJob} {error : String}
    (distinct : (inner.jobs.map StoredJob.id).Nodup)
    (split : inner.jobs = before ++ best :: after)
    (goesOn : Loops config lane now mint
      (deadLetterAt config.retention inner before.length error now).1 result) :
    (∀ other ∈ result.1.jobs, other.id ≠ best.id) ∧
      (∀ handed, result.2.1 = some handed → handed.envelope.id ≠ best.id) ∧
      deadEntry best error now ∈ result.1.dead ++
        ((deadLetterAt config.retention inner before.length error now).2 ++ result.2.2) := by
  have apart : ∀ other ∈ (deadLetterAt config.retention inner before.length error now).1.jobs,
      other.id ≠ best.id := by
    rw [deadLetterAt_split _ split]
    exact ids_apart distinct split
  refine ⟨?_, ?_, mem_deadLetterAt split (mem_append_right _ (mem_singleton_self _))
    goesOn.shrinks.2⟩
  · intro other kept
    obtain ⟨old, listed, same⟩ := goesOn.shrinks.1 other kept
    exact same ▸ apart old listed
  · intro handed answered
    obtain ⟨other, listed, _, rfl⟩ := goesOn.handed answered
    exact apart other listed

/-- What the loop does, seen from one job. -/
theorem Loops.fate (loops : Loops config lane now mint inner result)
    (distinct : (inner.jobs.map StoredJob.id).Nodup) (member : job ∈ inner.jobs) :
    LoopFate config lane now mint job result := by
  induction loops with
  | ends => exact .kept member nofun
  | leases chosen within =>
    rcases mem_of_split chosen.split member with rfl | inside
    · exact .leased (by simp) rfl within
    · refine .kept (mem_replaced inside) ?_
      intro handed same
      cases same
      exact (ids_apart distinct chosen.split job inside).symm
  | sweeps chosen bounded exceeded goesOn ih =>
    rcases mem_of_split chosen.split member with rfl | inside
    · obtain ⟨gone, other, _⟩ := goesOn.swept distinct chosen.split
      exact .swept (visible_iff.mp chosen.chosenEligible).1 bounded exceeded gone other
    · rw [deadLetterAt_split _ chosen.split] at ih ⊢
      rw [chosen.split, map_append, map_cons] at distinct
      have rest := (nodup_cons.mp (nodup_middle.mp distinct)).2
      rw [← map_append] at rest
      cases ih rest inside with
      | kept still other => exact .kept still other
      | leased still handed within => exact .leased still handed within
      | swept inLane bounded exceeded gone other =>
        exact .swept inLane bounded exceeded gone other

end Loops

theorem releaseExpired_ids (now : Nat) (jobs : List StoredJob) :
    (releaseExpired releaseLease now jobs).map StoredJob.id = jobs.map StoredJob.id := by
  rw [releaseExpired, map_map]
  refine map_congr_left fun other _ => ?_
  simp only [Function.comp]
  split <;> rfl

theorem reserve_fate (lane : Lane) (mint : ReservationReceipt)
    (distinct : (inner.jobs.map StoredJob.id).Nodup) (member : job ∈ inner.jobs) :
    Fate config ⟨now, mint, .reserve lane⟩ job
      (reserve releaseLease config inner now mint lane) := by
  have released : (if expired now job then releaseLease job
      else job) ∈ releaseExpired releaseLease now inner.jobs :=
    mem_map.mpr ⟨job, member, rfl⟩
  generalize found : (if expired now job then releaseLease job
    else job) = freed at released
  have same : freed.envelope = job.envelope ∧ freed.deliveries = job.deliveries := by
    rw [← found]
    split <;> exact ⟨rfl, rfl⟩
  have named : freed.id = job.id := congrArg JobEnvelope.id same.1
  have apart : ((releaseExpired releaseLease now inner.jobs).map StoredJob.id).Nodup := by
    rwa [releaseExpired_ids]
  have fate := (reserveLoop_loops config lane now mint maxDeadLetterSweep
    { inner with jobs := releaseExpired releaseLease now inner.jobs }).fate apart released
  have silent : (∀ handed, (reserveLoop config lane now mint maxDeadLetterSweep
        { inner with
          jobs := releaseExpired releaseLease now inner.jobs }).2.1 =
        some handed → handed.envelope.id ≠ freed.id) →
      returnsJob job.id (reserve releaseLease config inner now mint lane).reply = false := by
    intro other
    apply Bool.eq_false_iff.mpr
    intro returns
    obtain ⟨handed, answered, own⟩ := returnsJob_iff.mp returns
    exact other handed (Value.reserved.inj (Except.ok.inj answered)) (own.trans named.symm)
  cases fate with
  | kept still other => exact .kept still same.1 same.2 (silent other)
  | leased still handed within =>
    refine .handed still same.1 (congrArg saturatingSucc same.2) ⟨⟨lane, rfl⟩, ?_⟩ ?_
    · show Except.ok (Value.reserved _) = _
      rw [handed, same.1]
    · intro max bounded
      have below := within max bounded
      unfold overDelivered at below ⊢
      rwa [same.2] at below
  | swept inLane bounded exceeded gone other =>
    refine .swept ⟨_, ?_, bounded, ?_⟩ (named ▸ gone) (silent other)
    · rw [← same.1, inLane]
    · unfold overDelivered at exceeded ⊢
      rwa [same.2] at exceeded

theorem perform_fate {job : StoredJob} (distinct : (inner.jobs.map StoredJob.id).Nodup)
    (member : job ∈ inner.jobs) :
    Fate config input job (perform releaseLease config inner input) := by
  obtain ⟨now, mint, call⟩ := input
  cases call with
  | enqueue new =>
    simp only [perform, enqueue]
    split
    · exact .kept member rfl rfl rfl
    · exact .kept (insertOne_keeps new member) rfl rfl rfl
  | enqueueBatch jobs =>
    simp only [perform, enqueueBatch]
    split
    · exact .kept member rfl rfl rfl
    · exact .kept (insertAll_keeps jobs member) rfl rfl rfl
  | reserve lane => exact reserve_fate lane mint distinct member
  | ack receipt =>
    refine resolve_fate distinct ?_ member
    intro before found after split
    exact Or.inl ⟨by rw [removeAt_split split], Or.inl rfl⟩
  | retry receipt delay =>
    refine resolve_fate distinct ?_ member
    intro before found after split
    exact Or.inr ⟨retryJob now delay found, by rw [modifyAt_split split], rfl, rfl,
      Or.inr (Or.inr (Or.inl ⟨delay, rfl⟩))⟩
  | defer receipt delay =>
    refine resolve_fate distinct ?_ member
    intro before found after split
    exact Or.inr ⟨reschedule now delay found, by rw [modifyAt_split split], rfl, rfl, Or.inl rfl⟩
  | fail receipt error =>
    refine resolve_fate distinct ?_ member
    intro before found after split
    exact Or.inl ⟨by rw [deadLetterAt_split config.retention split], Or.inr (Or.inr ⟨error, rfl⟩)⟩
  | extend receipt =>
    refine resolve_fate distinct ?_ member
    intro before found after split
    exact Or.inr ⟨extendJob (saturatingAdd now config.lease) found, by rw [modifyAt_split split],
      rfl, rfl, Or.inl rfl⟩
  | requeue id => exact requeue_fate id member
  | enqueueScheduled scheduleId occurrence new =>
    simp only [perform, enqueueScheduled]
    split
    · refine .kept (insertOne_keeps new ?_) rfl rfl rfl
      exact member
    · exact .kept member rfl rfl rfl
  | _ => exact .kept member rfl rfl rfl

end Worklane.Memory
