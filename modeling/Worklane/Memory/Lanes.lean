import Worklane.Memory.Refusals

/-!
# Lanes do not interfere

A call that does not concern a part of the broker leaves the view of the part
as it is.  Hence the calls that concern a lane are answered as if they were the
only ones, whatever is done to the other lanes in between.
-/

namespace Worklane.Memory

open List

/-! ## Calls outside the part -/

section Foreign

variable {part : Part} {now : Nat} {inner : Inner}
variable {before after : List StoredJob} {job : StoredJob}

theorem shown_replace (split : inner.jobs = before ++ job :: after)
    (foreign : part.holds job = false) {job' : StoredJob}
    (foreign' : part.holds job' = false) :
    part.shown now (before ++ job' :: after) = part.shown now inner.jobs := by
  rw [split, shown_append, shown_append, shown_cons_of_not_holds foreign,
    shown_cons_of_not_holds foreign']

theorem shown_remove (split : inner.jobs = before ++ job :: after)
    (foreign : part.holds job = false) :
    part.shown now (before ++ after) = part.shown now inner.jobs := by
  rw [split, shown_append, shown_append, shown_cons_of_not_holds foreign]

theorem removeAt_foreign (placed : part.Placed inner) (split : inner.jobs = before ++ job :: after)
    (foreign : part.holds job = false) :
    part.view now (removeAt inner before.length) = part.view now inner := by
  have keyless := (placed.jobs job (by simp [split])).key foreign
  rw [removeAt_split split, keyless]
  exact view_congr (shown_remove split foreign) rfl rfl fun _ _ => rfl

theorem modifyAt_foreign (split : inner.jobs = before ++ job :: after)
    (foreign : part.holds job = false) {change : StoredJob → StoredJob}
    (sameId : (change job).id = job.id) :
    part.view now (modifyAt inner before.length change) =
      part.view now inner := by
  have foreign' : part.holds (change job) = false := by
    rw [Part.holds, sameId]
    exact foreign
  rw [modifyAt_split split]
  exact view_congr (shown_replace split foreign foreign') rfl rfl fun _ _ => rfl

theorem deadLetterAt_foreign (placed : part.Placed inner)
    (split : inner.jobs = before ++ job :: after)
    (foreign : part.holds job = false) (retention : RetentionPolicy)
    (error : String) :
    part.view now (deadLetterAt retention inner before.length error now).1 =
      part.view now inner := by
  have member : job ∈ inner.jobs := by simp [split]
  have away : part.lane job.envelope.lane = false := by
    rw [← (placed.jobs job member).lane]
    exact foreign
  have outside : ∀ entry ∈ inner.dead ++ [deadEntry job error now],
      entry.lane = job.envelope.lane → part.buries entry = false := by
    intro entry listed same
    rcases mem_append.mp listed with old | new
    · rw [Part.buries, (placed.dead entry old).lane, same, away]
    · rw [mem_singleton.mp new]
      exact foreign
  have unburied : part.buries (deadEntry job error now) = false := foreign
  rw [deadLetterAt_split retention split, (placed.jobs job member).key foreign]
  refine view_congr (shown_remove split foreign) ?_ rfl fun _ _ => rfl
  rw [pruneDead_outside retention outside, filter_append,
    filter_cons_of_neg (by simp [unburied]), filter_nil,
    append_nil]

theorem resolve_foreign (placed : part.Placed inner)
    {receipt : ReservationReceipt} (away : part.receipt receipt = false)
    {change : Inner → Nat → Inner × List DeadEntry}
    (acts : ∀ before job after, inner.jobs = before ++ job :: after → part.holds job = false →
      part.view now (change inner before.length).1 = part.view now inner) :
    part.view now (resolve releaseLease inner receipt now change).inner =
      part.view now inner := by
  rcases resolve_cases releaseLease inner receipt now change with
    ⟨jobs, aligned, equal⟩ | ⟨before, job, after, split, _, current, equal⟩
  · rw [equal]
    exact Cleared.view part ⟨jobs, aligned, rfl⟩
  · rw [equal]
    have foreign : part.holds job = false := by
      rw [Part.holds, ← (placed.jobs job (by simp [split])).receipt receipt current.held]
      exact away
    exact acts before job after split foreign

theorem insertAll_foreign {jobs : List NewJob} (foreign : ∀ job ∈ jobs, part.job job.id = false)
    (keyless : ∀ job ∈ jobs, job.uniqueKey = none) (inner : Inner) :
    part.view now (insertAll now inner jobs).1 = part.view now inner := by
  induction jobs generalizing inner with
  | nil => rfl
  | cons job rest ih =>
    have first := @insertOne_foreign part now inner job (foreign job (mem_cons_self ..))
      (keyless job (mem_cons_self ..))
    rw [insertAll]
    exact (ih (fun other member => foreign other (mem_cons_of_mem _ member))
      (fun other member => keyless other (mem_cons_of_mem _ member))
      _).trans first.2

theorem Loops.foreign {config : Config} {lane : Lane} {mint : ReservationReceipt}
    {result : Inner × Option Reservation × List DeadEntry}
    (loops : Loops config lane now mint inner result) (away : part.lane lane = false)
    (placed : part.Placed inner) : part.view now result.1 = part.view now inner := by
  have outside : ∀ {inner : Inner} {before after : List StoredJob} {job : StoredJob},
      part.Placed inner → Lib.BestSplit (visible lane now) outranks inner.jobs before job after →
      part.holds job = false := by
    intro inner before after job placed best
    have member : job ∈ inner.jobs := by simp [best.split]
    rw [Part.holds, (placed.jobs job member).lane, (visible_iff.mp best.chosenEligible).1, away]
  induction loops with
  | ends => rfl
  | leases best =>
    have foreign := outside placed best
    exact view_congr (shown_replace best.split foreign foreign) rfl rfl fun _ _ => rfl
  | @sweeps _ _ _ _ max _ best _ _ _ ih =>
    exact (ih (placed.deadLetterAt best.split config.retention (overDeliveredText max))).trans
      (deadLetterAt_foreign placed best.split (outside placed best) _ _)

theorem requeue_foreign (placed : part.Placed inner) {id : JobId} (away : part.job id = false) :
    part.view now (requeue inner now id).inner = part.view now inner := by
  rcases requeue_cases inner now id with
    ⟨_, _, refused⟩ | ⟨before, entry, after, split, same, _, _, _, revived⟩
  · rw [refused]
  · have unburied : part.buries entry = false := by
      rw [Part.buries, same, away]
    have keyless := (placed.dead entry (by simp [split])).key unburied
    have foreign : part.holds (requeuedJob entry now) = false := unburied
    rw [revived, revive, keyless]
    refine view_congr ?_ ?_ rfl fun _ _ => rfl
    · rw [shown_append, shown_cons_of_not_holds foreign]
      exact append_nil _
    · rw [split, filter_append, filter_append, filter_cons_of_neg (by simp [unburied])]

theorem view_schedule_foreign {id : String}
    (unowned : part.schedule id = false) (occurrence : Option Int64) :
    part.view now { inner with
        schedules := Function.update inner.schedules id occurrence } =
      part.view now inner := by
  refine view_congr rfl rfl rfl ?_
  intro named owned
  have different : named ≠ id := by
    rintro rfl
    rw [unowned] at owned
    cases owned
  exact Function.update_of_ne different _ _

/-- A call that does not concern the part leaves its view as it is. -/
theorem perform_foreign (config : Config) {input : Input}
    (placed : part.Placed inner) (respects : part.Respects input)
    (foreign : part.concerns input.call = false) :
    part.view input.now (perform releaseLease config inner input).inner =
      part.view input.now inner := by
  obtain ⟨now, mint, call⟩ := input
  cases call with
  | enqueue job =>
    simp only [perform, enqueue]
    have new : job ∈ [job] := mem_singleton.mpr rfl
    have outside := (respects.jobs job new).trans foreign
    cases checkPayloadSize job with
    | error failure => rfl
    | ok value =>
      exact (insertOne_foreign inner outside (respects.keys job new foreign)).2
  | enqueueBatch jobs =>
    simp only [perform, enqueueBatch]
    have away : ∀ job ∈ jobs, part.lane job.lane = false :=
      fun job member => Bool.eq_false_iff.mpr (any_eq_false.mp foreign job member)
    cases jobs.forM checkPayloadSize with
    | error failure => rfl
    | ok value =>
      exact insertAll_foreign (fun job new => (respects.jobs job new).trans (away job new))
        (fun job new => respects.keys job new (away job new)) inner
  | reserve lane =>
    have loops := (reserveLoop_loops config lane now mint maxDeadLetterSweep _).foreign foreign
      (@Part.Placed.release part now inner placed)
    rw [view_release] at loops
    exact loops
  | ack receipt =>
    exact resolve_foreign placed foreign fun _ _ _ split outside =>
      removeAt_foreign placed split outside
  | retry receipt delay =>
    exact resolve_foreign placed foreign fun _ _ _ split outside =>
      modifyAt_foreign split outside rfl
  | defer receipt delay =>
    exact resolve_foreign placed foreign fun _ _ _ split outside =>
      modifyAt_foreign split outside rfl
  | fail receipt error =>
    exact resolve_foreign placed foreign fun _ _ _ split outside =>
      deadLetterAt_foreign placed split outside config.retention error
  | extend receipt =>
    exact resolve_foreign placed foreign fun _ _ _ split outside =>
      modifyAt_foreign split outside rfl
  | requeue id => exact requeue_foreign placed foreign
  | purgeDeadLetters lane =>
    refine view_congr rfl ?_ rfl fun _ _ => rfl
    simp only [perform, purgeDeadLetters, partition_eq_filter_filter, filter_filter]
    apply filter_congr
    intro entry member
    by_cases here : entry.lane = lane
    · have outside : part.buries entry = false := by
        rw [Part.buries, (placed.dead entry member).lane, here]
        exact foreign
      simp [outside]
    · simp [here]
  | enqueueScheduled id occurrence job =>
    have new : job ∈ [job] := mem_singleton.mpr rfl
    have outside := (respects.jobs job new).trans foreign
    have unowned : part.schedule id = false := respects.matches_.trans foreign
    simp only [perform, enqueueScheduled]
    split
    · refine (insertOne_foreign _ outside (respects.keys job new foreign)).2.trans ?_
      exact view_schedule_foreign unowned (some occurrence)
    · rfl
  | removeSchedule id => exact view_schedule_foreign foreign none
  | classify id => rfl
  | readDeadLetters lane limit => rfl
  | countDeadLetters lane => rfl
  | pendingCount lane => rfl

end Foreign

/-! ## Everything stays in its place -/

section Placed

variable {part : Part} {now : Nat} {inner : Inner}
variable {before after : List StoredJob} {job : StoredJob}

theorem Part.Placed.replace (placed : part.Placed inner)
    (split : inner.jobs = before ++ job :: after) {job' : StoredJob}
    (fits : part.Fits job → part.Fits job') :
    part.Placed { inner with jobs := before ++ job' :: after } := by
  refine ⟨?_, placed.dead⟩
  intro other member
  rcases mem_append.mp member with early | late
  · exact placed.jobs other (by simp [split, early])
  · rcases mem_cons.mp late with rfl | late
    · exact fits (placed.jobs job (by simp [split]))
    · exact placed.jobs other (by simp [split, late])

theorem Part.Placed.append (placed : part.Placed inner)
    (fits : part.Fits job) (unique : String → Option JobId) :
    part.Placed { inner with
      jobs := inner.jobs ++ [job]
      unique := unique } := by
  refine ⟨?_, placed.dead⟩
  intro other member
  rcases mem_append.mp member with old | new
  · exact placed.jobs other old
  · rw [mem_singleton.mp new]
    exact fits

theorem Part.Fits.released {job' : StoredJob} (fits : part.Fits job)
    (released : Released releaseLease now job job') : part.Fits job' := by
  rcases released with rfl | ⟨_, rfl⟩
  · exact fits
  · exact ⟨fits.lane, fun _ held => (by cases held), fits.key⟩

theorem Change.placed {config : Config} {mint : ReservationReceipt} {call : Call} {label : Label}
    {next : Inner} (change : Change releaseLease config now mint call inner label next)
    (respects : part.Respects ⟨now, mint, call⟩) (placed : part.Placed inner) :
    part.Placed next := by
  cases change with
  | store job _ _ new =>
    have lane := respects.jobs job new
    have fits : part.Fits (storedJob job now) :=
      ⟨lane, fun _ held => (by cases held), fun foreign => respects.keys job new (lane ▸ foreign)⟩
    exact placed.append fits _
  | release aligned =>
    refine ⟨?_, placed.dead⟩
    intro job member
    obtain ⟨origin, inside, released⟩ := Lib.exists_left_of_mem aligned member
    exact (placed.jobs origin inside).released released
  | lease split _ _ asked =>
    subst asked
    refine placed.replace split fun fits => ⟨fits.lane, ?_, fits.key⟩
    intro receipt held
    cases held
    have minted : part.receipt mint = part.lane _ := respects.matches_
    exact minted.trans fits.lane.symm
  | sweep error split => exact placed.bury split _ error
  | ack split => exact placed.remove split _
  | retry delay split =>
    exact placed.replace split fun fits => ⟨fits.lane, fun _ held => (by cases held), fits.key⟩
  | defer delay split =>
    exact placed.replace split fun fits => ⟨fits.lane, fun _ held => (by cases held), fits.key⟩
  | fail error split => exact placed.bury split _ error
  | extend split => exact placed.replace split fun fits => ⟨fits.lane, fits.receipt, fits.key⟩
  | drop sublist => exact placed.drop fun entry member => sublist.subset member
  | @revive before after entry split =>
    have rests := placed.dead entry (by simp [split])
    have rest : part.Placed { inner with dead := before ++ after } := by
      refine placed.drop fun other member => ?_
      rw [split]
      simp only [mem_append, mem_cons] at member ⊢
      tauto
    have fits : part.Fits (requeuedJob entry now) :=
      ⟨rests.lane, fun _ held => (by cases held), rests.key⟩
    exact rest.append fits _
  | schedule => exact ⟨placed.jobs, placed.dead⟩

theorem Part.Placed.step (config : Config) {input : Input}
    (placed : part.Placed inner) (respects : part.Respects input) :
    part.Placed (perform releaseLease config inner input).inner := by
  obtain ⟨labels, changes, _⟩ := perform_changes releaseLease config inner input
  exact changes.invariant (fun _ change => change.placed respects) placed

theorem run_placed (config : Config) {inputs : List Input}
    (respects : ∀ input ∈ inputs, part.Respects input) :
    part.Placed ((machine config).run inputs) := by
  induction inputs using List.reverseRecOn with
  | nil =>
    constructor <;>
      exact fun _ member => absurd member not_mem_nil
  | append_singleton past input ih =>
    rw [Lib.Machine.run_concat]
    exact Part.Placed.step config (ih fun other member =>
      respects other (mem_append_left _ member))
      (respects input (by simp))

end Placed

/-! ## The calls of the part alone -/

section Own

variable {part : Part} (config : Config)

/-- The calls that concern the part. -/
def Part.own (part : Part) (inputs : List Input) : List Input :=
  inputs.filter fun input => part.concerns input.call

/-- A run shows the part as the calls of the part alone show it, and answers
them alike. -/
theorem run_own {inputs : List Input} (fresh : FreshMints inputs) (ordered : ClockMonotone inputs)
    (respects : ∀ input ∈ inputs, part.Respects input) :
    (∀ now, (∀ input ∈ inputs, input.now ≤ now) → part.view now ((machine config).run inputs) =
        part.view now ((machine config).run (part.own inputs))) ∧
      ((machine config).trace inputs).filter (fun entry => part.concerns entry.1.call) =
        (machine config).trace (part.own inputs) := by
  induction inputs using List.reverseRecOn with
  | nil => exact ⟨fun _ _ => rfl, rfl⟩
  | append_singleton past input ih =>
    have before := freshMints_past _ _ fresh
    have earlier : ∀ other ∈ past, part.Respects other :=
      fun other member => respects other (mem_append_left _ member)
    obtain ⟨alike, traces⟩ := ih before (clockMonotone_past _ _ ordered) earlier
    have same := alike input.now (clockMonotone_last ordered)
    have placed := @run_placed part config past earlier
    have respected := respects input (by simp)
    rw [Lib.Machine.run_concat, Lib.Machine.trace_concat, filter_append, traces]
    cases concerned : part.concerns input.call with
    | true =>
      have own : part.own (past ++ [input]) = part.own past ++ [input] :=
        by simp [Part.own, concerned]
      have placed' := @run_placed part config (part.own past)
        fun other member => earlier other (mem_of_mem_filter member)
      have left := perform_follows config placed
        (run_distinct config before) respected (Or.inl concerned)
      have right := perform_follows config placed' (run_distinct config
          (freshMints_sublist filter_sublist before)) respected
        (Or.inl concerned)
      rw [same] at left
      have listed : ∀ reply : Reply, [(input, reply)].filter
          (fun entry => part.concerns entry.1.call) =
          [(input, reply)] := fun reply => by simp [concerned]
      rw [own, Lib.Machine.run_concat, Lib.Machine.trace_concat, listed]
      refine ⟨?_, ?_⟩
      · intro now after
        exact view_eq_later (after input (by simp)) (left.view.trans right.view.symm)
      · exact congrArg (fun reply => _ ++ [(input, reply)]) (left.reply.trans right.reply.symm)
    | false =>
      have own : part.own (past ++ [input]) = part.own past := by
        simp [Part.own, concerned]
      have kept := perform_foreign config placed respected concerned
      rw [own, filter_cons_of_neg (by simp [concerned]), filter_nil, append_nil]
      refine ⟨?_, rfl⟩
      intro now after
      exact view_eq_later (after input (by simp)) (kept.trans same)

end Own

/-! ## Other names for the receipts -/

section Rename

variable (relabel : ReservationReceipt → ReservationReceipt)

def StoredJob.rename (job : StoredJob) : StoredJob :=
  { job with receipt := job.receipt.map relabel }

def Inner.rename (inner : Inner) : Inner :=
  { inner with jobs := inner.jobs.map (StoredJob.rename relabel) }

/-- An outcome under the other names. -/
structure Renamed (outcome other : Outcome) : Prop where
  inner : other.inner = outcome.inner.rename relabel
  reply : other.reply = Reply.rename relabel outcome.reply

variable {relabel} {now : Nat} {inner : Inner}
variable {before after : List StoredJob} {job : StoredJob}

theorem rename_split (split : inner.jobs = before ++ job :: after) :
    (inner.rename relabel).jobs = before.map (StoredJob.rename relabel) ++
      job.rename relabel :: after.map (StoredJob.rename relabel) := by
  simp [Inner.rename, split]

theorem pickBest_rename (jobs : List StoredJob) (lane : Lane) :
    pickBest (jobs.map (StoredJob.rename relabel)) lane now =
      pickBest jobs lane now := by
  have aligned : List.Forall₂ (fun job job' => job' = job.rename relabel)
      jobs (jobs.map (StoredJob.rename relabel)) :=
    List.forall₂_map_right_iff.mpr (List.forall₂_same.mpr fun _ _ => rfl)
  symm
  apply Lib.bestIndex_congr aligned
  · rintro job _ rfl
    rfl
  · rintro job _ leader _ rfl rfl _ _
    rfl

theorem deadLetterAt_rename (split : inner.jobs = before ++ job :: after)
    (retention : RetentionPolicy) (error : String) :
    (deadLetterAt retention (inner.rename relabel) before.length error now).1 =
      (deadLetterAt retention inner before.length error now).1.rename
        relabel := by
  have place : before.length = (before.map (StoredJob.rename relabel)).length := by simp
  rw [place, deadLetterAt_split retention (rename_split split), ← place,
    deadLetterAt_split retention split]
  simp [Inner.rename]
  exact ⟨rfl, rfl⟩

theorem modifyAt_rename (position : Nat) {change change' : StoredJob →
    StoredJob} (split : inner.jobs = before ++ job :: after)
    (here : position = before.length)
    (same : change' (job.rename relabel) = (change job).rename relabel) :
    modifyAt (inner.rename relabel) position change' =
      (modifyAt inner position change).rename relabel := by
  have place : before.length = (before.map (StoredJob.rename relabel)).length := by simp
  rw [here, modifyAt_split split, place, modifyAt_split (rename_split split), same]
  simp [Inner.rename]

theorem removeAt_rename (split : inner.jobs = before ++ job :: after) :
    removeAt (inner.rename relabel) before.length =
      (removeAt inner before.length).rename relabel := by
  have place : before.length = (before.map (StoredJob.rename relabel)).length := by simp
  rw [removeAt_split split, place, removeAt_split (rename_split split)]
  simp [Inner.rename]
  rfl

theorem reserveLoop_rename (config : Config) (lane : Lane)
    (mint : ReservationReceipt) (left : Nat) :
    (reserveLoop config lane now (relabel mint) left (inner.rename relabel)).1 =
      (reserveLoop config lane now mint left inner).1.rename relabel ∧
    (reserveLoop config lane now (relabel mint) left (inner.rename relabel)).2.1 =
      (reserveLoop config lane now mint left inner).2.1.map (Reservation.rename relabel) := by
  induction left generalizing inner with
  | zero => exact ⟨rfl, rfl⟩
  | succ left ih =>
    rcases pickBest_cases inner.jobs lane now with
      ⟨none, hidden⟩ | ⟨before, job, after, picked, best⟩
    · have none' : pickBest (inner.rename relabel).jobs lane now =
          Option.none := (pickBest_rename inner.jobs lane).trans none
      rw [reserveLoop_empty config none, reserveLoop_empty config none']
      exact ⟨rfl, rfl⟩
    · have place : before.length = (before.map (StoredJob.rename relabel)).length := by simp
      have picked' : pickBest (inner.rename relabel).jobs lane now =
          some (before.map (StoredJob.rename relabel)).length :=
        (pickBest_rename inner.jobs lane).trans (picked.trans (congrArg some place))
      have split' := @rename_split relabel _ _ _ _ best.split
      rcases over_or_within config job with ⟨max, bounded, exceeded⟩ | within
      · rw [reserveLoop_swept bounded best.split picked exceeded,
          reserveLoop_swept bounded split' picked' exceeded, ← place]
        simp only [deadLetterAt_rename best.split]
        exact ih
      · rw [reserveLoop_leased best.split picked within, reserveLoop_leased split' picked' within,
          leaseAt_split config best.split, leaseAt_split config split']
        exact ⟨by simp [Inner.rename]; rfl, rfl⟩

theorem resolve_rename (injective : Function.Injective relabel) (receipt : ReservationReceipt)
    {change : Inner → Nat → Inner × List DeadEntry}
    (acts : ∀ before job after, inner.jobs = before ++ job :: after →
      (change (inner.rename relabel) before.length).1 =
        (change inner before.length).1.rename relabel) :
    Renamed relabel (resolve releaseLease inner receipt now change)
      (resolve releaseLease (inner.rename relabel) (relabel receipt) now change) := by
  have held : ∀ job : StoredJob, (job.rename relabel).receipt = some (relabel receipt) ↔
        job.receipt = some receipt := by
    intro job
    simp only [StoredJob.rename, Option.map_eq_some_iff]
    constructor
    · rintro ⟨other, same, equal⟩
      rw [same, injective equal]
    · intro same
      exact ⟨receipt, same, rfl⟩
  have unheld : ∀ jobs : List StoredJob, (∀ job ∈ jobs, job.receipt ≠ some receipt) →
      ∀ job ∈ jobs.map (StoredJob.rename relabel), job.receipt ≠ some (relabel receipt) := by
    intro jobs absent job member same
    obtain ⟨origin, inside, rfl⟩ := mem_map.mp member
    exact absent origin inside ((held origin).mp same)
  rcases findCurrentReceipt_cases releaseLease inner receipt now with
    ⟨found, absent⟩ | ⟨before, job, after, split, earlier, holds, exceeded,
      found⟩ | ⟨before, job, after, split, earlier, current, found⟩
  · rw [resolve, found, resolve, findCurrentReceipt_absent (unheld _ absent)]
    exact ⟨rfl, rfl⟩
  · rw [resolve, found, resolve, findCurrentReceipt_expired
      (rename_split split) (unheld _ earlier) ((held job).mpr holds) exceeded]
    exact ⟨by simp [Inner.rename]; rfl, rfl⟩
  · have place : (before.map (StoredJob.rename relabel)).length =
        before.length := by simp
    rw [resolve, found, resolve, findCurrentReceipt_current (rename_split split) (unheld _ earlier)
      ⟨(held job).mpr current.held, current.unexpired⟩, place]
    exact ⟨acts before job after split, rfl⟩

theorem isLive_rename (id : JobId) : (inner.rename relabel).isLive id = inner.isLive id := by
  simp only [Inner.isLive, Inner.rename, any_map]
  rfl

theorem insertOne_rename (new : NewJob) : insertOne (inner.rename relabel) new now =
      ((insertOne inner new now).1.rename relabel, (insertOne inner new now).2) := by
  unfold insertOne
  rw [isLive_rename]
  have keys : (inner.rename relabel).keyHolder new.uniqueKey = inner.keyHolder new.uniqueKey := rfl
  rw [keys]
  split
  · rfl
  · cases inner.keyHolder new.uniqueKey with
    | some existing => rfl
    | none => simp [Inner.rename, StoredJob.rename, storedJob]

theorem insertAll_rename (jobs : List NewJob) (inner : Inner) :
    insertAll now (inner.rename relabel) jobs = ((insertAll now inner jobs).1.rename relabel,
        (insertAll now inner jobs).2) := by
  induction jobs generalizing inner with
  | nil => rfl
  | cons job rest ih =>
    simp only [insertAll, insertOne_rename, ih]

theorem requeue_rename (id : JobId) : Renamed relabel (requeue inner now id)
      (requeue (inner.rename relabel) now id) := by
  unfold requeue
  simp only [isLive_rename]
  have dead : (inner.rename relabel).dead = inner.dead := rfl
  have unique : (inner.rename relabel).unique = inner.unique := rfl
  rw [dead, unique]
  split
  · exact ⟨rfl, rfl⟩
  · split
    · exact ⟨rfl, rfl⟩
    · split
      · exact ⟨rfl, rfl⟩
      · split
        · split
          · exact ⟨rfl, rfl⟩
          · exact ⟨by simp [Inner.rename, StoredJob.rename, requeuedJob], rfl⟩
        · exact ⟨by simp [Inner.rename, StoredJob.rename, requeuedJob], rfl⟩

theorem checkPayloadSize_rename {new : NewJob} {failure : Error}
    (refused : checkPayloadSize new = .error failure) :
    failure.rename relabel = failure := by
  unfold checkPayloadSize at refused
  split at refused
  · cases refused
    rfl
  · cases refused

theorem checkPayloadSizes_rename {jobs : List NewJob} {failure : Error}
    (refused : jobs.forM checkPayloadSize = .error failure) :
    failure.rename relabel = failure := by
  induction jobs with
  | nil => cases refused
  | cons job rest ih =>
    change (checkPayloadSize job >>= fun _ =>
      rest.forM checkPayloadSize) = .error failure at refused
    cases checked : checkPayloadSize job with
    | error other =>
      rw [checked] at refused
      cases refused
      exact checkPayloadSize_rename checked
    | ok value =>
      rw [checked] at refused
      exact ih refused

/-- Receipts are names: a call under other names has the same outcome under
the other names. -/
theorem perform_rename (injective : Function.Injective relabel)
    (config : Config) (inner : Inner) (input : Input) :
    Renamed relabel (perform releaseLease config inner input)
      (perform releaseLease config (inner.rename relabel) (input.rename relabel)) := by
  obtain ⟨now, mint, call⟩ := input
  cases call with
  | enqueue job =>
    simp only [perform, Input.rename, Call.rename, enqueue]
    cases checked : checkPayloadSize job with
    | error failure =>
      exact ⟨rfl, congrArg Except.error (checkPayloadSize_rename checked).symm⟩
    | ok value =>
      rw [insertOne_rename]
      exact ⟨rfl, rfl⟩
  | enqueueBatch jobs =>
    simp only [perform, Input.rename, Call.rename, enqueueBatch]
    cases checked : jobs.forM checkPayloadSize with
    | error failure =>
      exact ⟨rfl, congrArg Except.error (checkPayloadSizes_rename checked).symm⟩
    | ok value =>
      rw [insertAll_rename]
      exact ⟨rfl, rfl⟩
  | reserve lane =>
    have released : { inner.rename relabel with
        jobs := releaseExpired releaseLease now (inner.rename relabel).jobs } =
        { inner with
          jobs := releaseExpired releaseLease now inner.jobs }.rename
            relabel := by
      simp only [Inner.rename, releaseExpired, map_map]
      congr 2
      funext job
      simp only [Function.comp_apply]
      have same : expired now (job.rename relabel) = expired now job := rfl
      rw [same]
      split <;> rfl
    have loops := @reserveLoop_rename relabel now
      { inner with jobs := releaseExpired releaseLease now inner.jobs }
      config lane mint maxDeadLetterSweep
    simp only [perform, Input.rename, Call.rename, reserve, released]
    refine ⟨loops.1, ?_⟩
    rw [loops.2]
    exact congrArg Except.ok (Value.rename_reserved relabel _).symm
  | ack receipt =>
    exact resolve_rename injective receipt fun _ _ _ split =>
      removeAt_rename split
  | retry receipt delay =>
    exact resolve_rename injective receipt fun _ _ _ split =>
      modifyAt_rename _ split rfl rfl
  | defer receipt delay =>
    exact resolve_rename injective receipt fun _ _ _ split =>
      modifyAt_rename _ split rfl rfl
  | fail receipt error =>
    exact resolve_rename injective receipt fun _ _ _ split =>
      deadLetterAt_rename split config.retention error
  | extend receipt =>
    exact resolve_rename injective receipt fun _ _ _ split =>
      modifyAt_rename _ split rfl rfl
  | classify id =>
    refine ⟨rfl, ?_⟩
    simp only [perform, Input.rename, Call.rename, classify, isLive_rename]
    rfl
  | requeue id => exact requeue_rename id
  | pendingCount lane =>
    refine ⟨rfl, ?_⟩
    simp only [perform, Input.rename, Call.rename, Inner.rename, filter_map, length_map]
    rfl
  | enqueueScheduled id occurrence job =>
    simp only [perform, Input.rename, Call.rename, enqueueScheduled]
    have schedules : (inner.rename relabel).schedules = inner.schedules := rfl
    rw [schedules]
    split
    · have first := @insertOne_rename relabel now
        { inner with schedules := Function.update inner.schedules id (some occurrence) } job
      exact ⟨congrArg Prod.fst first, rfl⟩
    · exact ⟨rfl, rfl⟩
  | readDeadLetters lane limit => exact ⟨rfl, rfl⟩
  | countDeadLetters lane => exact ⟨rfl, rfl⟩
  | purgeDeadLetters lane => exact ⟨rfl, rfl⟩
  | removeSchedule id => exact ⟨rfl, rfl⟩

theorem run_rename (injective : Function.Injective relabel) (config : Config)
    (inputs : List Input) :
    (machine config).run (inputs.map (Input.rename relabel)) =
        ((machine config).run inputs).rename relabel ∧
      (machine config).replies (inputs.map (Input.rename relabel)) =
        ((machine config).replies inputs).map (Reply.rename relabel) := by
  induction inputs using List.reverseRecOn with
  | nil => exact ⟨rfl, rfl⟩
  | append_singleton past input ih =>
    obtain ⟨state, replies⟩ := ih
    have step := perform_rename injective config ((machine config).run past) input
    rw [map_append, map_singleton, Lib.Machine.run_concat,
      Lib.Machine.run_concat, Lib.Machine.replies_concat,
      Lib.Machine.replies_concat, state, replies, map_append]
    exact ⟨step.inner, congrArg (fun reply => _ ++ [reply]) step.reply⟩

end Rename

/-! ## Two runs that agree on a lane -/

/-- A lane with its job ids, receipts and schedules. -/
def lanePart (lane : Lane) (jobs : JobId → Bool)
    (receipts : ReservationReceipt → Bool) (schedules : String → Bool) :
    Part where
  lane := fun other => decide (other = lane)
  job := jobs
  receipt := receipts
  schedule := schedules

/-- What the calls of the part were answered in a run. -/
def Part.answers (part : Part) (config : Config) (inputs : List Input) :
    List Reply :=
  (((machine config).trace inputs).filter fun entry => part.concerns entry.1.call).map Prod.snd

/-- Two runs that make the same calls about a lane, up to the names of
receipts, answer them alike, whatever they do to the other lanes. -/
theorem lanes_do_not_interfere (config : Config) (lane : Lane) {jobs jobs' : JobId → Bool}
    {receipts receipts' : ReservationReceipt → Bool}
    {schedules schedules' : String → Bool} {left right : List Input}
    (leftFresh : FreshMints left) (rightFresh : FreshMints right)
    (leftOrdered : ClockMonotone left) (rightOrdered : ClockMonotone right)
    (leftRespects : ∀ input ∈ left, (lanePart lane jobs receipts schedules).Respects input)
    (rightRespects : ∀ input ∈ right, (lanePart lane jobs' receipts' schedules').Respects input)
    {relabel : ReservationReceipt → ReservationReceipt}
    (injective : Function.Injective relabel)
    (same : (lanePart lane jobs' receipts' schedules').own right =
      ((lanePart lane jobs receipts schedules).own left).map (Input.rename relabel)) :
    (lanePart lane jobs' receipts' schedules').answers config right =
      ((lanePart lane jobs receipts schedules).answers config left).map (Reply.rename relabel) := by
  have one := (run_own config leftFresh leftOrdered leftRespects).2
  have other := (run_own config rightFresh rightOrdered rightRespects).2
  rw [Part.answers, Part.answers, one, other, same]
  exact (run_rename injective config _).2

/-- A worker of lane `b` gets its job, with and without traffic on lane `a`
before. -/
theorem lanes_do_not_interfere_two_lanes : let config : Config := ⟨10, ⟨none, none⟩, none⟩
    let own : NewJob := ⟨⟨⟨1⟩⟩, ⟨"b"⟩, "kind", [], 3, 0, none, 0, none⟩
    let other : NewJob := ⟨⟨⟨2⟩⟩, ⟨"a"⟩, "kind", [], 3, 0, none, 0, none⟩
    let part := lanePart ⟨"b"⟩ (fun id => id = ⟨⟨1⟩⟩)
      (fun receipt => receipt = ⟨⟨7⟩⟩) (fun _ => false)
    let left : List Input := [⟨1, ⟨⟨0⟩⟩, .enqueue own⟩, ⟨20, ⟨⟨7⟩⟩, .reserve ⟨"b"⟩⟩]
    let right : List Input :=
      [⟨1, ⟨⟨0⟩⟩, .enqueue other⟩, ⟨1, ⟨⟨0⟩⟩, .enqueue own⟩,
        ⟨2, ⟨⟨5⟩⟩, .reserve ⟨"a"⟩⟩, ⟨20, ⟨⟨7⟩⟩, .reserve ⟨"b"⟩⟩]
    part.answers config left = [.ok (.jobId ⟨⟨1⟩⟩),
        .ok (.reserved (some ⟨own.intoEnvelope, ⟨⟨7⟩⟩, 10⟩))] ∧
      part.answers config right = (part.answers config left).map (Reply.rename id) := by
  refine ⟨by decide, ?_⟩
  exact lanes_do_not_interfere _ _ (by decide) (by decide) (by decide)
    (by decide) (by decide) (by decide) Function.injective_id (by decide)

end Worklane.Memory
