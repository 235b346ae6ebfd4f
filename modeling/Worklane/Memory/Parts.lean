import Worklane.Memory.Invariant
import Worklane.Memory.Retention

/-!
# A part of the store

Some lanes, with their job ids, receipts and schedules, form a part of the
broker.  The part is viewed with expired leases cleared: that a lease is over
shows in no reply, whether or not some call has cleared it.  A call that
concerns the part answers from the view and changes the view alone, and a call
that does not leaves the view as it is.
-/

namespace Worklane.Memory

open List

/-! ## Leases that are over -/

section Released

variable {now later : Nat} {job : StoredJob}

theorem releasedJob_expired (exceeded : expired now job = true) :
    releasedJob now job = releaseLease job := if_pos exceeded

theorem releasedJob_running (running : expired now job = false) :
    releasedJob now job = job := if_neg (by simp [running])

@[simp]
theorem releasedJob_envelope (now : Nat) (job : StoredJob) :
    (releasedJob now job).envelope = job.envelope := by
  unfold releasedJob
  split <;> rfl

@[simp]
theorem releasedJob_id (now : Nat) (job : StoredJob) : (releasedJob now job).id = job.id :=
  congrArg JobEnvelope.id (releasedJob_envelope now job)

@[simp]
theorem releasedJob_uniqueKey (now : Nat) (job : StoredJob) :
    (releasedJob now job).uniqueKey = job.uniqueKey := by
  unfold releasedJob
  split <;> rfl

theorem expired_releasedJob (now : Nat) (job : StoredJob) :
    expired now (releasedJob now job) = false := by
  cases exceeded : expired now job with
  | true =>
    rw [releasedJob_expired exceeded]
    rfl
  | false => rwa [releasedJob_running exceeded]

theorem expired_later (ordered : now ≤ later)
    (exceeded : expired now job = true) : expired later job = true := by
  unfold expired at exceeded ⊢
  cases leased : job.leasedUntil with
  | none =>
    rw [leased] at exceeded
    cases exceeded
  | some endsAt =>
    rw [leased] at exceeded
    simp only [Option.any_some, decide_eq_true_eq] at exceeded ⊢
    omega

theorem releasedJob_releasedJob (ordered : now ≤ later) (job : StoredJob) :
    releasedJob later (releasedJob now job) = releasedJob later job := by
  cases exceeded : expired now job with
  | true =>
    rw [releasedJob_expired exceeded, releasedJob_expired (expired_later ordered exceeded)]
    rfl
  | false => rw [releasedJob_running exceeded]

theorem receipt_of_releasedJob {receipt : ReservationReceipt}
    (held : (releasedJob now job).receipt = some receipt) :
    job.receipt = some receipt := by
  cases exceeded : expired now job with
  | true =>
    rw [releasedJob_expired exceeded] at held
    cases held
  | false => rwa [releasedJob_running exceeded] at held

end Released

/-! ## The view -/

structure Part where
  lane : Lane → Bool
  job : JobId → Bool
  receipt : ReservationReceipt → Bool
  schedule : String → Bool

/-- The whole broker. -/
def Part.all : Part where
  lane := fun _ => true
  job := fun _ => true
  receipt := fun _ => true
  schedule := fun _ => true

section View

variable (part : Part)

def Part.holds (job : StoredJob) : Bool := part.job job.id

def Part.buries (entry : DeadEntry) : Bool := part.job entry.id

def Part.shown (now : Nat) (jobs : List StoredJob) : List StoredJob :=
  (jobs.filter part.holds).map (releasedJob now)

def Part.view (now : Nat) (inner : Inner) : Inner where
  jobs := part.shown now inner.jobs
  dead := inner.dead.filter part.buries
  unique := inner.unique
  schedules := fun id => if part.schedule id then inner.schedules id else none

/-- A live job that lies in the part or in the rest with all it has. -/
structure Part.Fits (job : StoredJob) : Prop where
  lane : part.job job.id = part.lane job.envelope.lane
  receipt : ∀ receipt, job.receipt = some receipt → part.receipt receipt = part.job job.id
  key : part.job job.id = false → job.uniqueKey = none

/-- A dead letter, likewise. -/
structure Part.Rests (entry : DeadEntry) : Prop where
  lane : part.job entry.id = part.lane entry.lane
  key : part.job entry.id = false → entry.uniqueKey = none

/-- What a broker keeps about the part and about the rest lies apart. -/
structure Part.Placed (inner : Inner) : Prop where
  jobs : ∀ job ∈ inner.jobs, part.Fits job
  dead : ∀ entry ∈ inner.dead, part.Rests entry

/-- Two outcomes look the same from the part. -/
structure Part.Follows (now : Nat) (outcome other : Outcome) : Prop where
  reply : outcome.reply = other.reply
  view : part.view now outcome.inner = part.view now other.inner

end View

section Shown

variable {part : Part} {now : Nat}

theorem shown_append (early late : List StoredJob) : part.shown now (early ++ late) =
      part.shown now early ++ part.shown now late := by
  simp [Part.shown]

variable {job : StoredJob}

theorem shown_cons_of_holds (held : part.holds job = true) (rest : List StoredJob) :
    part.shown now (job :: rest) = releasedJob now job :: part.shown now rest := by
  rw [Part.shown, filter_cons_of_pos held]
  rfl

theorem shown_cons_of_not_holds (foreign : part.holds job = false) (rest : List StoredJob) :
    part.shown now (job :: rest) = part.shown now rest := by
  rw [Part.shown, filter_cons_of_neg (by simp [foreign])]
  rfl

theorem holds_releasedJob (job : StoredJob) :
    part.holds (releasedJob now job) = part.holds job := by
  rw [Part.holds, releasedJob_id, Part.holds]

theorem shown_map_releasedJob {later : Nat} (ordered : now ≤ later) (jobs : List StoredJob) :
    part.shown later (jobs.map (releasedJob now)) = part.shown later jobs := by
  induction jobs with
  | nil => rfl
  | cons job rest ih =>
    rw [map_cons]
    cases held : part.holds job with
    | true =>
      rw [shown_cons_of_holds (by rw [holds_releasedJob, held]),
        shown_cons_of_holds held, releasedJob_releasedJob ordered,
        ih]
    | false =>
      rw [shown_cons_of_not_holds (by rw [holds_releasedJob, held]),
        shown_cons_of_not_holds held, ih]

theorem shown_filter (jobs : List StoredJob) :
    part.shown now (jobs.filter part.holds) = part.shown now jobs := by
  simp [Part.shown]

theorem shown_shown {later : Nat} (ordered : now ≤ later) (jobs : List StoredJob) :
    part.shown later (part.shown now jobs) = part.shown later jobs := by
  show part.shown later ((jobs.filter part.holds).map (releasedJob now)) = _
  rw [shown_map_releasedJob ordered, shown_filter]

theorem view_view {later : Nat} (ordered : now ≤ later) (inner : Inner) :
    part.view later (part.view now inner) = part.view later inner := by
  unfold Part.view
  rw [shown_shown ordered]
  simp
  funext id
  split <;> rfl

variable {inner : Inner}

theorem view_eq_later {later : Nat} (ordered : now ≤ later)
    {other : Inner} (same : part.view now inner = part.view now other) :
    part.view later inner = part.view later other := by
  rw [← view_view ordered inner, same, view_view ordered]

theorem view_congr {other : Inner} (jobs : part.shown now inner.jobs = part.shown now other.jobs)
    (dead : inner.dead.filter part.buries = other.dead.filter part.buries)
    (unique : inner.unique = other.unique)
    (schedules : ∀ id, part.schedule id = true → inner.schedules id = other.schedules id) :
    part.view now inner = part.view now other := by
  unfold Part.view
  rw [jobs, dead, unique, Inner.mk.injEq]
  refine ⟨rfl, rfl, rfl, ?_⟩
  funext id
  split
  · next owned => exact schedules id owned
  · rfl

theorem view_split {before after : List StoredJob} (split : inner.jobs = before ++ job :: after)
    (held : part.holds job = true) :
    (part.view now inner).jobs =
      part.shown now before ++ releasedJob now job :: part.shown now after := by
  show part.shown now inner.jobs = _
  rw [split, shown_append, shown_cons_of_holds held]

theorem mem_view_jobs : job ∈ (part.view now inner).jobs ↔
      ∃ other ∈ inner.jobs, part.holds other = true ∧ releasedJob now other = job := by
  simp [Part.view, Part.shown, and_assoc]

end Shown

/-! ## Calls that concern the part -/

section Concerned

variable {part : Part} {now : Nat} {inner : Inner}
variable {before after : List StoredJob} {job : StoredJob}

theorem buries_filter (dead : List DeadEntry) : (dead.filter part.buries).filter part.buries =
      dead.filter part.buries := by
  simp

theorem schedules_view (part : Part) (now : Nat) (inner : Inner) : ∀ id, part.schedule id = true →
      inner.schedules id = (part.view now inner).schedules id :=
  fun _ owned => (if_pos owned).symm

theorem view_running_split (split : inner.jobs = before ++ job :: after)
    (held : part.holds job = true) (running : expired now job = false) :
    (part.view now inner).jobs = part.shown now before ++ job :: part.shown now after := by
  rw [view_split split held, releasedJob_running running]

theorem removeAt_follows (split : inner.jobs = before ++ job :: after)
    (held : part.holds job = true) (running : expired now job = false) :
    part.view now (removeAt inner before.length) = part.view now (removeAt (part.view now inner)
        (part.shown now before).length) := by
  rw [removeAt_split split, removeAt_split (view_running_split split held running)]
  refine view_congr ?_ (buries_filter _).symm rfl (schedules_view part now inner)
  simp only [shown_append, shown_shown (Nat.le_refl now)]

theorem modifyAt_follows (split : inner.jobs = before ++ job :: after)
    (held : part.holds job = true) (running : expired now job = false)
    {change : StoredJob → StoredJob} (sameId : (change job).id = job.id) :
    part.view now (modifyAt inner before.length change) =
      part.view now (modifyAt (part.view now inner) (part.shown now before).length change) := by
  have changed : part.holds (change job) = true := by
    rw [Part.holds, sameId]
    exact held
  rw [modifyAt_split split, modifyAt_split (view_running_split split held running)]
  refine view_congr ?_ (buries_filter _).symm rfl (schedules_view part now inner)
  simp only [shown_append, shown_cons_of_holds changed, shown_shown (Nat.le_refl now)]

theorem deadLetterAt_follows (placed : part.Placed inner)
    (split : inner.jobs = before ++ job :: after)
    (held : part.holds job = true) (running : expired now job = false)
    (retention : RetentionPolicy) (error : String) :
    part.view now (deadLetterAt retention inner before.length error now).1 =
      part.view now (deadLetterAt retention (part.view now inner)
        (part.shown now before).length error now).1 := by
  have here : part.lane job.envelope.lane = true := by
    rw [← (placed.jobs job (by simp [split])).lane]
    exact held
  have inside : ∀ entry ∈ inner.dead ++ [deadEntry job error now],
      entry.lane = job.envelope.lane → part.buries entry = true := by
    intro entry member same
    rcases mem_append.mp member with old | new
    · rw [Part.buries, (placed.dead entry old).lane, same, here]
    · rw [mem_singleton.mp new]
      exact held
  have new : [deadEntry job error now].filter part.buries =
      [deadEntry job error now] := filter_cons_of_pos held
  rw [deadLetterAt_split retention split, deadLetterAt_split retention
    (view_running_split split held running)]
  refine view_congr ?_ ?_ rfl (schedules_view part now inner)
  · simp only [shown_append, shown_shown (Nat.le_refl now)]
  · show (pruneDead retention job.envelope.lane now
        (inner.dead ++ [deadEntry job error now])).1.filter part.buries =
      (pruneDead retention job.envelope.lane now (inner.dead.filter part.buries ++
          [deadEntry job error now])).1.filter part.buries
    have again : inner.dead.filter part.buries ++ [deadEntry job error now] =
        (inner.dead ++ [deadEntry job error now]).filter part.buries := by
      rw [filter_append, new]
    rw [again, pruneDead_filter retention inside, pruneDead_filter retention fun entry member =>
      inside entry (mem_of_mem_filter member), buries_filter]

variable {receipt : ReservationReceipt}

theorem findCurrentReceipt_absent (absent : ∀ job ∈ inner.jobs, job.receipt ≠ some receipt) :
    findCurrentReceipt releaseLease inner receipt now = (inner, .error (stale receipt)) := by
  have missed : (inner.jobs.findIdx? fun job => job.receipt = some receipt) =
      none := by
    apply findIdx?_eq_none_iff.mpr
    intro job member
    exact decide_eq_false (absent job member)
  rw [findCurrentReceipt, missed]

theorem findCurrentReceipt_current (split : inner.jobs = before ++ job :: after)
    (earlier : ∀ other ∈ before, other.receipt ≠ some receipt)
    (current : Current now job receipt) :
    findCurrentReceipt releaseLease inner receipt now = (inner, .ok before.length) := by
  have found : (inner.jobs.findIdx? fun job => job.receipt = some receipt) =
      some before.length := by
    rw [split]
    exact Lib.findIdx?_split (fun other member => decide_eq_false (earlier other member))
      (decide_eq_true current.held)
  have running : (inner.jobs[before.length]?.any (expired now)) = false := by
    rw [split, Lib.getElem?_split]
    exact current.unexpired
  rw [findCurrentReceipt, found]
  simp only [running, Bool.false_eq_true, if_false]

theorem findCurrentReceipt_expired (split : inner.jobs = before ++ job :: after)
    (earlier : ∀ other ∈ before, other.receipt ≠ some receipt)
    (held : job.receipt = some receipt) (exceeded : expired now job = true) :
    findCurrentReceipt releaseLease inner receipt now =
      ({ inner with jobs := before ++ releaseLease job :: after }, .error (stale receipt)) := by
  have found : (inner.jobs.findIdx? fun job => job.receipt = some receipt) =
      some before.length := by
    rw [split]
    exact Lib.findIdx?_split (fun other member => decide_eq_false (earlier other member))
      (decide_eq_true held)
  have ended : (inner.jobs[before.length]?.any (expired now)) = true := by
    rw [split, Lib.getElem?_split]
    exact exceeded
  rw [findCurrentReceipt, found]
  simp only [ended, if_true]
  rw [split, Lib.modify_split]

theorem receipt_elsewhere (distinct : inner.receipts.Nodup)
    (split : inner.jobs = before ++ job :: after) (held : job.receipt = some receipt) :
    ∀ other ∈ after, other.receipt ≠ some receipt := by
  intro other member same
  rw [Inner.receipts, split, filterMap_append, filterMap_cons_some held] at distinct
  have tail := (nodup_cons.mp (nodup_append.mp distinct).2.1).1
  exact tail (mem_filterMap.mpr ⟨other, member, same⟩)

theorem resolve_follows (placed : part.Placed inner) (distinct : inner.receipts.Nodup)
    (owned : part.receipt receipt = true)
    {change : Inner → Nat → Inner × List DeadEntry}
    (acts : ∀ before job after, inner.jobs = before ++ job :: after →
      part.holds job = true → expired now job = false →
      part.view now (change inner before.length).1 = part.view now (change (part.view now inner)
          (part.shown now before).length).1) :
    part.Follows now (resolve releaseLease inner receipt now change)
      (resolve releaseLease (part.view now inner) receipt now change) := by
  have same := (@view_view part now now (Nat.le_refl now) inner).symm
  have receipt_of_view : ∀ jobs, ∀ other ∈ part.shown now jobs,
      other.receipt = some receipt → ∃ origin ∈ jobs,
        origin.receipt = some receipt ∧ expired now origin = false := by
    intro jobs other member holds
    obtain ⟨origin, inside, rfl⟩ := mem_map.mp member
    refine ⟨origin, mem_of_mem_filter inside, receipt_of_releasedJob holds, ?_⟩
    by_contra exceeded
    rw [releasedJob_expired (by simpa using exceeded)] at holds
    cases holds
  rcases findCurrentReceipt_cases releaseLease inner receipt now with
    ⟨found, absent⟩ | ⟨before, job, after, split, earlier, held, exceeded,
      found⟩ | ⟨before, job, after, split, earlier, current, found⟩
  · have absent' : ∀ other ∈ (part.view now inner).jobs, other.receipt ≠ some receipt := by
      intro other member holds
      obtain ⟨origin, inside, had, _⟩ := receipt_of_view _ other member holds
      exact absent origin inside had
    rw [resolve, found, resolve, findCurrentReceipt_absent absent']
    exact ⟨rfl, same⟩
  · have absent' : ∀ other ∈ (part.view now inner).jobs, other.receipt ≠ some receipt := by
      intro other member holds
      obtain ⟨origin, inside, had, running⟩ := receipt_of_view _ other member holds
      rw [split] at inside
      rcases mem_append.mp inside with early | late
      · exact earlier origin early had
      · rcases mem_cons.mp late with rfl | late
        · rw [exceeded] at running
          cases running
        · exact receipt_elsewhere distinct split held origin late had
    rw [resolve, found, resolve, findCurrentReceipt_absent absent']
    refine ⟨rfl, ?_⟩
    show part.view now { inner with jobs := _ } = _
    rw [← same]
    refine view_congr ?_ rfl rfl fun _ _ => rfl
    rw [split, shown_append, shown_append]
    cases holds : part.holds job with
    | true =>
      have holds' : part.holds (releaseLease job) = true := holds
      rw [shown_cons_of_holds holds, shown_cons_of_holds holds', releasedJob_expired exceeded]
      rfl
    | false =>
      have holds' : part.holds (releaseLease job) = false := holds
      rw [shown_cons_of_not_holds holds, shown_cons_of_not_holds holds']
  · have holds : part.holds job = true := by
      rw [Part.holds, ← (placed.jobs job (by simp [split])).receipt receipt current.held]
      exact owned
    have earlier' : ∀ other ∈ part.shown now before, other.receipt ≠ some receipt := by
      intro other member holds
      obtain ⟨origin, inside, had, _⟩ := receipt_of_view _ other member holds
      exact earlier origin inside had
    have found' := findCurrentReceipt_current
      (view_running_split split holds current.unexpired) earlier' current
    rw [resolve, found, resolve, found']
    exact ⟨rfl, acts before job after split holds current.unexpired⟩

theorem isLive_view {id : JobId} (owned : part.job id = true) :
    (part.view now inner).isLive id = inner.isLive id := by
  rw [Bool.eq_iff_iff, Inner.isLive, Inner.isLive, any_eq_true, any_eq_true]
  constructor
  · rintro ⟨job, member, same⟩
    obtain ⟨origin, inside, _, rfl⟩ := mem_view_jobs.mp member
    rw [releasedJob_id] at same
    exact ⟨origin, inside, same⟩
  · rintro ⟨job, member, same⟩
    have holds : part.holds job = true := by
      rw [Part.holds, of_decide_eq_true same, owned]
    refine ⟨releasedJob now job, mem_view_jobs.mpr ⟨job, member, holds, rfl⟩, ?_⟩
    rwa [releasedJob_id]

theorem releasedJob_stored (job : NewJob) :
    releasedJob now (storedJob job now) = storedJob job now :=
  releasedJob_running rfl

theorem insertOne_foreign (inner : Inner) {job : NewJob}
    (foreign : part.job job.id = false) (keyless : job.uniqueKey = none) :
    (insertOne inner job now).2 = job.id ∧
      part.view now (insertOne inner job now).1 = part.view now inner := by
  rcases insertOne_cases inner job now with
    ⟨_, equal⟩ | ⟨holder, _, held, _⟩ | ⟨_, _, equal⟩
  · rw [equal]
    exact ⟨rfl, rfl⟩
  · rw [keyless] at held
    cases held
  · rw [equal, keyless]
    refine ⟨rfl, view_congr ?_ rfl rfl fun _ _ => rfl⟩
    have outside : part.holds (storedJob job now) = false := foreign
    rw [shown_append, shown_cons_of_not_holds outside]
    exact append_nil _

theorem insertOne_follows (inner : Inner) {job : NewJob}
    (keyless : part.job job.id = false → job.uniqueKey = none) :
    (insertOne inner job now).2 = (insertOne (part.view now inner) job now).2 ∧
      part.view now (insertOne inner job now).1 =
        part.view now (insertOne (part.view now inner) job now).1 := by
  have same := @view_view part now now (Nat.le_refl now) inner
  cases owned : part.job job.id with
  | false =>
    have left := @insertOne_foreign part now inner job owned (keyless owned)
    have right := @insertOne_foreign part now (part.view now inner) job owned (keyless owned)
    rw [left.1, left.2, right.1, right.2, same]
    exact ⟨rfl, rfl⟩
  | true =>
    unfold insertOne
    rw [isLive_view owned]
    split
    · exact ⟨rfl, same.symm⟩
    · have keys : (part.view now inner).keyHolder job.uniqueKey =
          inner.keyHolder job.uniqueKey := rfl
      rw [keys]
      cases inner.keyHolder job.uniqueKey with
      | some existing => exact ⟨rfl, same.symm⟩
      | none =>
        refine ⟨rfl, view_congr ?_ (buries_filter _).symm rfl (schedules_view part now inner)⟩
        have inside : part.holds (storedJob job now) = true := owned
        simp only [Part.view, shown_append, shown_cons_of_holds inside, releasedJob_stored,
          shown_shown (Nat.le_refl now)]

theorem insertAll_follows {jobs : List NewJob} (keyless : ∀ job ∈ jobs, part.job job.id = false →
      job.uniqueKey = none) (inner : Inner) :
    (insertAll now inner jobs).2 = (insertAll now (part.view now inner) jobs).2 ∧
      part.view now (insertAll now inner jobs).1 =
        part.view now (insertAll now (part.view now inner) jobs).1 := by
  induction jobs generalizing inner with
  | nil => exact ⟨rfl, (view_view (Nat.le_refl now) inner).symm⟩
  | cons job rest ih =>
    have first := @insertOne_follows part now inner job (keyless job (mem_cons_self ..))
    have later := ih fun other member =>
      keyless other (mem_cons_of_mem _ member)
    have left := later (insertOne inner job now).1
    have right := later (insertOne (part.view now inner) job now).1
    rw [← first.2] at right
    simp only [insertAll]
    refine ⟨?_, left.2.trans right.2.symm⟩
    rw [first.1, left.1, right.1]

/-! ### `reserve` -/

theorem Part.Fits.releasedJob (fits : part.Fits job) : part.Fits (releasedJob now job) where
  lane := by
    rw [releasedJob_id, releasedJob_envelope]
    exact fits.lane
  receipt := by
    intro receipt held
    rw [releasedJob_id]
    exact fits.receipt receipt (receipt_of_releasedJob held)
  key := by
    rw [releasedJob_id, releasedJob_uniqueKey]
    exact fits.key

theorem Part.Placed.view (placed : part.Placed inner) : part.Placed (part.view now inner) where
  jobs := by
    intro job member
    obtain ⟨origin, inside, _, rfl⟩ := mem_view_jobs.mp member
    exact (placed.jobs origin inside).releasedJob
  dead := fun entry member => placed.dead entry (mem_of_mem_filter member)

theorem Part.Placed.release (placed : part.Placed inner) :
    part.Placed { inner with jobs := inner.jobs.map (releasedJob now) } where
  jobs := by
    intro job member
    obtain ⟨origin, inside, rfl⟩ := mem_map.mp member
    exact (placed.jobs origin inside).releasedJob
  dead := placed.dead

theorem Part.Placed.remove (placed : part.Placed inner)
    (split : inner.jobs = before ++ job :: after) (unique : String → Option JobId) :
    part.Placed { inner with jobs := before ++ after, unique := unique } := by
  refine ⟨fun other member => placed.jobs other ?_, placed.dead⟩
  rw [split]
  simp only [mem_append, mem_cons] at member ⊢
  tauto

theorem Part.Placed.bury (placed : part.Placed inner)
    (split : inner.jobs = before ++ job :: after) (unique : String → Option JobId)
    (error : String) :
    part.Placed { inner with
      jobs := before ++ after
      unique := unique
      dead := inner.dead ++ [deadEntry job error now] } := by
  have fits := placed.jobs job (by simp [split])
  refine ⟨(placed.remove split unique).jobs, ?_⟩
  intro entry member
  rcases mem_append.mp member with old | new
  · exact placed.dead entry old
  · rw [mem_singleton.mp new]
    exact ⟨fits.lane, fits.key⟩

theorem Part.Placed.drop (placed : part.Placed inner) {dead : List DeadEntry}
    (subset : ∀ entry ∈ dead, entry ∈ inner.dead) : part.Placed { inner with dead := dead } :=
  ⟨placed.jobs, fun entry member => placed.dead entry (subset entry member)⟩

theorem Part.Placed.deadLetterAt (placed : part.Placed inner)
    (split : inner.jobs = before ++ job :: after)
    (retention : RetentionPolicy) (error : String) :
    part.Placed (deadLetterAt retention inner before.length error now).1 := by
  rw [deadLetterAt_split retention split]
  exact (placed.bury split _ error).drop fun entry member =>
    (pruneDead_spec retention _ now _).1.subset member

/-- No lease is over. -/
def Settled (now : Nat) (inner : Inner) : Prop :=
  ∀ job ∈ inner.jobs, expired now job = false

theorem settled_view : Settled now (part.view now inner) := by
  intro job member
  obtain ⟨origin, _, _, rfl⟩ := mem_view_jobs.mp member
  exact expired_releasedJob now origin

theorem shown_of_settled {jobs : List StoredJob} (settled : ∀ job ∈ jobs, expired now job = false) :
    part.shown now jobs = jobs.filter part.holds := by
  have same : ∀ job ∈ jobs.filter part.holds, releasedJob now job = job :=
    fun job member =>
      releasedJob_running (settled job (mem_of_mem_filter member))
  rw [Part.shown, map_congr_left same, map_id']

theorem Settled.deadLetterAt (settled : Settled now inner)
    (split : inner.jobs = before ++ job :: after)
    (retention : RetentionPolicy) (error : String) :
    Settled now (deadLetterAt retention inner before.length error now).1 := by
  rw [deadLetterAt_split retention split]
  intro other member
  apply settled other
  rw [split]
  rcases mem_append.mp member with early | late
  · exact mem_append_left _ early
  · exact mem_append_right _ (mem_cons_of_mem _ late)

variable {lane : Lane}

theorem pickBest_view_none (settled : Settled now inner)
    (hidden : ∀ job ∈ inner.jobs, visible lane now job = false) :
    pickBest (part.view now inner).jobs lane now = none := by
  rcases pickBest_cases (part.view now inner).jobs lane now with
    ⟨none, _⟩ | ⟨before, job, after, _, best⟩
  · exact none
  · have member : job ∈ (part.view now inner).jobs := by
      rw [best.split]
      simp
    obtain ⟨origin, inside, _, rfl⟩ := mem_view_jobs.mp member
    have seen := best.chosenEligible
    rw [releasedJob_running (settled origin inside), hidden origin inside] at seen
    cases seen

theorem pickBest_view_some (settled : Settled now inner) (held : part.holds job = true)
    (best : Lib.BestSplit (visible lane now) outranks inner.jobs before job after) :
    pickBest (part.view now inner).jobs lane now = some (part.shown now before).length := by
  have early : ∀ other ∈ before, expired now other = false :=
    fun other member => settled other (by simp [best.split, member])
  have whole : (part.view now inner).jobs = inner.jobs.filter part.holds := shown_of_settled settled
  rw [pickBest, whole, (best.filter held).bestIndex_eq outranks_ranking, shown_of_settled early]

theorem reserveLoop_follows (config : Config)
    (here : part.lane lane = true) (mint : ReservationReceipt) (left : Nat)
    (placed : part.Placed inner) (settled : Settled now inner) :
    (reserveLoop config lane now mint left inner).2.1 =
        (reserveLoop config lane now mint left (part.view now inner)).2.1 ∧
      part.view now (reserveLoop config lane now mint left inner).1 =
        part.view now (reserveLoop config lane now mint left (part.view now inner)).1 := by
  have same : ∀ inner : Inner, part.view now inner =
      part.view now (part.view now inner) := fun inner =>
    (view_view (Nat.le_refl now) inner).symm
  induction left generalizing inner with
  | zero => exact ⟨rfl, same inner⟩
  | succ left ih =>
    rcases pickBest_cases inner.jobs lane now with
      ⟨none, hidden⟩ | ⟨before, job, after, picked, best⟩
    · rw [reserveLoop_empty config none, reserveLoop_empty config
        (pickBest_view_none settled hidden)]
      exact ⟨rfl, same inner⟩
    · have member : job ∈ inner.jobs := by simp [best.split]
      have held : part.holds job = true := by
        rw [Part.holds, (placed.jobs job member).lane, (visible_iff.mp best.chosenEligible).1, here]
      have running := settled job member
      have split' := view_running_split best.split held running
      have picked' := pickBest_view_some settled held best
      rcases over_or_within config job with ⟨max, bounded, exceeded⟩ | within
      · rw [reserveLoop_swept bounded best.split picked exceeded,
          reserveLoop_swept bounded split' picked' exceeded]
        have moved := deadLetterAt_follows placed best.split held running
          config.retention (overDeliveredText max)
        have left := ih (placed.deadLetterAt best.split config.retention (overDeliveredText max))
          (settled.deadLetterAt best.split config.retention (overDeliveredText max))
        have right := ih (placed.view.deadLetterAt split' config.retention (overDeliveredText max))
          (settled_view.deadLetterAt split' config.retention (overDeliveredText max))
        rw [← moved] at right
        exact ⟨left.1.trans right.1.symm, left.2.trans right.2.symm⟩
      · rw [reserveLoop_leased best.split picked within, reserveLoop_leased split' picked' within,
          leaseAt_split config best.split, leaseAt_split config split']
        refine ⟨rfl, view_congr ?_ (buries_filter _).symm rfl (schedules_view part now inner)⟩
        have leased : part.holds (leaseJob (saturatingAdd now config.lease) mint job) = true := held
        simp only [shown_append, shown_cons_of_holds leased, shown_shown (Nat.le_refl now)]

theorem settled_release : Settled now { inner with jobs := inner.jobs.map (releasedJob now) } := by
  intro job member
  obtain ⟨origin, _, rfl⟩ := mem_map.mp member
  exact expired_releasedJob now origin

theorem view_release : part.view now { inner with jobs := inner.jobs.map (releasedJob now) } =
      part.view now inner :=
  view_congr (shown_map_releasedJob (Nat.le_refl now) inner.jobs) rfl rfl fun _ _ => rfl

theorem release_of_settled (settled : Settled now inner) :
    { inner with jobs := inner.jobs.map (releasedJob now) } = inner := by
  have same : inner.jobs.map (releasedJob now) = inner.jobs := by
    rw [map_congr_left fun job member =>
      releasedJob_running (settled job member), map_id']
  rw [same]

theorem reserve_follows (config : Config) (here : part.lane lane = true) (mint : ReservationReceipt)
    (placed : part.Placed inner) :
    part.Follows now (reserve releaseLease config inner now mint lane)
      (reserve releaseLease config (part.view now inner) now mint lane) := by
  have loops := reserveLoop_follows config here mint maxDeadLetterSweep
    placed.release (@settled_release now inner)
  rw [view_release] at loops
  have shown := @release_of_settled now (part.view now inner) settled_view
  constructor
  · show Except.ok (Value.reserved (reserveLoop config lane now mint
      maxDeadLetterSweep { inner with
        jobs := inner.jobs.map (releasedJob now) }).2.1) =
      Except.ok (Value.reserved (reserveLoop config lane now mint
        maxDeadLetterSweep { part.view now inner with
          jobs := (part.view now inner).jobs.map (releasedJob now) }).2.1)
    rw [shown, loops.1]
  · show part.view now (reserveLoop config lane now mint
      maxDeadLetterSweep { inner with
        jobs := inner.jobs.map (releasedJob now) }).1 =
      part.view now (reserveLoop config lane now mint
        maxDeadLetterSweep { part.view now inner with
          jobs := (part.view now inner).jobs.map (releasedJob now) }).1
    rw [shown, loops.2]

/-! ### Dead letters and schedules -/

theorem view_lane_dead (placed : part.Placed inner) (here : part.lane lane = true) :
    (part.view now inner).dead.filter (fun entry => entry.lane = lane) =
      inner.dead.filter fun entry => entry.lane = lane :=
  filter_lane_filter fun entry member same => by
    rw [Part.buries, (placed.dead entry member).lane, same, here]

theorem requeue_follows {id : JobId} (owned : part.job id = true) :
    part.Follows now (requeue inner now id) (requeue (part.view now inner) now id) := by
  have same := (@view_view part now now (Nat.le_refl now) inner).symm
  unfold requeue
  cases located : inner.dead.findIdx? fun entry => entry.id = id with
  | none =>
    have absent : ((part.view now inner).dead.findIdx? fun entry =>
      entry.id = id) = none := by
      apply findIdx?_eq_none_iff.mpr
      intro entry member
      exact findIdx?_eq_none_iff.mp located entry (mem_of_mem_filter member)
    rw [absent]
    exact ⟨rfl, same⟩
  | some position =>
    obtain ⟨before, entry, after, split, rfl, found, missed⟩ := Lib.exists_split_of_findIdx? located
    have named : entry.id = id := of_decide_eq_true found
    have buried : part.buries entry = true := by
      rw [Part.buries, named, owned]
    have split' : (part.view now inner).dead = before.filter part.buries ++
          entry :: after.filter part.buries := by
      show inner.dead.filter part.buries = _
      rw [split, filter_append, filter_cons_of_pos buried]
    have located' : ((part.view now inner).dead.findIdx? fun entry =>
      entry.id = id) = some (before.filter part.buries).length := by
      rw [split']
      exact Lib.findIdx?_split (fun other member => missed other (mem_of_mem_filter member)) found
    have revived : ∀ unique : String → Option JobId, part.view now
          { inner with
            jobs := inner.jobs ++ [requeuedJob entry now]
            dead := before ++ after
            unique := unique } =
        part.view now
          { part.view now inner with
            jobs := (part.view now inner).jobs ++ [requeuedJob entry now]
            dead := before.filter part.buries ++ after.filter part.buries
            unique := unique } := by
      intro unique
      have inside : part.holds (requeuedJob entry now) = true := buried
      have idle : releasedJob now (requeuedJob entry now) =
          requeuedJob entry now := releasedJob_running rfl
      refine view_congr ?_ ?_ rfl (schedules_view part now inner)
      · simp only [Part.view, shown_append, shown_cons_of_holds inside,
          idle, shown_shown (Nat.le_refl now)]
      · simp
    rw [located']
    simp only [isLive_view owned]
    by_cases live : inner.isLive id = true
    · rw [if_pos live, if_pos live]
      exact ⟨rfl, same⟩
    · rw [if_neg live, if_neg live]
      rw [split, split']
      simp only [Lib.getElem?_split, Lib.eraseIdx_split]
      cases entry.uniqueKey with
      | none => exact ⟨rfl, revived inner.unique⟩
      | some key =>
        have keys : (part.view now inner).unique key =
          inner.unique key := rfl
        simp only [keys]
        by_cases taken : (inner.unique key).isSome = true
        · rw [if_pos taken, if_pos taken]
          exact ⟨rfl, same⟩
        · rw [if_neg taken, if_neg taken]
          exact ⟨rfl, revived (claimKey inner.unique (some key) id)⟩

theorem length_purged (dead : List DeadEntry) (lane : Lane) :
    dead.length - (dead.partition fun entry =>
      decide (entry.lane ≠ lane)).1.length =
      (dead.filter fun entry => entry.lane = lane).length := by
  have parts := length_eq_length_filter_add
    (fun entry : DeadEntry => decide (entry.lane = lane)) (l := dead)
  rw [partition_eq_filter_filter]
  simp only [decide_not]
  omega

theorem purgeDeadLetters_follows (placed : part.Placed inner) (here : part.lane lane = true) :
    part.Follows now (purgeDeadLetters inner lane)
      (purgeDeadLetters (part.view now inner) lane) := by
  constructor
  · simp only [purgeDeadLetters, length_purged, view_lane_dead placed here]
  · refine view_congr (shown_shown (Nat.le_refl now) _).symm ?_ rfl (schedules_view part now inner)
    simp only [purgeDeadLetters, Part.view, partition_eq_filter_filter, filter_filter]
    apply filter_congr
    intro entry _
    cases part.buries entry <;> simp

theorem schedule_follows {inner other : Inner}
    (same : part.view now inner = part.view now other) (id : String)
    (occurrence : Option Int64) :
    part.view now { inner with
        schedules := Function.update inner.schedules id occurrence } =
      part.view now { other with
        schedules := Function.update other.schedules id occurrence } := by
  have jobs := congrArg Inner.jobs same
  have dead := congrArg Inner.dead same
  have unique := congrArg Inner.unique same
  refine view_congr jobs dead unique ?_
  intro named owned
  have schedules := congrFun (congrArg Inner.schedules same) named
  have shown : inner.schedules named = other.schedules named := by
    simpa [Part.view, owned] using schedules
  by_cases here : named = id
  · subst here
    simp
  · simp [Function.update_of_ne here, shown]

/-- The calls about lanes, jobs, receipts or schedules of the part. -/
def Part.concerns (part : Part) : Call → Bool
  | .enqueue job => part.lane job.lane
  | .enqueueBatch jobs => jobs.any fun job => part.lane job.lane
  | .reserve lane => part.lane lane
  | .ack receipt => part.receipt receipt
  | .retry receipt _ => part.receipt receipt
  | .defer receipt _ => part.receipt receipt
  | .fail receipt _ => part.receipt receipt
  | .extend receipt => part.receipt receipt
  | .classify id => part.job id
  | .readDeadLetters lane _ => part.lane lane
  | .countDeadLetters lane => part.lane lane
  | .requeue id => part.job id
  | .purgeDeadLetters lane => part.lane lane
  | .pendingCount lane => part.lane lane
  | .enqueueScheduled _ _ job => part.lane job.lane
  | .removeSchedule id => part.schedule id

/-- The receipt or the schedule of a call belongs where its lane does. -/
def Part.Matches (part : Part) (input : Input) : Prop :=
  match input.call with
  | .reserve lane => part.receipt input.mint = part.lane lane
  | .enqueueScheduled id _ job => part.schedule id = part.lane job.lane
  | _ => True

instance (part : Part) (input : Input) : Decidable (part.Matches input) := by
  unfold Part.Matches
  split <;> infer_instance

/-- Job ids, receipts and schedule ids belong to the part or to the rest, and
jobs of the rest carry no unique key. -/
structure Part.Respects (part : Part) (input : Input) : Prop where
  jobs : ∀ job ∈ input.call.newJobs, part.job job.id = part.lane job.lane
  keys : ∀ job ∈ input.call.newJobs, part.lane job.lane = false → job.uniqueKey = none
  matches_ : part.Matches input

instance (part : Part) (input : Input) : Decidable (part.Respects input) :=
  decidable_of_iff ((∀ job ∈ input.call.newJobs, part.job job.id = part.lane job.lane ∧
          (part.lane job.lane = false → job.uniqueKey = none)) ∧
      part.Matches input)
    ⟨fun checked => ⟨fun job new => (checked.1 job new).1,
        fun job new => (checked.1 job new).2, checked.2⟩,
      fun respects => ⟨fun job new =>
        ⟨respects.jobs job new, respects.keys job new⟩, respects.matches_⟩⟩

theorem Part.Respects.keyless {input : Input} (respects : part.Respects input)
    {job : NewJob} (new : job ∈ input.call.newJobs)
    (foreign : part.job job.id = false) : job.uniqueKey = none :=
  respects.keys job new ((respects.jobs job new) ▸ foreign)

theorem classify_view {id : JobId} (owned : part.job id = true) :
    classify (part.view now inner) id = classify inner id := by
  have dead : ((part.view now inner).dead.any fun entry =>
    decide (entry.id = id)) =
    inner.dead.any fun entry => decide (entry.id = id) := by
    rw [Bool.eq_iff_iff, any_eq_true, any_eq_true]
    constructor
    · rintro ⟨entry, member, named⟩
      exact ⟨entry, mem_of_mem_filter member, named⟩
    · rintro ⟨entry, member, named⟩
      refine ⟨entry, mem_filter.mpr ⟨member, ?_⟩, named⟩
      rw [Part.buries, of_decide_eq_true named, owned]
  rw [classify, classify, isLive_view owned, dead]

theorem pendingCount_view (placed : part.Placed inner) (here : part.lane lane = true) :
    ((part.view now inner).jobs.filter fun job =>
      job.envelope.lane = lane).length =
      (inner.jobs.filter fun job => job.envelope.lane = lane).length := by
  have onlyLane : ((fun job : StoredJob =>
    decide (job.envelope.lane = lane)) ∘ releasedJob now) =
    fun job => decide (job.envelope.lane = lane) := by
    funext job
    simp
  show ((part.shown now inner.jobs).filter _).length = _
  rw [Part.shown, filter_map, length_map, onlyLane, filter_filter]
  congr 1
  apply filter_congr
  intro job member
  by_cases this : job.envelope.lane = lane
  · simp [Part.holds, (placed.jobs job member).lane, this, here]
  · simp [this]

/-- A call that concerns the part answers from the view and changes the
view. -/
theorem perform_follows (config : Config) {input : Input}
    (placed : part.Placed inner) (distinct : inner.receipts.Nodup)
    (respects : part.Respects input)
    (concerned : part.concerns input.call = true ∨ input.call = .enqueueBatch []) :
    part.Follows input.now (perform releaseLease config inner input)
      (perform releaseLease config (part.view input.now inner) input) := by
  obtain ⟨now, mint, call⟩ := input
  have same : part.view now inner = part.view now (part.view now inner) :=
    (view_view (Nat.le_refl now) inner).symm
  have keyless := fun job new => @Part.Respects.keyless part ⟨now, mint, call⟩ respects job new
  cases call with
  | enqueue job =>
    simp only [perform, enqueue]
    have first := @insertOne_follows part now inner job (keyless job (mem_singleton.mpr rfl))
    cases checkPayloadSize job with
    | error failure => exact ⟨rfl, same⟩
    | ok value =>
      refine ⟨?_, first.2⟩
      simp only [first.1]
  | enqueueBatch jobs =>
    simp only [perform, enqueueBatch]
    have all := @insertAll_follows part now jobs keyless inner
    cases jobs.forM checkPayloadSize with
    | error failure => exact ⟨rfl, same⟩
    | ok value =>
      refine ⟨?_, all.2⟩
      simp only [all.1]
  | reserve lane =>
    have here := concerned.resolve_right (by simp)
    exact reserve_follows config here mint placed
  | ack receipt =>
    have owned := concerned.resolve_right (by simp)
    exact resolve_follows placed distinct owned
      fun _ _ _ split held running => removeAt_follows split held running
  | retry receipt delay =>
    have owned := concerned.resolve_right (by simp)
    exact resolve_follows placed distinct owned fun _ _ _ split held running =>
      modifyAt_follows split held running rfl
  | defer receipt delay =>
    have owned := concerned.resolve_right (by simp)
    exact resolve_follows placed distinct owned fun _ _ _ split held running =>
      modifyAt_follows split held running rfl
  | fail receipt error =>
    have owned := concerned.resolve_right (by simp)
    exact resolve_follows placed distinct owned
      fun _ _ _ split held running => deadLetterAt_follows placed split
        held running config.retention error
  | extend receipt =>
    have owned := concerned.resolve_right (by simp)
    exact resolve_follows placed distinct owned fun _ _ _ split held running =>
      modifyAt_follows split held running rfl
  | classify id =>
    refine ⟨?_, same⟩
    simp only [perform, classify_view (concerned.resolve_right (by simp))]
  | readDeadLetters lane limit =>
    have here := concerned.resolve_right (by simp)
    refine ⟨?_, same⟩
    simp only [perform, deadOfLane, view_lane_dead placed here]
  | countDeadLetters lane =>
    have here := concerned.resolve_right (by simp)
    refine ⟨?_, same⟩
    simp only [perform, deadOfLane, view_lane_dead placed here]
  | requeue id =>
    exact requeue_follows (concerned.resolve_right (by simp))
  | purgeDeadLetters lane =>
    exact purgeDeadLetters_follows placed (concerned.resolve_right (by simp))
  | pendingCount lane =>
    refine ⟨?_, same⟩
    simp only [perform, pendingCount_view placed (concerned.resolve_right (by simp))]
  | enqueueScheduled id occurrence job =>
    have here := concerned.resolve_right (by simp)
    have owned : part.schedule id = true := respects.matches_.trans here
    have claims : (part.view now inner).schedules id =
        inner.schedules id := (schedules_view part now inner id owned).symm
    simp only [perform, enqueueScheduled, claims]
    split
    · have first := fun inner => @insertOne_follows part now inner job
        (keyless job (mem_singleton.mpr rfl))
      have claimed := schedule_follows same id (some occurrence)
      refine ⟨rfl, (first _).2.trans ?_⟩
      rw [claimed]
      exact (first _).2.symm
    · exact ⟨rfl, same⟩
  | removeSchedule id => exact ⟨rfl, schedule_follows same id none⟩

end Concerned

end Worklane.Memory
