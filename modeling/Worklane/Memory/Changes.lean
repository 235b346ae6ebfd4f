import Worklane.Core.Fencing
import Worklane.Memory.Broker

/-!
# What one call can change

Every call of the in-memory broker is a list of labelled elementary changes.
The inversion is proved once (`perform_changes`); the invariants of the
development are then case analyses on `Change`.
-/

namespace Worklane.Memory

open List

/-- What the two ways of clearing an expired lease have in common. -/
structure Releases (release : StoredJob → StoredJob) : Prop where
  envelope : ∀ job, (release job).envelope = job.envelope
  uniqueKey : ∀ job, (release job).uniqueKey = job.uniqueKey
  deliveries : ∀ job, (release job).deliveries = job.deliveries
  leasedUntil : ∀ job, (release job).leasedUntil = none
  receipt : ∀ job, (release job).receipt = none

theorem releaseLease_releases : Releases releaseLease :=
  ⟨fun _ => rfl, fun _ => rfl, fun _ => rfl, fun _ => rfl, fun _ => rfl⟩

/-- A job as the first loop of `reserve` leaves it. -/
def releasedJob (now : Nat) (stored : StoredJob) : StoredJob :=
  if expired now stored then releaseLease stored else stored

inductive Label where
  | stored (envelope : JobEnvelope)
  | released
  | leased (envelope : JobEnvelope) (receipt : ReservationReceipt)
  | swept (envelope : JobEnvelope)
  | acked (envelope : JobEnvelope) (receipt : ReservationReceipt)
  | retried (envelope : JobEnvelope) (receipt : ReservationReceipt)
  | deferred (receipt : ReservationReceipt)
  | failed (envelope : JobEnvelope) (receipt : ReservationReceipt)
  | extended (receipt : ReservationReceipt)
  | dropped (entries : List DeadEntry)
  | revived (envelope : JobEnvelope)
  | scheduled

/-- A job and what releasing its lease may have made of it. -/
def Released (release : StoredJob → StoredJob) (now : Nat) (job job' : StoredJob) : Prop :=
  job' = job ∨ (expired now job = true ∧ job' = release job)

/-- The job of a receipt that is still current. -/
structure Current (now : Nat) (job : StoredJob) (receipt : ReservationReceipt) : Prop where
  held : job.receipt = some receipt
  unexpired : expired now job = false

section Change

variable (release : StoredJob → StoredJob) (config : Config)
variable (now : Nat) (mint : ReservationReceipt) (call : Call)

/-- The elementary changes of a call. -/
inductive Change : Inner → Label → Inner → Prop
  | store {inner : Inner} (job : NewJob) (notLive : inner.isLive job.id = false)
      (keyFree : inner.keyHolder job.uniqueKey = none) (new : job ∈ call.newJobs) :
      Change inner (.stored job.intoEnvelope)
        { inner with
          unique := claimKey inner.unique job.uniqueKey job.id
          jobs := inner.jobs ++ [storedJob job now] }
  | release {inner : Inner} {jobs : List StoredJob}
      (aligned : List.Forall₂ (Released release now) inner.jobs jobs) :
      Change inner .released { inner with jobs := jobs }
  | lease {inner : Inner} {before after : List StoredJob}
      {job : StoredJob} (split : inner.jobs = before ++ job :: after)
      (idle : job.leasedUntil = none) (due : job.availableAt ≤ now)
      (asked : call = .reserve job.envelope.lane) :
      Change inner (.leased job.envelope mint)
        { inner with
          jobs := before ++ leaseJob (saturatingAdd now config.lease) mint job :: after }
  | sweep {inner : Inner} {before after : List StoredJob} {job : StoredJob} (error : String)
      (split : inner.jobs = before ++ job :: after)
      (idle : job.leasedUntil = none) (due : job.availableAt ≤ now)
      (asked : call = .reserve job.envelope.lane) :
      Change inner (.swept job.envelope)
        { inner with
          jobs := before ++ after
          unique := freeKey inner.unique job.uniqueKey
          dead := inner.dead ++ [deadEntry job error now] }
  | ack {inner : Inner} {before after : List StoredJob}
      {job : StoredJob} {receipt : ReservationReceipt}
      (split : inner.jobs = before ++ job :: after)
      (current : Current now job receipt) :
      Change inner (.acked job.envelope receipt)
        { inner with
          jobs := before ++ after
          unique := freeKey inner.unique job.uniqueKey }
  | retry {inner : Inner} {before after : List StoredJob}
      {job : StoredJob} {receipt : ReservationReceipt} (delay : Nat)
      (split : inner.jobs = before ++ job :: after)
      (current : Current now job receipt) :
      Change inner (.retried job.envelope receipt)
        { inner with
          jobs := before ++ retryJob now delay job :: after }
  | defer {inner : Inner} {before after : List StoredJob}
      {job : StoredJob} {receipt : ReservationReceipt} (delay : Nat)
      (split : inner.jobs = before ++ job :: after)
      (current : Current now job receipt) :
      Change inner (.deferred receipt)
        { inner with
          jobs := before ++ reschedule now delay job :: after }
  | fail {inner : Inner} {before after : List StoredJob}
      {job : StoredJob} {receipt : ReservationReceipt} (error : String)
      (split : inner.jobs = before ++ job :: after)
      (current : Current now job receipt) :
      Change inner (.failed job.envelope receipt)
        { inner with
          jobs := before ++ after
          unique := freeKey inner.unique job.uniqueKey
          dead := inner.dead ++ [deadEntry job error now] }
  | extend {inner : Inner} {before after : List StoredJob}
      {job : StoredJob} {receipt : ReservationReceipt}
      (split : inner.jobs = before ++ job :: after)
      (current : Current now job receipt) :
      Change inner (.extended receipt)
        { inner with
          jobs := before ++ extendJob (saturatingAdd now config.lease) job :: after }
  | drop {inner : Inner} {kept entries : List DeadEntry} (sublist : kept.Sublist inner.dead)
      (parts : inner.dead.Perm (kept ++ entries)) :
      Change inner (.dropped entries) { inner with dead := kept }
  | revive {inner : Inner} {before after : List DeadEntry} {entry : DeadEntry}
      (split : inner.dead = before ++ entry :: after)
      (notLive : inner.isLive entry.id = false)
      (keyFree : inner.keyHolder entry.uniqueKey = none) :
      Change inner (.revived entry.letter.envelope)
        { inner with
          dead := before ++ after
          unique := claimKey inner.unique entry.uniqueKey entry.id
          jobs := inner.jobs ++ [requeuedJob entry now] }
  | schedule {inner : Inner} (schedules : String → Option Int64) :
      Change inner .scheduled { inner with schedules := schedules }

inductive Changes : Inner → List Label → Inner → Prop
  | refl (inner : Inner) : Changes inner [] inner
  | head {inner middle final : Inner} {label : Label} {labels : List Label} :
      Change release config now mint call inner label middle →
      Changes middle labels final →
      Changes inner (label :: labels) final

end Change

section Compose

variable {release : StoredJob → StoredJob} {config : Config}
variable {now : Nat} {mint : ReservationReceipt} {call : Call}

theorem Changes.single {inner final : Inner} {label : Label}
    (change : Change release config now mint call inner label final) :
    Changes release config now mint call inner [label] final :=
  .head change (.refl final)

theorem Changes.trans {inner middle final : Inner} {first second : List Label}
    (left : Changes release config now mint call inner first middle)
    (right : Changes release config now mint call middle second final) :
    Changes release config now mint call inner (first ++ second) final := by
  induction left with
  | refl => exact right
  | head change _ ih =>
    exact .head change (ih right)

/-- The invariant rule for one call: an invariant of elementary changes is an
invariant of calls. -/
theorem Changes.invariant {invariant : Inner → Prop} {inner final : Inner} {labels : List Label}
    (changes : Changes release config now mint call inner labels final)
    (preserved : ∀ {current label next}, label ∈ labels →
      Change release config now mint call current label next →
      invariant current → invariant next)
    (held : invariant inner) : invariant final := by
  induction changes with
  | refl => exact held
  | head change _ ih =>
    exact ih (fun member => preserved (mem_cons_of_mem _ member))
      (preserved (mem_cons_self ..) change held)

end Compose

/-! ## Specifications of the helper functions -/

theorem dropOldest_spec (lane : Lane) (toDrop : Nat) (dead : List DeadEntry) :
    (dropOldest lane toDrop dead).1.Sublist dead ∧ dead.Perm ((dropOldest lane toDrop dead).1 ++
        (dropOldest lane toDrop dead).2) := by
  induction dead generalizing toDrop with
  | nil => exact ⟨List.Sublist.refl _, List.Perm.refl _⟩
  | cons entry rest ih =>
    unfold dropOldest
    split
    · obtain ⟨sublist, parts⟩ := ih (toDrop - 1)
      exact ⟨sublist.cons entry, (parts.cons entry).trans perm_middle.symm⟩
    · obtain ⟨sublist, parts⟩ := ih toDrop
      exact ⟨sublist.cons_cons entry, parts.cons entry⟩

theorem partition_spec {α : Type} (test : α → Bool) (items : List α) :
    (items.partition test).1.Sublist items ∧
      items.Perm ((items.partition test).1 ++ (items.partition test).2) := by
  rw [partition_eq_filter_filter]
  exact ⟨filter_sublist, (filter_append_perm test items).symm⟩

theorem pruneByAge_spec (lane : Lane) (now : Nat) (maxAge : Option Nat) (dead : List DeadEntry) :
    (pruneByAge lane now maxAge dead).1.Sublist dead ∧
      dead.Perm ((pruneByAge lane now maxAge dead).1 ++ (pruneByAge lane now maxAge dead).2) := by
  cases maxAge with
  | none => exact ⟨List.Sublist.refl _, by simp [pruneByAge]⟩
  | some age => exact partition_spec _ dead

theorem pruneByCount_spec (lane : Lane) (maxCount : Option Nat) (dead : List DeadEntry) :
    (pruneByCount lane maxCount dead).1.Sublist dead ∧
      dead.Perm ((pruneByCount lane maxCount dead).1 ++ (pruneByCount lane maxCount dead).2) := by
  cases maxCount with
  | none => exact ⟨List.Sublist.refl _, by simp [pruneByCount]⟩
  | some count =>
    simp only [pruneByCount]
    split
    · exact dropOldest_spec lane _ dead
    · exact ⟨List.Sublist.refl _, by simp⟩

theorem pruneDead_spec (policy : RetentionPolicy) (lane : Lane) (now : Nat)
    (dead : List DeadEntry) :
    (pruneDead policy lane now dead).1.Sublist dead ∧
      dead.Perm ((pruneDead policy lane now dead).1 ++ (pruneDead policy lane now dead).2) := by
  unfold pruneDead
  split
  · exact ⟨List.Sublist.refl _, by simp⟩
  · obtain ⟨youngSublist, youngParts⟩ := pruneByAge_spec lane now policy.maxAge dead
    obtain ⟨keptSublist, keptParts⟩ :=
      pruneByCount_spec lane policy.maxCount (pruneByAge lane now policy.maxAge dead).1
    refine ⟨keptSublist.trans youngSublist, ?_⟩
    refine youngParts.trans ((keptParts.append_right _).trans ?_)
    rw [append_assoc]
    exact perm_append_comm.append_left _

theorem outranks_ranking : Lib.Ranking outranks where
  asymm := by
    intro left right above
    simp only [outranks, Bool.or_eq_true, Bool.and_eq_true,
      decide_eq_true_eq, Bool.or_eq_false_iff, Bool.and_eq_false_iff,
      decide_eq_false_iff_not] at above ⊢
    omega
  negTrans := by
    intro left middle right first second
    simp only [outranks, Bool.or_eq_false_iff, Bool.and_eq_false_iff,
      decide_eq_false_iff_not] at first second ⊢
    omega

theorem pickBest_cases (jobs : List StoredJob) (lane : Lane) (now : Nat) :
    (pickBest jobs lane now = none ∧ ∀ job ∈ jobs, visible lane now job = false) ∨
      ∃ before job after, pickBest jobs lane now = some before.length ∧
        Lib.BestSplit (visible lane now) outranks jobs before job after :=
  Lib.bestIndex_cases outranks_ranking jobs

variable {job : StoredJob}

theorem visible_iff {lane : Lane} {now : Nat} : visible lane now job = true ↔
      job.envelope.lane = lane ∧ job.leasedUntil = none ∧ job.availableAt ≤ now := by
  simp [visible, and_assoc]

theorem insertOne_cases (inner : Inner) (job : NewJob) (now : Nat) : (inner.isLive job.id = true ∧
        insertOne inner job now = (inner, job.id)) ∨
      (∃ holder, inner.isLive job.id = false ∧ inner.keyHolder job.uniqueKey = some holder ∧
        insertOne inner job now = (inner, holder)) ∨
      (inner.isLive job.id = false ∧ inner.keyHolder job.uniqueKey = none ∧
        insertOne inner job now =
          ({ inner with
              unique := claimKey inner.unique job.uniqueKey job.id
              jobs := inner.jobs ++ [storedJob job now] }, job.id)) := by
  unfold insertOne
  cases live : inner.isLive job.id with
  | true => exact Or.inl ⟨rfl, by simp⟩
  | false =>
    cases held : inner.keyHolder job.uniqueKey with
    | some holder =>
      exact Or.inr (Or.inl ⟨holder, rfl, rfl, by simp⟩)
    | none => exact Or.inr (Or.inr ⟨rfl, rfl, by simp⟩)

variable {inner : Inner} {before : List StoredJob} {after : List StoredJob}

theorem deadLetterAt_split (retention : RetentionPolicy)
    (split : inner.jobs = before ++ job :: after) (error : String)
    (now : Nat) :
    deadLetterAt retention inner before.length error now =
      ({ inner with
          jobs := before ++ after
          unique := freeKey inner.unique job.uniqueKey
          dead := (pruneDead retention job.envelope.lane now
            (inner.dead ++ [deadEntry job error now])).1 },
        (pruneDead retention job.envelope.lane now
          (inner.dead ++ [deadEntry job error now])).2) := by
  unfold deadLetterAt
  rw [split, Lib.getElem?_split, Lib.eraseIdx_split]

theorem removeAt_split (split : inner.jobs = before ++ job :: after) :
    removeAt inner before.length =
      { inner with
        jobs := before ++ after
        unique := freeKey inner.unique job.uniqueKey } := by
  unfold removeAt
  rw [split, Lib.getElem?_split, Lib.eraseIdx_split]

theorem modifyAt_split (split : inner.jobs = before ++ job :: after)
    (change : StoredJob → StoredJob) :
    modifyAt inner before.length change = { inner with jobs := before ++ change job :: after } := by
  unfold modifyAt
  rw [split, Lib.modify_split]

theorem leaseAt_split (config : Config) (split : inner.jobs = before ++ job :: after) (now : Nat)
    (mint : ReservationReceipt) :
    leaseAt config inner before.length now mint =
      ({ inner with
          jobs := before ++ leaseJob (saturatingAdd now config.lease) mint job :: after },
        some
          { envelope := job.envelope
            receipt := mint
            lease := config.lease }) := by
  unfold leaseAt
  rw [split, Lib.getElem?_split]
  simp only
  rw [modifyAt_split split]

theorem findCurrentReceipt_cases (release : StoredJob → StoredJob)
    (inner : Inner) (receipt : ReservationReceipt) (now : Nat) :
    (findCurrentReceipt release inner receipt now = (inner, .error (stale receipt)) ∧
      ∀ job ∈ inner.jobs, job.receipt ≠ some receipt) ∨
    (∃ before job after, inner.jobs = before ++ job :: after ∧
      (∀ other ∈ before, other.receipt ≠ some receipt) ∧
      job.receipt = some receipt ∧ expired now job = true ∧
      findCurrentReceipt release inner receipt now =
        ({ inner with jobs := before ++ release job :: after }, .error (stale receipt))) ∨
    (∃ before job after, inner.jobs = before ++ job :: after ∧
      (∀ other ∈ before, other.receipt ≠ some receipt) ∧
      Current now job receipt ∧
      findCurrentReceipt release inner receipt now = (inner, .ok before.length)) := by
  unfold findCurrentReceipt
  cases located : inner.jobs.findIdx? fun job => job.receipt = some receipt with
  | none =>
    refine Or.inl ⟨rfl, ?_⟩
    intro job member held
    have missed := findIdx?_eq_none_iff.mp located job member
    simp [held] at missed
  | some position =>
    obtain ⟨before, job, after, split, rfl, found, missed⟩ := Lib.exists_split_of_findIdx? located
    have held : job.receipt = some receipt := by simpa using found
    have earlier : ∀ other ∈ before, other.receipt ≠ some receipt := by
      intro other member
      simpa using missed other member
    simp only [split, Lib.getElem?_split, Option.any_some, Lib.modify_split]
    cases exceeded : expired now job with
    | true =>
      exact Or.inr (Or.inl ⟨before, job, after, rfl, earlier, held, exceeded, by simp⟩)
    | false =>
      exact Or.inr (Or.inr ⟨before, job, after, rfl, earlier, ⟨held, exceeded⟩, by simp⟩)

/-! ## What a call is seen to do -/

/-- The jobs an insertion really stored: those appended to the job list. -/
def storedBy (call : Call) (before after : Inner) : List JobEnvelope :=
  match call with
  | .enqueue _ | .enqueueBatch _ | .enqueueScheduled .. =>
    (after.jobs.drop before.jobs.length).map StoredJob.envelope
  | _ => []

/-- The envelope stored under a receipt. -/
def Inner.underReceipt (inner : Inner) (receipt : ReservationReceipt) :
    List JobEnvelope :=
  ((inner.jobs.find? fun job => job.receipt = some receipt).map StoredJob.envelope).toList

/-- The job a successful `ack` removed. -/
def ackedBy (inner : Inner) (entry : Entry) : List JobEnvelope :=
  match entry.1.call, entry.2 with
  | .ack receipt, .ok _ => inner.underReceipt receipt
  | _, _ => []

/-- The job a successful `retry` found. -/
def retriedBy (inner : Inner) (entry : Entry) : List JobEnvelope :=
  match entry.1.call, entry.2 with
  | .retry receipt _, .ok _ => inner.underReceipt receipt
  | _, _ => []

namespace Label

def storedEnvelopes : Label → List JobEnvelope
  | .stored envelope => [envelope]
  | _ => []

def ackedEnvelopes : Label → List JobEnvelope
  | .acked envelope _ => [envelope]
  | _ => []

def retriedEnvelopes : Label → List JobEnvelope
  | .retried envelope _ => [envelope]
  | _ => []

def droppedEntries : Label → List DeadEntry
  | .dropped entries => entries
  | _ => []

def actions : Label → List (Lib.Lease.Action JobId ReservationReceipt)
  | .leased envelope receipt => [.grant envelope.id receipt]
  | .acked _ receipt | .retried _ receipt | .deferred receipt
  | .failed _ receipt => [.settle receipt]
  | .extended receipt => [.renew receipt]
  | _ => []

end Label

/-- The labels of a call say what the call is seen to do. -/
structure Explains (inner : Inner) (input : Input) (outcome : Outcome)
    (labels : List Label) : Prop where
  stored : labels.flatMap Label.storedEnvelopes = storedBy input.call inner outcome.inner
  acked : labels.flatMap Label.ackedEnvelopes = ackedBy inner (input, outcome.reply)
  retried : labels.flatMap Label.retriedEnvelopes = retriedBy inner (input, outcome.reply)
  dropped : labels.flatMap Label.droppedEntries = outcome.dropped
  actions : labels.flatMap Label.actions = (leaseAction (input, outcome.reply)).active

section Calls

variable (release : StoredJob → StoredJob) (config : Config)

/-- A call is a list of changes that says what the call is seen to do. -/
def IsChanges (inner : Inner) (input : Input) (outcome : Outcome) : Prop :=
  ∃ labels, Changes release config input.now input.mint input.call inner labels
    outcome.inner ∧ Explains inner input outcome labels

variable {release config}

/-- The labels of jobs that were appended. -/
def storedLabels (appended : List StoredJob) : List Label :=
  appended.map fun job => .stored job.envelope

theorem insertOne_changes (release : StoredJob → StoredJob)
    (config : Config) (inner : Inner) {job : NewJob} {call : Call} (now : Nat)
    (mint : ReservationReceipt) (new : job ∈ call.newJobs) :
    ∃ appended, (insertOne inner job now).1.jobs = inner.jobs ++ appended ∧
      Changes release config now mint call inner (storedLabels appended)
        (insertOne inner job now).1 := by
  rcases insertOne_cases inner job now with
    ⟨_, equal⟩ | ⟨holder, _, _, equal⟩ | ⟨notLive, keyFree, equal⟩
  · rw [equal]
    exact ⟨[], (append_nil _).symm, .refl inner⟩
  · rw [equal]
    exact ⟨[], (append_nil _).symm, .refl inner⟩
  · rw [equal]
    exact ⟨[storedJob job now], rfl, Changes.single (.store job notLive keyFree new)⟩

theorem insertAll_changes (release : StoredJob → StoredJob)
    (config : Config) (inner : Inner) {jobs : List NewJob} {call : Call} (now : Nat)
    (mint : ReservationReceipt) (new : ∀ job ∈ jobs, job ∈ call.newJobs) :
    ∃ appended, (insertAll now inner jobs).1.jobs = inner.jobs ++ appended ∧
      Changes release config now mint call inner (storedLabels appended)
        (insertAll now inner jobs).1 := by
  induction jobs generalizing inner with
  | nil => exact ⟨[], (append_nil _).symm, .refl inner⟩
  | cons job rest ih =>
    obtain ⟨first, firstJobs, firstChanges⟩ := insertOne_changes release config inner
      now mint (new job (mem_cons_self ..))
    obtain ⟨later, laterJobs, laterChanges⟩ := ih (insertOne inner job now).1
      fun other member => new other (mem_cons_of_mem _ member)
    refine ⟨first ++ later, ?_, ?_⟩
    · simp only [insertAll]
      rw [laterJobs, firstJobs, append_assoc]
    · simp only [storedLabels, map_append]
      exact firstChanges.trans laterChanges

theorem flatMap_storedLabels (appended : List StoredJob) :
    (storedLabels appended).flatMap Label.storedEnvelopes = appended.map StoredJob.envelope ∧
      (storedLabels appended).flatMap Label.ackedEnvelopes = [] ∧
      (storedLabels appended).flatMap Label.retriedEnvelopes = [] ∧
      (storedLabels appended).flatMap Label.droppedEntries = [] ∧
      (storedLabels appended).flatMap Label.actions = [] := by
  induction appended with
  | nil => simp [storedLabels]
  | cons job rest ih =>
    simp_all [storedLabels, Label.storedEnvelopes, Label.ackedEnvelopes, Label.retriedEnvelopes,
      Label.droppedEntries, Label.actions]

@[simp]
theorem ackedBy_error (inner : Inner) (input : Input) (failure : Error) :
    ackedBy inner (input, .error failure) = [] := by
  unfold ackedBy
  split <;> simp_all

@[simp]
theorem retriedBy_error (inner : Inner) (input : Input)
    (failure : Error) : retriedBy inner (input, .error failure) = [] := by
  unfold retriedBy
  split <;> simp_all

theorem resolve_cases (release : StoredJob → StoredJob) (inner : Inner)
    (receipt : ReservationReceipt) (now : Nat)
    (change : Inner → Nat → Inner × List DeadEntry) :
    (∃ jobs, List.Forall₂ (Released release now) inner.jobs jobs ∧
      resolve release inner receipt now change =
        ⟨{ inner with jobs := jobs }, .error (stale receipt), []⟩) ∨
    (∃ before job after, inner.jobs = before ++ job :: after ∧
      inner.underReceipt receipt = [job.envelope] ∧
      Current now job receipt ∧
      resolve release inner receipt now change = ⟨(change inner before.length).1, .ok .done,
          (change inner before.length).2⟩) := by
  have kept : ∀ jobs : List StoredJob, List.Forall₂ (Released release now) jobs jobs := by
    intro jobs
    exact List.forall₂_same.mpr fun job _ => Or.inl rfl
  unfold resolve
  rcases findCurrentReceipt_cases release inner receipt now with
    ⟨found, _⟩ | ⟨before, job, after, split, _, held, exceeded, found⟩ |
      ⟨before, job, after, split, earlier, current, found⟩
  · rw [found]
    exact Or.inl ⟨inner.jobs, kept inner.jobs, rfl⟩
  · rw [found]
    refine Or.inl ⟨before ++ release job :: after, ?_, rfl⟩
    rw [split]
    exact rel_append (kept before) (.cons (Or.inr ⟨exceeded, rfl⟩) (kept after))
  · rw [found]
    refine Or.inr ⟨before, job, after, split, ?_, current, rfl⟩
    have missed : (before.find? fun other =>
      other.receipt = some receipt) = none := by
      rw [find?_eq_none]
      intro other member
      simpa using earlier other member
    simp [Inner.underReceipt, split, missed, current.held]

variable {inner : Inner}

theorem rejected_isChanges {jobs : List StoredJob} {input : Input} {failure : Error}
    (aligned : List.Forall₂ (Released release input.now) inner.jobs jobs)
    (stores : storedBy input.call inner { inner with jobs := jobs } = []) :
    IsChanges release config inner input ⟨{ inner with jobs := jobs }, .error failure, []⟩ := by
  refine ⟨[.released], Changes.single (.release aligned), stores.symm, ?_, ?_, rfl, rfl⟩
  · rw [ackedBy_error]
    rfl
  · rw [retriedBy_error]
    rfl

variable {before : List StoredJob} {after : List StoredJob} {job : StoredJob}

theorem dead_letter_changes {now : Nat} {mint : ReservationReceipt} {call : Call} {label : Label}
    {error : String}
    (split : inner.jobs = before ++ job :: after)
    (change : Change release config now mint call inner label
      { inner with
        jobs := before ++ after
        unique := freeKey inner.unique job.uniqueKey
        dead := inner.dead ++ [deadEntry job error now] }) :
    Changes release config now mint call inner
      [label, .dropped (deadLetterAt config.retention inner before.length error now).2]
      (deadLetterAt config.retention inner before.length error now).1 := by
  rw [deadLetterAt_split _ split]
  obtain ⟨sublist, parts⟩ := pruneDead_spec config.retention job.envelope.lane now
    (inner.dead ++ [deadEntry job error now])
  exact .head change (Changes.single (.drop sublist parts))

theorem unchanged_isChanges {input : Input} {reply : Reply}
    (stores : storedBy input.call inner inner = [])
    (acks : ackedBy inner (input, reply) = [])
    (retries : retriedBy inner (input, reply) = [])
    (idle : leaseAction (input, reply) = .idle) :
    IsChanges release config inner input ⟨inner, reply, []⟩ :=
  ⟨[], .refl inner, stores.symm, acks.symm, retries.symm, rfl, by rw [idle]; rfl⟩

theorem storedBy_self (call : Call) (inner : Inner) : storedBy call inner inner = [] := by
  unfold storedBy
  split <;> simp

theorem ack_isChanges (inner : Inner) (now : Nat) (mint receipt : ReservationReceipt) :
    IsChanges release config inner ⟨now, mint, .ack receipt⟩ (ack release inner now receipt) := by
  unfold ack
  rcases resolve_cases release inner receipt now _ with
    ⟨jobs, aligned, equal⟩ | ⟨before, job, after, split, under, current, equal⟩
  · rw [equal]
    exact rejected_isChanges aligned rfl
  · rw [equal, removeAt_split split]
    refine ⟨[.acked job.envelope receipt],
      Changes.single (.ack split current), rfl, ?_, rfl, rfl, rfl⟩
    exact under.symm

theorem retry_isChanges (inner : Inner) (now : Nat)
    (mint receipt : ReservationReceipt) (delay : Nat) :
    IsChanges release config inner ⟨now, mint, .retry receipt delay⟩
      (retry release inner now receipt delay) := by
  unfold retry
  rcases resolve_cases release inner receipt now _ with
    ⟨jobs, aligned, equal⟩ | ⟨before, job, after, split, under, current, equal⟩
  · rw [equal]
    exact rejected_isChanges aligned rfl
  · rw [equal, modifyAt_split split]
    refine ⟨[.retried job.envelope receipt],
      Changes.single (.retry delay split current), rfl, rfl, ?_, rfl,
      rfl⟩
    exact under.symm

theorem defer_isChanges (inner : Inner) (now : Nat)
    (mint receipt : ReservationReceipt) (delay : Nat) :
    IsChanges release config inner ⟨now, mint, .defer receipt delay⟩
      (defer release inner now receipt delay) := by
  unfold defer
  rcases resolve_cases release inner receipt now _ with
    ⟨jobs, aligned, equal⟩ | ⟨before, job, after, split, _, current, equal⟩
  · rw [equal]
    exact rejected_isChanges aligned rfl
  · rw [equal, modifyAt_split split]
    exact ⟨[.deferred receipt], Changes.single (.defer delay split current), rfl, rfl, rfl, rfl,
      rfl⟩

theorem extend_isChanges (inner : Inner) (now : Nat) (mint receipt : ReservationReceipt) :
    IsChanges release config inner ⟨now, mint, .extend receipt⟩
      (extend release config inner now receipt) := by
  unfold extend
  rcases resolve_cases release inner receipt now _ with
    ⟨jobs, aligned, equal⟩ | ⟨before, job, after, split, _, current, equal⟩
  · rw [equal]
    exact rejected_isChanges aligned rfl
  · rw [equal, modifyAt_split split]
    exact ⟨[.extended receipt], Changes.single (.extend split current), rfl, rfl, rfl, rfl, rfl⟩

theorem fail_isChanges (inner : Inner) (now : Nat)
    (mint receipt : ReservationReceipt) (error : String) :
    IsChanges release config inner ⟨now, mint, .fail receipt error⟩
      (fail release config inner now receipt error) := by
  unfold fail
  rcases resolve_cases release inner receipt now _ with
    ⟨jobs, aligned, equal⟩ | ⟨before, job, after, split, _, current, equal⟩
  · rw [equal]
    exact rejected_isChanges aligned rfl
  · rw [equal]
    refine ⟨_, dead_letter_changes split (.fail error split current), rfl, rfl, rfl, ?_, rfl⟩
    simp [Label.droppedEntries]

/-- What the loop of `reserve` does: sweeps, then at most one lease. -/
structure LoopExplains (handed : Option Reservation)
    (entries : List DeadEntry) (labels : List Label) : Prop where
  stored : labels.flatMap Label.storedEnvelopes = []
  acked : labels.flatMap Label.ackedEnvelopes = []
  retried : labels.flatMap Label.retriedEnvelopes = []
  dropped : labels.flatMap Label.droppedEntries = entries
  actions : labels.flatMap Label.actions = grantOf handed

variable {lane : Lane}

theorem reserveLoop_swept {config : Config} {now max : Nat}
    (bounded : config.maxDeliveries = some max)
    (split : inner.jobs = before ++ job :: after)
    (picked : pickBest inner.jobs lane now = some before.length)
    (exceeded : overDelivered job max) (mint : ReservationReceipt)
    (left : Nat) :
    reserveLoop config lane now mint (left + 1) inner =
      let moved := deadLetterAt config.retention inner before.length (overDeliveredText max) now
      let rest := reserveLoop config lane now mint left moved.1
      (rest.1, rest.2.1, moved.2 ++ rest.2.2) := by
  have test : inner.jobs[before.length]?.any (fun job =>
    decide (overDelivered job max)) = true := by
    rw [split, Lib.getElem?_split, Option.any_some]
    exact decide_eq_true exceeded
  rw [reserveLoop, picked, bounded]
  simp only [test, if_true]

theorem reserveLoop_leased {config : Config} {now : Nat}
    (split : inner.jobs = before ++ job :: after)
    (picked : pickBest inner.jobs lane now = some before.length)
    (within : ∀ max, config.maxDeliveries = some max → ¬ overDelivered job max)
    (mint : ReservationReceipt) (left : Nat) :
    reserveLoop config lane now mint (left + 1) inner =
      ((leaseAt config inner before.length now mint).1,
        (leaseAt config inner before.length now mint).2, []) := by
  rw [reserveLoop, picked]
  cases bounded : config.maxDeliveries with
  | none => rfl
  | some max =>
    have test : inner.jobs[before.length]?.any (fun job =>
      decide (overDelivered job max)) = false := by
      rw [split, Lib.getElem?_split, Option.any_some]
      exact decide_eq_false (within max bounded)
    simp only [test]
    rfl

theorem reserveLoop_empty (config : Config)
    {now : Nat} (picked : pickBest inner.jobs lane now = none)
    (mint : ReservationReceipt) (left : Nat) :
    reserveLoop config lane now mint left inner = (inner, none, []) := by
  cases left with
  | zero => rfl
  | succ left => rw [reserveLoop, picked]

theorem over_or_within (config : Config) (job : StoredJob) :
    (∃ max, config.maxDeliveries = some max ∧ overDelivered job max) ∨
      ∀ max, config.maxDeliveries = some max → ¬ overDelivered job max := by
  by_cases exceeded : ∃ max, config.maxDeliveries = some max ∧ overDelivered job max
  · exact Or.inl exceeded
  · exact Or.inr fun max bounded beyond => exceeded ⟨max, bounded, beyond⟩

/-- What the loop of `reserve` comes to: it ends, it leases the job that is
next, or it sweeps that job and goes on. -/
inductive Loops (config : Config) (lane : Lane) (now : Nat) (mint : ReservationReceipt) :
    Inner → Inner × Option Reservation × List DeadEntry → Prop
  | ends (inner : Inner) : Loops config lane now mint inner (inner, none, [])
  | leases {inner : Inner} {before after : List StoredJob} {job : StoredJob}
      (best : Lib.BestSplit (visible lane now) outranks inner.jobs before job after)
      (within : ∀ max, config.maxDeliveries = some max → ¬ overDelivered job max) :
      Loops config lane now mint inner
        ({ inner with
            jobs := before ++ leaseJob (saturatingAdd now config.lease) mint job :: after },
          some ⟨job.envelope, mint, config.lease⟩, [])
  | sweeps {inner : Inner} {before after : List StoredJob} {job : StoredJob} {max : Nat}
      {rest : Inner × Option Reservation × List DeadEntry}
      (best : Lib.BestSplit (visible lane now) outranks inner.jobs before job after)
      (bounded : config.maxDeliveries = some max) (exceeded : overDelivered job max)
      (goesOn : Loops config lane now mint
        (deadLetterAt config.retention inner before.length (overDeliveredText max) now).1 rest) :
      Loops config lane now mint inner (rest.1, rest.2.1,
        (deadLetterAt config.retention inner before.length (overDeliveredText max) now).2 ++
          rest.2.2)

/-- The induction over the loop of the source.  What is proved about it
elsewhere is proved about `Loops`. -/
theorem reserveLoop_loops (config : Config) (lane : Lane) (now : Nat) (mint : ReservationReceipt)
    (left : Nat) (inner : Inner) :
    Loops config lane now mint inner (reserveLoop config lane now mint left inner) := by
  induction left generalizing inner with
  | zero => exact .ends inner
  | succ left ih =>
    rcases pickBest_cases inner.jobs lane now with
      ⟨none, _⟩ | ⟨before, job, after, picked, best⟩
    · rw [reserveLoop_empty config none]
      exact .ends inner
    · rcases over_or_within config job with ⟨max, bounded, exceeded⟩ | within
      · rw [reserveLoop_swept bounded best.split picked exceeded]
        exact .sweeps best bounded exceeded (ih _)
      · rw [reserveLoop_leased best.split picked within, leaseAt_split config best.split]
        exact .leases best within

theorem Loops.changes (release : StoredJob → StoredJob) {config : Config} {now : Nat}
    {mint : ReservationReceipt} {result : Inner × Option Reservation × List DeadEntry}
    (loops : Loops config lane now mint inner result) :
    ∃ labels, Changes release config now mint (.reserve lane) inner labels result.1 ∧
      LoopExplains result.2.1 result.2.2 labels := by
  induction loops with
  | ends inner => exact ⟨[], .refl inner, rfl, rfl, rfl, rfl, rfl⟩
  | @leases _ _ _ job best =>
    obtain ⟨here, idle, due⟩ := visible_iff.mp best.chosenEligible
    exact ⟨[.leased job.envelope mint],
      Changes.single (.lease best.split idle due (by rw [here])), rfl, rfl, rfl, rfl, rfl⟩
  | @sweeps _ _ _ _ max _ best _ _ _ ih =>
    obtain ⟨here, idle, due⟩ := visible_iff.mp best.chosenEligible
    obtain ⟨labels, changes, explains⟩ := ih
    refine ⟨_, (dead_letter_changes best.split (.sweep (overDeliveredText max) best.split idle
        due (by rw [here]))).trans changes, ?_⟩
    constructor
    · simpa [Label.storedEnvelopes] using explains.stored
    · simpa [Label.ackedEnvelopes] using explains.acked
    · simpa [Label.retriedEnvelopes] using explains.retried
    · simpa [Label.droppedEntries] using explains.dropped
    · simpa [Label.actions] using explains.actions

theorem releaseExpired_aligned (now : Nat) (jobs : List StoredJob) :
    List.Forall₂ (Released release now) jobs (releaseExpired release now jobs) := by
  rw [releaseExpired, List.forall₂_map_right_iff]
  apply List.forall₂_same.mpr
  intro job _
  by_cases exceeded : expired now job = true
  · rw [if_pos exceeded]
    exact Or.inr ⟨exceeded, rfl⟩
  · rw [if_neg exceeded]
    exact Or.inl rfl

theorem reserve_isChanges (inner : Inner) (now : Nat) (mint : ReservationReceipt) (lane : Lane) :
    IsChanges release config inner ⟨now, mint, .reserve lane⟩
      (reserve release config inner now mint lane) := by
  obtain ⟨labels, changes, explains⟩ := (reserveLoop_loops config lane now mint
    maxDeadLetterSweep { inner with jobs := releaseExpired release now inner.jobs }).changes release
  refine ⟨.released :: labels, .head (.release (releaseExpired_aligned now inner.jobs)) changes,
    explains.stored, explains.acked, explains.retried, explains.dropped,
    ?_⟩
  exact explains.actions.trans (leaseAction_reserve ..).symm

theorem enqueue_isChanges (inner : Inner) (now : Nat) (mint : ReservationReceipt) (job : NewJob) :
    IsChanges release config inner ⟨now, mint, .enqueue job⟩ (enqueue inner now job) := by
  unfold enqueue
  split
  · exact unchanged_isChanges (storedBy_self _ inner) (by simp) (by simp) rfl
  · obtain ⟨appended, jobs, changes⟩ := @insertOne_changes release config inner job (.enqueue job)
      now mint (mem_singleton_self job)
    obtain ⟨stored, acked, retried, dropped, actions⟩ := flatMap_storedLabels appended
    refine ⟨_, changes, ?_, acked, retried, dropped, actions⟩
    rw [stored]
    simp [storedBy, jobs]

theorem enqueueBatch_isChanges (inner : Inner) (now : Nat)
    (mint : ReservationReceipt) (jobs : List NewJob) :
    IsChanges release config inner ⟨now, mint, .enqueueBatch jobs⟩
      (enqueueBatch inner now jobs) := by
  unfold enqueueBatch
  split
  · exact unchanged_isChanges (storedBy_self _ inner) (by simp) (by simp) rfl
  · obtain ⟨appended, grown, changes⟩ := @insertAll_changes release config inner jobs
      (.enqueueBatch jobs) now mint (fun _ => id)
    obtain ⟨stored, acked, retried, dropped, actions⟩ := flatMap_storedLabels appended
    refine ⟨_, changes, ?_, acked, retried, dropped, actions⟩
    rw [stored]
    simp [storedBy, grown]

theorem enqueueScheduled_isChanges (inner : Inner) (now : Nat)
    (mint : ReservationReceipt) (scheduleId : String)
    (occurrence : Int64) (job : NewJob) :
    IsChanges release config inner ⟨now, mint, .enqueueScheduled scheduleId occurrence job⟩
      (enqueueScheduled inner now scheduleId occurrence job) := by
  unfold enqueueScheduled
  split
  · obtain ⟨appended, jobs, changes⟩ :=
      @insertOne_changes release config
        { inner with
          schedules := Function.update inner.schedules scheduleId (some occurrence) }
        job (.enqueueScheduled scheduleId occurrence job) now mint (mem_singleton_self job)
    obtain ⟨stored, acked, retried, dropped, actions⟩ := flatMap_storedLabels appended
    refine ⟨.scheduled :: storedLabels appended,
      .head (.schedule _) changes, ?_, acked, retried, dropped, actions⟩
    refine stored.trans ?_
    simp [storedBy, jobs]
  · refine unchanged_isChanges (storedBy_self _ inner) ?_ ?_ ?_ <;> rfl

/-- The record `requeue` finds. -/
def Inner.record (inner : Inner) (id : JobId) : Option DeadEntry :=
  inner.dead.find? fun entry => entry.id = id

/-- Why `requeue` refuses: the first of its conditions that fails. -/
inductive Refusal (inner : Inner) (id : JobId) : Error → Prop
  | noRecord (absent : inner.record id = none) : Refusal inner id (.broker (noDeadLetterText id))
  | liveId {entry : DeadEntry} (record : inner.record id = some entry)
      (live : inner.isLive id = true) : Refusal inner id (.liveJobIdConflict (liveIdText id))
  | keyHeld {entry : DeadEntry} {key : String} (record : inner.record id = some entry)
      (notLive : inner.isLive id = false) (held : entry.uniqueKey = some key)
      (taken : (inner.unique key).isSome = true) :
      Refusal inner id (.uniqueKeyHeld (keyHeldText id key))

/-- The store after a requeue. -/
def revive (inner : Inner) (before after : List DeadEntry) (entry : DeadEntry) (now : Nat) :
    Inner :=
  { inner with
    dead := before ++ after
    unique := claimKey inner.unique entry.uniqueKey entry.id
    jobs := inner.jobs ++ [requeuedJob entry now] }

/-- `requeue` refuses and changes nothing, or moves the first record of the
id. -/
theorem requeue_cases (inner : Inner) (now : Nat) (id : JobId) :
    (∃ failure, Refusal inner id failure ∧ requeue inner now id = ⟨inner, .error failure, []⟩) ∨
      ∃ before entry after, inner.dead = before ++ entry :: after ∧ entry.id = id ∧
        (∀ other ∈ before, other.id ≠ id) ∧ inner.isLive entry.id = false ∧
        inner.keyHolder entry.uniqueKey = none ∧
        requeue inner now id = ⟨revive inner before after entry now, .ok .done, []⟩ := by
  unfold requeue
  cases located : inner.dead.findIdx? fun entry => entry.id = id with
  | none =>
    have absent : inner.record id = none :=
      find?_eq_none.mpr fun entry member => by
        simpa using findIdx?_eq_none_iff.mp located entry member
    exact Or.inl ⟨_, .noRecord absent, rfl⟩
  | some position =>
    obtain ⟨before, entry, after, split, rfl, found, missed⟩ := Lib.exists_split_of_findIdx? located
    have record : inner.record id = some entry :=
      find?_eq_some_iff_append.mpr ⟨found, before, after, split, by simpa using missed⟩
    have same : entry.id = id := of_decide_eq_true found
    have others : ∀ other ∈ before, other.id ≠ id := by simpa using missed
    rw [split]
    simp only [Lib.getElem?_split, Lib.eraseIdx_split]
    cases live : inner.isLive id with
    | true => exact Or.inl ⟨_, .liveId record live, rfl⟩
    | false =>
      have notLive : inner.isLive entry.id = false := by rw [same, live]
      cases held : entry.uniqueKey with
      | none =>
        refine Or.inr ⟨before, entry, after, rfl, same, others, notLive, ?_, ?_⟩
        · rw [held]
          rfl
        · rw [revive, held]
          rfl
      | some key =>
        cases taken : inner.unique key with
        | some holder =>
          exact Or.inl ⟨_, .keyHeld record live held (by rw [taken]; rfl), by simp [taken]⟩
        | none =>
          refine Or.inr ⟨before, entry, after, rfl, same, others, notLive, ?_, ?_⟩
          · rw [held]
            exact taken
          · rw [revive, held, same]
            simp [taken]

theorem requeue_isChanges (inner : Inner) (now : Nat) (mint : ReservationReceipt) (id : JobId) :
    IsChanges release config inner ⟨now, mint, .requeue id⟩ (requeue inner now id) := by
  rcases requeue_cases inner now id with
    ⟨failure, _, refused⟩ | ⟨before, entry, after, split, _, _, notLive, keyFree, revived⟩
  · rw [refused]
    exact unchanged_isChanges rfl rfl rfl rfl
  · rw [revived]
    exact ⟨[.revived entry.letter.envelope], Changes.single (.revive split notLive keyFree),
      rfl, rfl, rfl, rfl, rfl⟩

theorem purgeDeadLetters_isChanges (inner : Inner) (now : Nat)
    (mint : ReservationReceipt) (lane : Lane) :
    IsChanges release config inner ⟨now, mint, .purgeDeadLetters lane⟩
      (purgeDeadLetters inner lane) := by
  obtain ⟨sublist, parts⟩ := partition_spec
    (fun entry : DeadEntry => decide (entry.lane ≠ lane)) inner.dead
  refine ⟨[.dropped _], Changes.single (.drop sublist parts), rfl, rfl, rfl, ?_, rfl⟩
  simp [Label.droppedEntries, purgeDeadLetters]

/-- Every call is a list of elementary changes. -/
theorem perform_changes (release : StoredJob → StoredJob)
    (config : Config) (inner : Inner) (input : Input) :
    IsChanges release config inner input (perform release config inner input) := by
  obtain ⟨now, mint, call⟩ := input
  cases call with
  | enqueue job => exact enqueue_isChanges inner now mint job
  | enqueueBatch jobs => exact enqueueBatch_isChanges inner now mint jobs
  | reserve lane => exact reserve_isChanges inner now mint lane
  | ack receipt => exact ack_isChanges inner now mint receipt
  | retry receipt delay => exact retry_isChanges inner now mint receipt delay
  | defer receipt delay => exact defer_isChanges inner now mint receipt delay
  | fail receipt error => exact fail_isChanges inner now mint receipt error
  | extend receipt => exact extend_isChanges inner now mint receipt
  | requeue id => exact requeue_isChanges inner now mint id
  | purgeDeadLetters lane =>
    exact purgeDeadLetters_isChanges inner now mint lane
  | enqueueScheduled scheduleId occurrence job =>
    exact enqueueScheduled_isChanges inner now mint scheduleId occurrence job
  | removeSchedule scheduleId =>
    exact ⟨[.scheduled], Changes.single (.schedule _), rfl, rfl, rfl, rfl, rfl⟩
  | classify id => exact unchanged_isChanges rfl rfl rfl rfl
  | readDeadLetters lane limit => exact unchanged_isChanges rfl rfl rfl rfl
  | countDeadLetters lane => exact unchanged_isChanges rfl rfl rfl rfl
  | pendingCount lane => exact unchanged_isChanges rfl rfl rfl rfl

end Calls

end Worklane.Memory
