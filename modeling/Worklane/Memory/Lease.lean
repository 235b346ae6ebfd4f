import Worklane.Memory.Invariant

/-!
# Leases of the in-memory broker

Every call is one step of the lease table: leases lapse after their end, and
the call grants, settles or renews at most one.  Fencing and exclusivity
follow for whole traces.
-/

namespace Worklane.Memory

open Lib.Lease (Act Lapses Step table)

/-- The lease a stored job is under. -/
def leaseOf (job : StoredJob) : Option (ReservationReceipt × Nat) :=
  match job.receipt, job.leasedUntil with
  | some receipt, some endsAt => some (receipt, endsAt)
  | _, _ => none

def holders (inner : Inner) : Lib.Lease.Holders JobId ReservationReceipt :=
  table StoredJob.id leaseOf inner.jobs

theorem leaseOf_of_idle {job : StoredJob} (idle : job.leasedUntil = none) : leaseOf job = none := by
  unfold leaseOf
  rw [idle]
  split <;> simp_all

variable {inner : Inner} {receipt : ReservationReceipt}

theorem Coherent.leasedUntil (coherent : Coherent inner)
    {job : StoredJob} (member : job ∈ inner.jobs) (held : job.receipt = some receipt) :
    ∃ endsAt, job.leasedUntil = some endsAt ∧ leaseOf job = some (receipt, endsAt) := by
  have leased : job.leasedUntil.isSome = true := by
    rw [← coherent.leases job member, held]
    rfl
  obtain ⟨endsAt, ends⟩ := Option.isSome_iff_exists.mp leased
  exact ⟨endsAt, ends, by simp [leaseOf, held, ends]⟩

variable {now : Nat}

theorem Coherent.expired (coherent : Coherent inner) {job : StoredJob} (member : job ∈ inner.jobs)
    (exceeded : expired now job = true) :
    ∃ receipt endsAt, leaseOf job = some (receipt, endsAt) ∧ endsAt ≤ now := by
  obtain ⟨endsAt, ends, passed⟩ := (Option.any_eq_true ..).mp exceeded
  have held : job.receipt.isSome = true := by
    rw [coherent.leases job member, ends]
    rfl
  obtain ⟨receipt, held⟩ := Option.isSome_iff_exists.mp held
  exact ⟨receipt, endsAt, by simp [leaseOf, held, ends], of_decide_eq_true passed⟩

theorem Current.lease {inner : Inner} (coherent : Coherent inner)
    {job : StoredJob} (member : job ∈ inner.jobs) {now : Nat}
    {receipt : ReservationReceipt} (current : Current now job receipt) :
    ∃ endsAt, leaseOf job = some (receipt, endsAt) ∧ now < endsAt := by
  obtain ⟨endsAt, ends, lease⟩ := coherent.leasedUntil member current.held
  refine ⟨endsAt, lease, ?_⟩
  simpa [expired, ends] using current.unexpired

/-! ## One change -/

section Step

variable {release : StoredJob → StoredJob} {config : Config}
variable {now : Nat} {mint : ReservationReceipt} {call : Call}
variable {inner next final : Inner} {label : Label} {labels : List Label}

theorem holders_append (job : StoredJob) {unique : String → Option JobId} {dead : List DeadEntry}
    (notLive : inner.isLive job.id = false)
    (idle : job.leasedUntil = none) :
    holders
      { inner with
        jobs := inner.jobs ++ [job], unique := unique, dead := dead } =
      holders inner := by
  have absent := isLive_eq_false.mp notLive
  unfold holders
  rw [Lib.Lease.table_concat absent, leaseOf_of_idle idle, Function.update_eq_self_iff]
  exact (Lib.Lease.table_of_not_mem absent).symm

theorem Coherent.held {before after : List StoredJob} {job : StoredJob} (coherent : Coherent inner)
    (split : inner.jobs = before ++ job :: after) :
    holders inner job.id = leaseOf job := by
  have ids := coherent.ids
  rw [split] at ids
  rw [holders, split]
  exact Lib.Lease.table_split ids

theorem Coherent.holders_replace {before after : List StoredJob}
    {job : StoredJob} (coherent : Coherent inner)
    (split : inner.jobs = before ++ job :: after)
    (job' : StoredJob) (same : job'.id = job.id) :
    holders { inner with jobs := before ++ job' :: after } =
      Function.update (holders inner) job.id (leaseOf job') := by
  have ids := coherent.ids
  rw [split] at ids
  rw [holders, holders, split]
  exact Lib.Lease.table_replace ids same

theorem Coherent.holders_remove {before after : List StoredJob}
    {job : StoredJob} (coherent : Coherent inner)
    (split : inner.jobs = before ++ job :: after)
    (unique : String → Option JobId) (dead : List DeadEntry) :
    holders
      { inner with
        jobs := before ++ after, unique := unique, dead := dead } =
      Function.update (holders inner) job.id none := by
  have ids := coherent.ids
  rw [split] at ids
  unfold holders
  rw [split]
  exact Lib.Lease.table_remove ids

/-- A change lets leases lapse, or takes the action of its label. -/
theorem Change.leaseStep (releases : Releases release) (coherent : Coherent inner)
    (change : Change release config now mint call inner label next) :
    (label.actions = [] ∧ Lapses now (holders inner) (holders next)) ∨
      ∃ action, label.actions = [action] ∧ Act config.leaseUntil now (holders inner) action
          (holders next) := by
  have unchanged : label.actions = [] → holders next = holders inner →
      (label.actions = [] ∧ Lapses now (holders inner) (holders next)) ∨
        ∃ action, label.actions = [action] ∧ Act config.leaseUntil now (holders inner) action
            (holders next) := by
    intro quiet same
    rw [same]
    exact Or.inl ⟨quiet, Lapses.refl now _⟩
  have inside : ∀ {before after : List StoredJob} {job : StoredJob},
      inner.jobs = before ++ job :: after → job ∈ inner.jobs := by
    intro before after job split
    rw [split]
    simp
  cases change with
  | store job notLive keyFree =>
    exact unchanged rfl (holders_append (storedJob job now) notLive rfl)
  | release aligned =>
    refine Or.inl ⟨rfl, ?_⟩
    apply Lib.Lease.table_lapses
    refine (Lib.aligned_with_mem aligned).imp ?_
    rintro old new ⟨member, rfl | ⟨exceeded, rfl⟩⟩
    · exact ⟨rfl, Or.inl rfl⟩
    · refine ⟨congrArg JobEnvelope.id (releases.envelope old),
        Or.inr ⟨leaseOf_of_idle (releases.leasedUntil old), ?_⟩⟩
      exact coherent.expired member exceeded
  | @lease before after job split idle =>
    refine Or.inr ⟨_, rfl, ?_⟩
    rw [coherent.holders_replace split (leaseJob _ mint job) rfl]
    exact Act.grant _ ((coherent.held split).trans (leaseOf_of_idle idle))
  | @sweep before after job error split idle =>
    apply unchanged rfl
    rw [coherent.holders_remove split, Function.update_eq_self_iff, coherent.held split]
    exact (leaseOf_of_idle idle).symm
  | @ack before after job receipt split current =>
    obtain ⟨endsAt, lease, future⟩ := current.lease coherent (inside split)
    refine Or.inr ⟨_, rfl, ?_⟩
    rw [coherent.holders_remove split]
    exact Act.settle ((coherent.held split).trans lease) future
  | @retry before after job receipt delay split current =>
    obtain ⟨endsAt, lease, future⟩ := current.lease coherent (inside split)
    refine Or.inr ⟨_, rfl, ?_⟩
    rw [coherent.holders_replace split (retryJob now delay job) rfl]
    exact Act.settle ((coherent.held split).trans lease) future
  | @defer before after job receipt delay split current =>
    obtain ⟨endsAt, lease, future⟩ := current.lease coherent (inside split)
    refine Or.inr ⟨_, rfl, ?_⟩
    rw [coherent.holders_replace split (reschedule now delay job) rfl]
    exact Act.settle ((coherent.held split).trans lease) future
  | @fail before after job receipt error split current =>
    obtain ⟨endsAt, lease, future⟩ := current.lease coherent (inside split)
    refine Or.inr ⟨_, rfl, ?_⟩
    rw [coherent.holders_remove split]
    exact Act.settle ((coherent.held split).trans lease) future
  | @extend before after job receipt split current =>
    obtain ⟨endsAt, lease, future⟩ := current.lease coherent (inside split)
    have renewed : leaseOf (extendJob (saturatingAdd now config.lease) job) =
          some (receipt, config.leaseUntil now) := by
      simp [leaseOf, extendJob, current.held, Config.leaseUntil]
    refine Or.inr ⟨_, rfl, ?_⟩
    rw [coherent.holders_replace split (extendJob _ job) rfl, renewed]
    exact Act.renew ((coherent.held split).trans lease) future
  | drop => exact unchanged rfl rfl
  | @revive before after entry split notLive keyFree =>
    exact unchanged rfl (holders_append (requeuedJob entry now) notLive rfl)
  | schedule => exact unchanged rfl rfl

theorem Changes.leaseStep (releases : Releases release)
    (changes : Changes release config now mint call inner labels final)
    (coherent : Coherent inner)
    {action : Lib.Lease.Action JobId ReservationReceipt}
    (actions : labels.flatMap Label.actions = action.active) :
    Step config.leaseUntil now (holders inner) action (holders final) := by
  induction changes generalizing action with
  | refl =>
    cases action with
    | idle => exact (Act.idle _).step
    | _ => cases actions
  | head change rest ih =>
    have next := change.coherent releases coherent
    rw [List.flatMap_cons] at actions
    rcases change.leaseStep releases coherent with
      ⟨quiet, lapses⟩ | ⟨taken, single, act⟩
    · rw [quiet, List.nil_append] at actions
      exact (ih next actions).idle_trans lapses
    · -- The one action of the call: what follows only lets leases lapse.
      rw [single, List.singleton_append] at actions
      obtain ⟨rfl, quiet⟩ := Lib.Lease.Action.active_eq_cons actions
      exact act.step.trans_idle (Lib.Lease.step_idle_iff.mp (ih next quiet))

end Step

/-! ## Runs -/

theorem Changes.leased_mint {release : StoredJob → StoredJob}
    {config : Config} {mint : ReservationReceipt}
    {final : Inner} {labels : List Label}
    (changes : Changes release config now mint call inner labels final)
    {envelope : JobEnvelope}
    (member : Label.leased envelope receipt ∈ labels) :
    receipt = mint := by
  induction changes with
  | refl => cases member
  | head change _ ih =>
    rcases List.mem_cons.mp member with rfl | later
    · cases change
      rfl
    · exact ih later

theorem granted_is_minted (release : StoredJob → StoredJob)
    (config : Config) (inner : Inner) (input : Input) {id : JobId}
    (grants : leaseAction (input, (perform release config inner
      input).reply) = .grant id receipt) : receipt = input.mint := by
  obtain ⟨labels, changes, explains⟩ := perform_changes release config inner input
  have member : Lib.Lease.Action.grant id receipt ∈ labels.flatMap Label.actions := by
    rw [explains.actions, grants]
    simp [Lib.Lease.Action.active]
  obtain ⟨label, inside, action⟩ := List.mem_flatMap.mp member
  cases label <;> simp [Label.actions] at action
  next envelope leased =>
    rw [action.2]
    exact changes.leased_mint inside

theorem trace_leaseRun {release : StoredJob → StoredJob}
    (releases : Releases release) (config : Config) (inputs : List Input)
    (fresh : FreshMints inputs) :
    LeaseRun (exactClock config) ((machineWith release config).trace inputs) := by
  have own : HandsOutMinted (machineWith release config) :=
    fun inner input _ _ grants =>
      granted_is_minted release config inner input grants
  have runs := leaseRun_of_steps (exactClock config) (fun _ => True)
    holders own trivial rfl ?_ inputs fresh
  · exact ⟨_, runs.2⟩
  · intro past input allowed _ _
    obtain ⟨labels, changes, explains⟩ := perform_changes release config
      ((machineWith release config).run past) input
    have tracked := run_tracked releases config past (freshMints_past past input allowed)
    exact ⟨trivial, changes.leaseStep releases tracked.consistent.toCoherent explains.actions⟩

/-- Lease exclusivity of `InMemoryBroker`: a reserved job is handed out again
before its lease end only after a `retry` or `defer` with its receipt. -/
theorem trace_exclusive (config : Config) (inputs : List Input)
    (fresh : FreshMints inputs) (monotone : ClockMonotone inputs) :
    Exclusive config ((machine config).trace inputs) := by
  apply (trace_leaseRun releaseLease_releases config inputs fresh).exclusive
  rw [Lib.Machine.trace_inputs]
  exact monotone

theorem trace_exclusive_leased_twice : let config : Config := ⟨30, ⟨none, none⟩, none⟩
    FreshMints leasedTwice ∧ ClockMonotone leasedTwice ∧
      ((machine config).trace leasedTwice).map leaseAction = leasedTwiceActions ∧
      Exclusive config ((machine config).trace leasedTwice) :=
  ⟨by decide, by decide, by decide +kernel, trace_exclusive _ _ (by decide) (by decide)⟩

/-! ## Rejected calls -/

/-- What a stale call must not touch: every job's envelope (attempts, lane
and priority among its fields), `available_at` and key, and the rest. -/
structure SameJobs (inner next : Inner) : Prop where
  jobs : next.jobs.map (fun job =>
    (job.envelope, job.availableAt, job.uniqueKey)) =
    inner.jobs.map fun job =>
      (job.envelope, job.availableAt, job.uniqueKey)
  unique : next.unique = inner.unique
  dead : next.dead = inner.dead
  schedules : next.schedules = inner.schedules

variable {failure : Error}

theorem resolve_rejected {change : Inner → Nat → Inner × List DeadEntry}
    (rejected : (resolve releaseLease inner receipt now change).reply = .error failure) :
    SameJobs inner (resolve releaseLease inner receipt now change).inner := by
  rcases resolve_cases releaseLease inner receipt now change with
    ⟨jobs, aligned, equal⟩ | ⟨_, _, _, _, _, _, equal⟩
  · rw [equal]
    refine ⟨?_, rfl, rfl, rfl⟩
    symm
    apply Lib.map_eq_of_aligned aligned
    rintro old new (rfl | ⟨_, rfl⟩) <;> rfl
  · rw [equal] at rejected
    cases rejected

theorem SameJobs.of_eq {next : Inner} (same : next = inner) :
    SameJobs inner next := by
  subst same
  exact ⟨rfl, rfl, rfl, rfl⟩

theorem enqueue_rejected {job : NewJob}
    (rejected : (enqueue inner now job).reply = .error failure) :
    (enqueue inner now job).inner = inner := by
  unfold enqueue at rejected ⊢
  split <;> simp_all

theorem enqueueBatch_rejected {jobs : List NewJob}
    (rejected : (enqueueBatch inner now jobs).reply = .error failure) :
    (enqueueBatch inner now jobs).inner = inner := by
  unfold enqueueBatch at rejected ⊢
  split <;> simp_all

theorem enqueueScheduled_accepted (inner : Inner) (now : Nat)
    (scheduleId : String) (occurrence : Int64) (job : NewJob) :
    ∃ won, (enqueueScheduled inner now scheduleId occurrence job).reply = .ok (.claimed won) := by
  unfold enqueueScheduled
  split
  · exact ⟨true, rfl⟩
  · exact ⟨false, rfl⟩

theorem requeue_rejected {id : JobId} (rejected : (requeue inner now id).reply = .error failure) :
    (requeue inner now id).inner = inner := by
  rcases requeue_cases inner now id with ⟨_, _, refused⟩ | ⟨_, _, _, _, _, _, _, _, revived⟩
  · rw [refused]
  · rw [revived] at rejected
    cases rejected

theorem perform_rejected (config : Config) (inner : Inner) (input : Input)
    (rejected : (perform releaseLease config inner input).reply = .error failure) :
    SameJobs inner (perform releaseLease config inner input).inner := by
  obtain ⟨now, mint, call⟩ := input
  cases call with
  | ack | retry | defer | fail | extend => exact resolve_rejected rejected
  | enqueue => exact .of_eq (enqueue_rejected rejected)
  | enqueueBatch => exact .of_eq (enqueueBatch_rejected rejected)
  | enqueueScheduled scheduleId occurrence job =>
    obtain ⟨won, accepted⟩ := enqueueScheduled_accepted inner now scheduleId occurrence job
    cases accepted.symm.trans rejected
  | requeue => exact .of_eq (requeue_rejected rejected)
  | reserve | classify | readDeadLetters | countDeadLetters | purgeDeadLetters | pendingCount
  | removeSchedule => cases rejected

end Worklane.Memory
