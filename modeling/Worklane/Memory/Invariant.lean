import Worklane.Memory.Changes

/-!
# Consistency of the in-memory store

The job list and the key map stay consistent in every reachable state.  That
holds change by change for everything but the receipts; for those a call may
bring in its minted receipt once, which is why mints have to be fresh.
-/

namespace Worklane.Memory

open List

/-- The live job `id` holds `key`. -/
def Holds (jobs : List StoredJob) (id : JobId) (key : String) : Prop :=
  ∃ job ∈ jobs, job.id = id ∧ job.uniqueKey = some key

/-- The receipts under which jobs are leased. -/
def Inner.receipts (inner : Inner) : List ReservationReceipt :=
  inner.jobs.filterMap StoredJob.receipt

/-- The part of consistency that does not depend on minted receipts. -/
structure Coherent (inner : Inner) : Prop where
  ids : (inner.jobs.map StoredJob.id).Nodup
  keys : Lib.Exact inner.unique (Holds inner.jobs)
  leases : ∀ job ∈ inner.jobs, job.receipt.isSome = true ↔ job.leasedUntil.isSome = true

/-- Consistency of the store. -/
structure Consistent (inner : Inner) : Prop extends Coherent inner where
  receipts : inner.receipts.Nodup

theorem isLive_eq_false {inner : Inner} {id : JobId} :
    inner.isLive id = false ↔ id ∉ inner.jobs.map StoredJob.id := by
  simp [Inner.isLive]

/-! ## The shapes of a change of the job list -/

section Shapes

variable {inner : Inner} {before after : List StoredJob}
variable {job job' : StoredJob}

theorem holds_split (id : JobId) (key : String) : Holds (before ++ job :: after) id key ↔
      Holds (before ++ after) id key ∨ (id = job.id ∧ job.uniqueKey = some key) := by
  simp only [Holds, mem_append, mem_cons]
  constructor
  · rintro ⟨other, early | rfl | late, same, held⟩
    · exact Or.inl ⟨other, Or.inl early, same, held⟩
    · exact Or.inr ⟨same.symm, held⟩
    · exact Or.inl ⟨other, Or.inr late, same, held⟩
  · rintro (⟨other, early | late, same, held⟩ | ⟨rfl, held⟩)
    · exact ⟨other, Or.inl early, same, held⟩
    · exact ⟨other, Or.inr (Or.inr late), same, held⟩
    · exact ⟨job, Or.inr (Or.inl rfl), rfl, held⟩

theorem Coherent.replace (coherent : Coherent inner) (split : inner.jobs = before ++ job :: after)
    (id : job'.id = job.id) (key : job'.uniqueKey = job.uniqueKey)
    (lease : job'.receipt.isSome = true ↔ job'.leasedUntil.isSome = true) :
    Coherent { inner with jobs := before ++ job' :: after } := by
  obtain ⟨ids, keys, leases⟩ := coherent
  rw [split] at ids keys leases
  refine ⟨?_, ?_, ?_⟩
  · simpa [id] using ids
  · refine keys.congr fun owner name => ?_
    rw [holds_split, holds_split, id, key]
  · intro other member
    rcases mem_append.mp member with early | tail
    · exact leases other (by simp [early])
    · rcases mem_cons.mp tail with rfl | late
      · exact lease
      · exact leases other (by simp [late])

theorem Coherent.remove (coherent : Coherent inner) (split : inner.jobs = before ++ job :: after)
    (dead : List DeadEntry) :
    Coherent
      { inner with
        jobs := before ++ after
        unique := freeKey inner.unique job.uniqueKey
        dead := dead } := by
  obtain ⟨ids, keys, leases⟩ := coherent
  rw [split] at ids keys leases
  -- The other jobs have other ids, so no other job is `job`.
  have others : ∀ name, ¬ Holds (before ++ after) job.id name := by
    rintro name ⟨other, member, same, _⟩
    exact Lib.key_ne_of_split ids other (mem_append.mp member) same
  refine ⟨?_, ?_, ?_⟩
  · refine List.Nodup.sublist ?_ ids
    exact ((List.Sublist.refl before).append (sublist_cons_self job after)).map _
  · have own : ∀ name, Holds (before ++ job :: after) job.id name ↔ job.uniqueKey = some name := by
      intro name
      rw [holds_split]
      simp [others name]
    apply keys.free own
    intro owner name
    rw [holds_split]
    constructor
    · intro held
      refine ⟨Or.inl held, ?_⟩
      rintro rfl
      exact others name held
    · rintro ⟨held | ⟨same, _⟩, different⟩
      · exact held
      · exact absurd same different
  · intro other member
    apply leases other
    rcases mem_append.mp member with early | late
    · simp [early]
    · simp [late]

theorem Coherent.append (coherent : Coherent inner) (job : StoredJob)
    (notLive : inner.isLive job.id = false)
    (keyFree : inner.keyHolder job.uniqueKey = none)
    (receipt : job.receipt = none) (idle : job.leasedUntil = none)
    (dead : List DeadEntry) :
    Coherent
      { inner with
        jobs := inner.jobs ++ [job]
        unique := claimKey inner.unique job.uniqueKey job.id
        dead := dead } := by
  obtain ⟨ids, keys, leases⟩ := coherent
  refine ⟨?_, ?_, ?_⟩
  · have absent := isLive_eq_false.mp notLive
    simp only [map_append, map_cons, map_nil]
    exact nodup_append'.mpr ⟨ids, nodup_singleton _, disjoint_singleton.mpr absent⟩
  · apply keys.claim keyFree
    intro owner name
    rw [holds_split, append_nil]
  · intro other member
    rcases mem_append.mp member with old | new
    · exact leases other old
    · rw [mem_singleton.mp new]
      simp [receipt, idle]

theorem Released.same {release : StoredJob → StoredJob} {now : Nat}
    (releases : Releases release) (released : Released release now job job') :
    job'.envelope = job.envelope ∧ job'.uniqueKey = job.uniqueKey := by
  rcases released with rfl | ⟨_, rfl⟩
  · exact ⟨rfl, rfl⟩
  · exact ⟨releases.envelope job, releases.uniqueKey job⟩

theorem holds_iff_mem_map (jobs : List StoredJob) (id : JobId) (key : String) : Holds jobs id key ↔
      (id, some key) ∈ jobs.map fun job => (job.id, job.uniqueKey) := by
  simp [Holds]

theorem Coherent.release {release : StoredJob → StoredJob} {now : Nat}
    {jobs : List StoredJob} (coherent : Coherent inner)
    (releases : Releases release)
    (aligned : List.Forall₂ (Released release now) inner.jobs jobs) :
    Coherent { inner with jobs := jobs } := by
  have labels : inner.jobs.map (fun job => (job.id, job.uniqueKey)) =
      jobs.map fun job => (job.id, job.uniqueKey) := by
    apply Lib.map_eq_of_aligned aligned
    intro old new released
    obtain ⟨envelope, key⟩ := released.same releases
    simp [StoredJob.id, envelope, key]
  obtain ⟨ids, keys, leases⟩ := coherent
  refine ⟨?_, ?_, ?_⟩
  · have projected := congrArg (List.map Prod.fst) labels
    simp only [map_map] at projected
    exact (show jobs.map StoredJob.id = inner.jobs.map StoredJob.id from
      projected.symm) ▸ ids
  · refine keys.congr fun owner name => ?_
    rw [holds_iff_mem_map, holds_iff_mem_map, labels]
  · intro new member
    obtain ⟨old, inside, same | ⟨_, rfl⟩⟩ := Lib.exists_left_of_mem aligned member
    · rw [same]
      exact leases old inside
    · simp [releases.receipt, releases.leasedUntil]

end Shapes

/-! ## One change -/

section Step

variable {release : StoredJob → StoredJob} {config : Config}
variable {now : Nat} {mint : ReservationReceipt} {call : Call}
variable {inner next : Inner} {label : Label}

theorem Change.coherent (releases : Releases release)
    (change : Change release config now mint call inner label next)
    (coherent : Coherent inner) : Coherent next := by
  cases change with
  | store job notLive keyFree =>
    exact coherent.append (storedJob job now) notLive keyFree rfl rfl _
  | release aligned => exact coherent.release releases aligned
  | lease split =>
    exact coherent.replace split rfl rfl (by simp [leaseJob])
  | sweep error split => exact coherent.remove split _
  | ack split => exact coherent.remove split _
  | retry delay split =>
    exact coherent.replace split rfl rfl (by simp [retryJob, reschedule])
  | defer delay split =>
    exact coherent.replace split rfl rfl (by simp [reschedule])
  | fail error split => exact coherent.remove split _
  | extend split current =>
    exact coherent.replace split rfl rfl (by simp [extendJob, current.held])
  | drop => exact ⟨coherent.ids, coherent.keys, coherent.leases⟩
  | @revive before after entry split notLive keyFree =>
    exact coherent.append (requeuedJob entry now) notLive keyFree rfl rfl _
  | schedule => exact ⟨coherent.ids, coherent.keys, coherent.leases⟩

theorem Change.receipts (releases : Releases release)
    (change : Change release config now mint call inner label next) :
    next.receipts.Sublist inner.receipts ∨ ∃ envelope first second, label = .leased envelope mint ∧
        (first ++ second).Sublist inner.receipts ∧
        next.receipts = first ++ mint :: second := by
  -- Where one job of the list gives up its receipt, or leaves with it.
  have removed : ∀ {before after : List StoredJob} {job : StoredJob},
      inner.jobs = before ++ job :: after →
      (before.filterMap StoredJob.receipt ++
        after.filterMap StoredJob.receipt).Sublist inner.receipts := by
    intro before after job split
    rw [Inner.receipts, split, ← filterMap_append]
    exact ((List.Sublist.refl before).append (sublist_cons_self job after)).filterMap _
  cases change with
  | store job => exact Or.inl (by simp [Inner.receipts, storedJob])
  | release aligned =>
    apply Or.inl
    apply Lib.filterMap_sublist_of_aligned aligned
    rintro old new (rfl | ⟨_, rfl⟩)
    · exact Or.inl rfl
    · exact Or.inr (releases.receipt old)
  | @lease before after job split =>
    exact Or.inr ⟨job.envelope, _, _, rfl, removed split, by simp [Inner.receipts, leaseJob]⟩
  | sweep error split =>
    exact Or.inl (by simpa [Inner.receipts] using removed split)
  | ack split =>
    exact Or.inl (by simpa [Inner.receipts] using removed split)
  | retry delay split =>
    exact Or.inl (by
      simpa [Inner.receipts, retryJob, reschedule] using removed split)
  | defer delay split =>
    exact Or.inl (by
      simpa [Inner.receipts, reschedule] using removed split)
  | fail error split =>
    exact Or.inl (by simpa [Inner.receipts] using removed split)
  | extend split =>
    exact Or.inl (by
      simp [Inner.receipts, split, filterMap_cons, extendJob])
  | drop => exact Or.inl (List.Sublist.refl _)
  | revive split =>
    exact Or.inl (by simp [Inner.receipts, requeuedJob])
  | schedule => exact Or.inl (List.Sublist.refl _)

end Step

/-! ## One call -/

section Calls

variable {release : StoredJob → StoredJob} {config : Config}
variable {now : Nat} {mint : ReservationReceipt} {call : Call}
variable {inner final : Inner} {labels : List Label}

theorem Changes.coherent (releases : Releases release)
    (changes : Changes release config now mint call inner labels final)
    (coherent : Coherent inner) : Coherent final :=
  changes.invariant (fun _ change held => change.coherent releases held) coherent

/-- The labels lease a job under the minted receipt. -/
def LeasesIn (mint : ReservationReceipt) (labels : List Label) : Prop :=
  ∃ envelope, Label.leased envelope mint ∈ labels

/-- A call that leases at most once, under a receipt nobody holds, keeps
receipts distinct. -/
theorem Changes.receipts (releases : Releases release)
    (changes : Changes release config now mint call inner labels final)
    (once : (labels.flatMap Label.actions).length ≤ 1)
    (fresh : LeasesIn mint labels → mint ∉ inner.receipts)
    (distinct : inner.receipts.Nodup) :
    final.receipts.Nodup ∧ ∀ receipt ∈ final.receipts, receipt ∈ inner.receipts ∨
        (receipt = mint ∧ LeasesIn mint labels) := by
  induction changes with
  | refl => exact ⟨distinct, fun receipt member => Or.inl member⟩
  | @head inner middle final label labels change rest ih =>
    rw [flatMap_cons, length_append] at once
    have later : LeasesIn mint labels → LeasesIn mint (label :: labels) :=
      fun ⟨envelope, member⟩ =>
        ⟨envelope, mem_cons_of_mem _ member⟩
    rcases change.receipts releases with
      sublist | ⟨envelope, first, second, rfl, sublist, equal⟩
    · obtain ⟨nodup, origin⟩ := ih (by omega) (fun leases member => fresh (later leases)
          (sublist.subset member)) (distinct.sublist sublist)
      refine ⟨nodup, fun receipt member => ?_⟩
      rcases origin receipt member with old | ⟨same, leases⟩
      · exact Or.inl (sublist.subset old)
      · exact Or.inr ⟨same, later leases⟩
    · -- This is the one lease of the call: no later change is one.
      have leases : LeasesIn mint (.leased envelope mint :: labels) := ⟨envelope, mem_cons_self ..⟩
      have none : labels.flatMap Label.actions = [] := by
        apply length_eq_zero_iff.mp
        simp only [Label.actions, length_cons, length_nil] at once
        omega
      have noMore : ¬ LeasesIn mint labels := by
        rintro ⟨other, member⟩
        have empty := flatMap_eq_nil_iff.mp none _ member
        simp [Label.actions] at empty
      have absent : mint ∉ first ++ second := fun member =>
        fresh leases (sublist.subset member)
      obtain ⟨nodup, origin⟩ := ih (by omega) (fun leased => absurd leased noMore) (by
          rw [equal, nodup_middle, nodup_cons]
          exact ⟨absent, distinct.sublist sublist⟩)
      refine ⟨nodup, fun receipt member => ?_⟩
      rcases origin receipt member with old | ⟨_, leased⟩
      · rw [equal, mem_append, mem_cons] at old
        rcases old with early | rfl | late
        · exact Or.inl (sublist.subset (by simp [early]))
        · exact Or.inr ⟨rfl, leases⟩
        · exact Or.inl (sublist.subset (by simp [late]))
      · exact absurd leased noMore

end Calls

/-! ## Runs -/

theorem minted_of_leases {inner : Inner} {input : Input} {outcome : Outcome} {labels : List Label}
    (explains : Explains inner input outcome labels)
    (leases : LeasesIn input.mint labels) : input.minted = [input.mint] := by
  obtain ⟨envelope, member⟩ := leases
  have grants : Lib.Lease.Action.grant envelope.id input.mint ∈ labels.flatMap Label.actions :=
    mem_flatMap.mpr ⟨_, member, by simp [Label.actions]⟩
  rw [explains.actions] at grants
  obtain ⟨lane, _, reserves, _⟩ := leaseAction_grant (Lib.Lease.Action.mem_active grants)
  simp [Input.minted, reserves]

/-- The store is consistent and every receipt in it was minted. -/
structure Tracked (past : List Input) (inner : Inner) : Prop where
  consistent : Consistent inner
  minted : ∀ receipt ∈ inner.receipts, receipt ∈ mints past

theorem tracked_empty : Tracked [] Inner.empty where
  consistent :=
    { ids := nodup_nil
      keys := by
        intro key id
        simp [Inner.empty, Holds]
      leases := by simp [Inner.empty]
      receipts := nodup_nil }
  minted := by simp [Inner.empty, Inner.receipts]

theorem Tracked.step {release : StoredJob → StoredJob}
    (releases : Releases release) (config : Config)
    {past : List Input} {inner : Inner} (tracked : Tracked past inner)
    {input : Input} (fresh : FreshMints (past ++ [input])) :
    Tracked (past ++ [input]) (perform release config inner input).inner := by
  obtain ⟨labels, changes, explains⟩ := perform_changes release config inner input
  have once : (labels.flatMap Label.actions).length ≤ 1 := by
    rw [explains.actions]
    exact Lib.Lease.Action.length_active_le _
  have unheld : LeasesIn input.mint labels → input.mint ∉ inner.receipts := by
    intro leases member
    rw [FreshMints, mints_concat, minted_of_leases explains leases] at fresh
    exact disjoint_of_nodup_append fresh (tracked.minted input.mint member) (by simp)
  obtain ⟨distinct, origin⟩ := changes.receipts releases once unheld tracked.consistent.receipts
  refine ⟨⟨changes.coherent releases tracked.consistent.toCoherent, distinct⟩, ?_⟩
  intro receipt member
  rw [mints_concat, mem_append]
  rcases origin receipt member with old | ⟨rfl, leases⟩
  · exact Or.inl (tracked.minted receipt old)
  · rw [minted_of_leases explains leases]
    exact Or.inr (by simp)

theorem run_tracked {release : StoredJob → StoredJob}
    (releases : Releases release) (config : Config) (inputs : List Input)
    (fresh : FreshMints inputs) :
    Tracked inputs ((machineWith release config).run inputs) :=
  (machineWith release config).run_invariant freshMints_past tracked_empty
    (fun _ _ allowed held => held.step releases config allowed) inputs fresh

/-- Coherence does not depend on the minted receipts. -/
theorem run_coherent (config : Config) (inputs : List Input) :
    Coherent ((machine config).run inputs) := by
  induction inputs using List.reverseRecOn with
  | nil => exact tracked_empty.consistent.toCoherent
  | append_singleton past input ih =>
    obtain ⟨labels, changes, _⟩ :=
      perform_changes releaseLease config ((machine config).run past) input
    rw [Lib.Machine.run_concat]
    exact changes.coherent releaseLease_releases ih

theorem Coherent.keys_distinct {inner : Inner} (coherent : Coherent inner) :
    (inner.jobs.filterMap StoredJob.uniqueKey).Nodup := by
  rw [List.Nodup, pairwise_filterMap]
  have different := pairwise_map.mp coherent.ids
  refine different.imp_of_mem ?_
  intro first second early late distinct key held other otherHeld equal
  subst equal
  exact distinct (coherent.keys.owner_eq ⟨first, early, rfl, held⟩ ⟨second, late, rfl, otherHeld⟩)

/-- Every reachable state of `InMemoryBroker` is consistent. -/
theorem run_consistent (config : Config) (inputs : List Input) (fresh : FreshMints inputs) :
    let inner := (machine config).run inputs
    (inner.jobs.map StoredJob.id).Nodup ∧ (∀ key id, inner.unique key = some id ↔
        ∃ job ∈ inner.jobs, job.id = id ∧ job.uniqueKey = some key) ∧
      (inner.jobs.filterMap StoredJob.uniqueKey).Nodup ∧
      (∀ job ∈ inner.jobs, job.receipt.isSome = true ↔ job.leasedUntil.isSome = true) ∧
      (inner.jobs.filterMap StoredJob.receipt).Nodup := by
  obtain ⟨coherent, receipts⟩ := (run_tracked releaseLease_releases config inputs fresh).consistent
  exact ⟨coherent.ids, coherent.keys, coherent.keys_distinct, coherent.leases, receipts⟩

/-- Two jobs with keys: one is dead-lettered and requeued, then the other is
leased. -/
def requeuedRun : List Input :=
  [⟨1, ⟨⟨0⟩⟩, .enqueue ⟨⟨⟨1⟩⟩, ⟨"mail"⟩, "send", [], 3, 0, some "first", 0, none⟩⟩,
    ⟨2, ⟨⟨0⟩⟩, .enqueue ⟨⟨⟨2⟩⟩, ⟨"mail"⟩, "send", [], 3, 0, some "second", 0, none⟩⟩,
    ⟨3, ⟨⟨7⟩⟩, .reserve ⟨"mail"⟩⟩, ⟨5, ⟨⟨0⟩⟩, .fail ⟨⟨7⟩⟩ "refused"⟩, ⟨6, ⟨⟨0⟩⟩, .requeue ⟨⟨1⟩⟩⟩,
    ⟨7, ⟨⟨8⟩⟩, .reserve ⟨"mail"⟩⟩]

theorem run_consistent_requeued :
    let inner := (machine ⟨30, ⟨none, some 1⟩, some 2⟩).run requeuedRun
    FreshMints requeuedRun ∧
      inner.jobs.map (fun job => (job.id, job.uniqueKey, job.receipt)) =
        [(⟨⟨2⟩⟩, some "second", some ⟨⟨8⟩⟩), (⟨⟨1⟩⟩, some "first", none)] ∧
      (inner.jobs.map StoredJob.id).Nodup ∧ (∀ key id, inner.unique key = some id ↔
        ∃ job ∈ inner.jobs, job.id = id ∧ job.uniqueKey = some key) ∧
      (inner.jobs.filterMap StoredJob.uniqueKey).Nodup ∧
      (∀ job ∈ inner.jobs, job.receipt.isSome = true ↔ job.leasedUntil.isSome = true) ∧
      (inner.jobs.filterMap StoredJob.receipt).Nodup :=
  ⟨by decide, by decide +kernel, run_consistent _ _ (by decide)⟩

end Worklane.Memory
