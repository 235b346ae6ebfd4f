import Worklane.Redis.Scripts

/-!
# What one script can change

Every script is a chain of elementary changes of the store.  The inversion is
proved once (`exec_trail`); the invariants are then case analyses on `Change`.
A change is labelled with the dead-lettering it performs and the receipt it
hands out, if any.
-/

namespace Worklane.Redis

open List

/-- A script found the job of `id` at this level under this member: either by
the fields of its hash or by an entry of the lane set. -/
structure Located (store : Store) (id : Text) (hash : JobHash)
    (level : Lane × Nat) (member : Text) : Prop where
  found : store.job id = some hash
  place : (level = hash.level ∧ member = hash.member id) ∨
    ∃ entry ∈ store.lanes level, entry.member = member ∧ fifoId member = id

/-- A sorted set falls apart into the entries that go and those kept. -/
def Splits (set : Lib.ZSet Text) (gone : List (Lib.ZEntry Text)) (kept : Lib.ZSet Text) : Prop :=
  set.entries.Perm (gone ++ kept.entries)

/-- Where the hash of a job that is stored comes from: the arguments of the
script, or the dead record of its id. -/
def Sourced (jobs : List JobArgs) (store : Store) (id : Text) (hash : JobHash) : Prop :=
  (∃ args ∈ jobs, id = args.id.toText ∧ hash = args.hash) ∨
    ∃ dead now, store.deadJob id = some dead ∧ hash = dead.revived now

section Trails

variable (jobs : List JobArgs)

inductive Change : Store → List Burial → List ReservationReceipt → Store → Prop
  | stored {store : Store} {id : Text} {hash : JobHash} (source : Sourced jobs store id hash)
      (absent : store.job id = none)
      (free : hash.uniqueKey.bind store.unique = none)
      (idle : hash.receipt = none ∧ hash.leasedUntil = none) :
      Change store [] [] (store.storeJob id hash)
  | leased {store : Store} {id member : Text} {hash : JobHash} {priority : Nat} (args : ReserveArgs)
      (located : Located store id hash (args.lane, priority) member) :
      Change store [] [args.receipt] (store.lease args priority id member hash)
  | removed {store : Store} {id : Text} {hash : JobHash} (found : store.job id = some hash) :
      Change store [] [] (store.removeJob id hash hash.level (hash.member id))
  | rescheduled {store : Store} {receipt : ReservationReceipt}
      {id : Text} {hash : JobHash} (attempts availableAt : Nat)
      (found : store.job id = some hash)
      (held : hash.receipt = some receipt) :
      Change store [] [] (store.reschedule receipt id
        { hash with attempts := attempts } availableAt)
  | extended {store : Store} {receipt : ReservationReceipt}
      {id : Text} {hash : JobHash} (leaseUntil : Nat)
      (found : store.job id = some hash)
      (held : hash.receipt = some receipt) :
      Change store [] [] (store.putJob id { hash with leasedUntil := some leaseUntil } hash.level
        (hash.member id) (Lib.toDouble leaseUntil))
  | buried {store : Store} {id member : Text} {hash : JobHash}
      {lane : Lane} {priority : Nat} (error : String) (deadAt : Nat)
      (located : Located store id hash (lane, priority) member) :
      Change store [(id, hash.deadRecord lane priority member error deadAt)]
        [] ((store.bury id (hash.deadRecord lane priority member error
          deadAt)).removeJob id hash (lane, priority) member)
  | dropped {store : Store} {lane : Lane} {gone : List (Lib.ZEntry Text)} {kept : Lib.ZSet Text}
      (splits : Splits (store.dead lane) gone kept) :
      Change store [] [] (store.dropDead lane gone kept)
  | unburied {store : Store} {id : Text} {dead : DeadHash} (found : store.deadJob id = some dead) :
      Change store [] [] (store.unbury id dead)
  | levelDropped {store : Store} {lane : Lane} {priority : Nat}
      (vacant : (store.lanes (lane, priority)).zcard = 0) :
      Change store [] []
        { store with
          prios := Function.update store.prios lane ((store.prios lane).zrem priority) }
  | scheduled {store : Store} (schedule : String → Option Text) :
      Change store [] [] { store with schedule := schedule }

/-- Changes one after the other. -/
inductive Trail : Store → List Burial → List ReservationReceipt → Store → Prop
  | refl (store : Store) : Trail store [] [] store
  | step {store middle final : Store} {burials later : List Burial}
      {minted rest : List ReservationReceipt}
      (change : Change jobs store burials minted middle)
      (trail : Trail middle later rest final) :
      Trail store (burials ++ later) (minted ++ rest) final

end Trails

variable {jobs : List JobArgs}

variable {store : Store} {burials : List Burial} {minted : List ReservationReceipt}

theorem Trail.trans {middle final : Store} {later : List Burial} {rest : List ReservationReceipt}
    (first : Trail jobs store burials minted middle)
    (second : Trail jobs middle later rest final) :
    Trail jobs store (burials ++ later) (minted ++ rest) final := by
  induction first with
  | refl store => exact second
  | step change trail ih =>
    rw [append_assoc, append_assoc]
    exact Trail.step change (ih second)

theorem Change.trail {final : Store} (change : Change jobs store burials minted final) :
    Trail jobs store burials minted final := by
  have whole := Trail.step change (Trail.refl final)
  rwa [append_nil, append_nil] at whole

/-- A chain in which no job appears.  The jobs it dead-letters are different
ones: each was live before and is gone afterwards. -/
structure Sweep (jobs : List JobArgs) (store : Store)
    (burials : List Burial) (minted : List ReservationReceipt)
    (final : Store) : Prop where
  trail : Trail jobs store burials minted final
  shrinks : ∀ id, store.job id = none → final.job id = none
  live : ∀ burial ∈ burials, store.job burial.1 ≠ none
  gone : ∀ burial ∈ burials, final.job burial.1 = none
  distinct : (burials.map Prod.fst).Nodup

theorem Sweep.refl (store : Store) : Sweep jobs store [] [] store where
  trail := Trail.refl store
  shrinks := fun _ absent => absent
  live := fun _ inside => absurd inside not_mem_nil
  gone := fun _ inside => absurd inside not_mem_nil
  distinct := nodup_nil

theorem Sweep.trans {middle final : Store} {later : List Burial} {rest : List ReservationReceipt}
    (first : Sweep jobs store burials minted middle)
    (second : Sweep jobs middle later rest final) :
    Sweep jobs store (burials ++ later) (minted ++ rest) final where
  trail := first.trail.trans second.trail
  shrinks := fun id absent => second.shrinks id (first.shrinks id absent)
  live := by
    intro burial inside
    rcases mem_append.mp inside with early | late
    · exact first.live burial early
    · exact fun absent =>
      second.live burial late (first.shrinks burial.1 absent)
  gone := by
    intro burial inside
    rcases mem_append.mp inside with early | late
    · exact second.shrinks burial.1 (first.gone burial early)
    · exact second.gone burial late
  distinct := by
    rw [map_append]
    refine nodup_append.mpr ⟨first.distinct, second.distinct, ?_⟩
    intro id early other late same
    subst same
    obtain ⟨burial, inside, rfl⟩ := mem_map.mp early
    obtain ⟨burial', inside', same⟩ := mem_map.mp late
    exact second.live burial' inside' (same ▸ first.gone burial inside)

theorem Change.sweep {store final : Store} {minted : List ReservationReceipt}
    (change : Change jobs store [] minted final)
    (shrinks : ∀ id, store.job id = none → final.job id = none) :
    Sweep jobs store [] minted final where
  trail := change.trail
  shrinks := shrinks
  live := fun _ inside => absurd inside not_mem_nil
  gone := fun _ inside => absurd inside not_mem_nil
  distinct := nodup_nil

/-! ## Pruning -/

theorem splits_filter (set : Lib.ZSet Text) (test : Lib.ZEntry Text → Bool) :
    Splits set (set.entries.filter test) (set.keep fun entry => !test entry) :=
  (filter_append_perm test set.entries).symm

theorem splits_take (set : Lib.ZSet Text) (count : Nat) :
    Splits set (set.entries.take count) (set.dropFirst count) := by
  have whole := take_append_drop count set.entries
  exact List.Perm.of_eq whole.symm

theorem splits_all (set : Lib.ZSet Text) : Splits set set.entries ∅ := by
  apply List.Perm.of_eq
  exact (append_nil _).symm

theorem pruneByAge_sweep (store : Store) (lane : Lane) (bounds : Bounds) :
    Sweep jobs store [] [] (store.pruneByAge lane bounds) := by
  unfold Store.pruneByAge
  by_cases bounded : bounds.hasAgeBound
  · rw [if_pos bounded]
    exact (Change.dropped (splits_filter _ _)).sweep fun _ absent => absent
  · rw [if_neg bounded]
    exact Sweep.refl store

theorem pruneByCount_sweep (store : Store) (lane : Lane) (bounds : Bounds) :
    Sweep jobs store [] [] (store.pruneByCount lane bounds) := by
  simp only [Store.pruneByCount]
  split
  · exact (Change.dropped (splits_take _ _)).sweep fun _ absent => absent
  · exact Sweep.refl store

variable {hash : JobHash}

theorem removeJob_job_eq_none {id other member : Text} {level : Lane × Nat}
    (gone : other = id ∨ store.job other = none) :
    (store.removeJob id hash level member).job other = none := by
  change Function.update store.job id none other = none
  by_cases same : other = id
  · rw [same, Function.update_self]
  · rw [Function.update_of_ne same]
    exact gone.resolve_left same

theorem deadLetterMove_sweep {store : Store} {id member : Text}
    {hash : JobHash} {lane : Lane} {priority : Nat} (error : String)
    (deadAt : Nat) (bounds : Bounds)
    (located : Located store id hash (lane, priority) member) :
    Sweep jobs store [(id, hash.deadRecord lane priority member error deadAt)]
      [] (store.deadLetterMove id hash lane priority member error deadAt bounds) := by
  have moved : Sweep jobs store [(id, hash.deadRecord lane priority member error deadAt)] []
      ((store.bury id (hash.deadRecord lane priority member error
        deadAt)).removeJob id hash (lane, priority) member) :=
    { trail := (Change.buried error deadAt located).trail
      shrinks := fun _ absent => removeJob_job_eq_none (Or.inr absent)
      live := by
        intro burial inside
        rw [mem_singleton.mp inside, located.found]
        exact Option.some_ne_none hash
      gone := by
        intro burial inside
        rw [mem_singleton.mp inside]
        exact removeJob_job_eq_none (Or.inl rfl)
      distinct := nodup_singleton _ }
  exact (moved.trans (pruneByAge_sweep _ lane bounds)).trans (pruneByCount_sweep _ lane bounds)

/-! ## The scripts -/

theorem storeJob_trail {id : Text} (source : Sourced jobs store id hash)
    (absent : ¬ (store.job id).isSome = true)
    (free : hash.uniqueKey.bind store.unique = none)
    (idle : hash.receipt = none ∧ hash.leasedUntil = none) :
    Trail jobs store [] [] (store.storeJob id hash) :=
  (Change.stored source (Option.not_isSome_iff_eq_none.mp absent) free idle).trail

theorem enqueue_trail (store : Store) {args : JobArgs}
    (brought : args ∈ jobs) : Trail jobs store [] [] (store.enqueue args).1 := by
  simp only [Store.enqueue]
  by_cases live : (store.job args.id.toText).isSome
  · rw [if_pos live]
    exact Trail.refl store
  · rw [if_neg live]
    cases held : args.key.bind store.unique with
    | some existing => exact Trail.refl store
    | none =>
      exact storeJob_trail (Or.inl ⟨args, brought, rfl, rfl⟩) live held ⟨rfl, rfl⟩

theorem enqueueBatch_trail {batch : List JobArgs}
    (brought : ∀ args ∈ batch, args ∈ jobs) (store : Store) :
    Trail jobs store [] [] (store.enqueueBatch batch).1 := by
  induction batch generalizing store with
  | nil => exact Trail.refl store
  | cons args rest ih =>
    have first := enqueue_trail store (brought args (mem_cons_self ..))
    exact first.trans (ih (fun other member => brought other (mem_cons_of_mem _ member)) _)

theorem enqueueScheduled_trail (store : Store) (scheduleId : String)
    (occ : Text) {args : JobArgs} (brought : args ∈ jobs) :
    Trail jobs store [] [] (store.enqueueScheduled scheduleId occ args).1 := by
  simp only [Store.enqueueScheduled]
  split
  · exact Trail.refl store
  · exact (Change.scheduled _).trail.trans (enqueue_trail _ brought)

theorem lease_job_eq_none {id other member : Text} {args : ReserveArgs} {priority : Nat}
    (found : store.job id = some hash) (absent : store.job other = none) :
    (store.lease args priority id member hash).job other = none := by
  have different : other ≠ id := by
    rintro rfl
    rw [found] at absent
    cases absent
  change Function.update store.job id _ other = none
  rw [Function.update_of_ne different, absent]

theorem reserveLevel_sweep (args : ReserveArgs) (priority left : Nat) (store : Store) :
    ∃ minted, minted.Sublist [args.receipt] ∧
      Sweep jobs store (store.reserveLevel args priority left).2.2 minted
        (store.reserveLevel args priority left).1 ∧
      (∀ remaining, (store.reserveLevel args priority left).2.1 = .drained remaining →
        minted = []) := by
  induction left generalizing store with
  | zero =>
    exact ⟨[], nil_sublist _, Sweep.refl store, fun _ _ => rfl⟩
  | succ left ih =>
    rw [Store.reserveLevel]
    cases first : (store.lanes (args.lane, priority)).firstUpTo (Lib.toDouble args.now) with
    | none =>
      exact ⟨[], nil_sublist _, Sweep.refl store, fun _ _ => rfl⟩
    | some entry =>
      have listed := (Lib.ZSet.firstUpTo_eq_some first).1
      cases found : store.job (fifoId entry.member) with
      | none =>
        simp only [found]
        exact ⟨[], nil_sublist _, Sweep.refl store, fun _ _ => rfl⟩
      | some hash =>
        have located : Located store (fifoId entry.member) hash
            (args.lane, priority) entry.member :=
          ⟨found, Or.inr ⟨entry, listed, rfl, rfl⟩⟩
        simp only [found]
        by_cases exceeded : 0 < args.max ∧ args.max < hash.deliveries + 1
        · simp only [if_pos exceeded]
          obtain ⟨minted, allowed, later, drained⟩ :=
            ih (store.deadLetterMove (fifoId entry.member) hash args.lane priority
              entry.member (overDeliveredText args.max)
              (Lib.toDouble args.now) args.bounds)
          exact ⟨minted, allowed, (deadLetterMove_sweep _ _ _ located).trans later, drained⟩
        · simp only [if_neg exceeded]
          refine ⟨[args.receipt], List.Sublist.refl _,
            (Change.leased args located).sweep fun _ absent =>
              lease_job_eq_none found absent, ?_⟩
          intro remaining ended
          cases ended

theorem reserveLevels_sweep (args : ReserveArgs) (levels : List Nat) (left : Nat) (store : Store) :
    ∃ minted, minted.Sublist [args.receipt] ∧
      Sweep jobs store (store.reserveLevels args levels left).2.2 minted
        (store.reserveLevels args levels left).1 := by
  induction levels generalizing store left with
  | nil => exact ⟨[], nil_sublist _, Sweep.refl store⟩
  | cons priority rest ih =>
    rw [Store.reserveLevels]
    by_cases vacant : (store.lanes (args.lane, priority)).zcard = 0
    · rw [if_pos vacant]
      obtain ⟨minted, allowed, later⟩ := ih left
        { store with
          prios := Function.update store.prios args.lane ((store.prios args.lane).zrem priority) }
      exact ⟨minted, allowed, ((Change.levelDropped vacant).sweep
          fun _ absent => absent).trans later⟩
    · rw [if_neg vacant]
      obtain ⟨minted, allowed, first, drained⟩ := reserveLevel_sweep args priority left store
      rcases ended : store.reserveLevel args priority left with
        ⟨next, outcome, buried⟩
      rw [ended] at first drained
      cases outcome with
      | handed envelope attempts => exact ⟨minted, allowed, first⟩
      | capped => exact ⟨minted, allowed, first⟩
      | drained remaining =>
        obtain ⟨later, laterAllowed, second⟩ := ih remaining next
        have none := drained remaining rfl
        subst none
        exact ⟨later, laterAllowed, first.trans second⟩

theorem guard_eq_some {receipt : ReservationReceipt} {now : Nat} {id : Text}
    (passed : store.guard receipt now = some (id, hash)) :
    store.rcpt receipt = some id ∧ store.job id = some hash ∧ hash.receipt = some receipt ∧
      ∃ endsAt, hash.leasedUntil = some endsAt ∧ Lib.toDouble now < Lib.toDouble endsAt := by
  unfold Store.guard at passed
  obtain ⟨found, indexed, passed⟩ := Option.bind_eq_some_iff.mp passed
  obtain ⟨stored, present, passed⟩ := Option.bind_eq_some_iff.mp passed
  split at passed
  · next current =>
    cases passed
    obtain ⟨held, live⟩ := current
    obtain ⟨endsAt, leased, ahead⟩ := (Option.any_eq_true ..).mp live
    exact ⟨indexed, present, held, endsAt, leased, of_decide_eq_true ahead⟩
  · cases passed

theorem guarded_trail {receipt : ReservationReceipt} {now : Nat} {change : Text → JobHash → Store}
    (changed : ∀ id hash, store.job id = some hash → hash.receipt = some receipt →
      Trail jobs store [] [] (change id hash)) :
    Trail jobs store [] [] (store.guarded receipt now change).1 := by
  unfold Store.guarded
  cases passed : store.guard receipt now with
  | none => exact Trail.refl store
  | some pair =>
    obtain ⟨_, found, held, _⟩ := guard_eq_some passed
    exact changed pair.1 pair.2 found held

theorem fail_sweep (store : Store) (receipt : ReservationReceipt)
    (now : Nat) (error : String) (bounds : Bounds) :
    Sweep jobs store (store.failBurials receipt now error) []
      (store.fail receipt now error bounds).1 := by
  unfold Store.fail Store.failBurials Store.guarded
  cases passed : store.guard receipt now with
  | none => exact Sweep.refl store
  | some pair =>
    obtain ⟨_, found, _⟩ := guard_eq_some passed
    exact deadLetterMove_sweep error now bounds ⟨found, Or.inl ⟨rfl, rfl⟩⟩

theorem requeue_trail (store : Store) (id : JobId) (now : Nat) :
    Trail jobs store [] [] (store.requeue id now).1 := by
  simp only [Store.requeue]
  cases found : store.deadJob id.toText with
  | none => exact Trail.refl store
  | some dead =>
    by_cases live : (store.job id.toText).isSome
    · simp only [if_pos live]
      exact Trail.refl store
    · by_cases held : (dead.uniqueKey.bind store.unique).isSome
      · simp only [if_neg live, if_pos held]
        exact Trail.refl store
      · simp only [if_neg live, if_neg held]
        have free := Option.not_isSome_iff_eq_none.mp held
        have back : Trail jobs store [] [] (store.storeJob id.toText (dead.revived now)) :=
          storeJob_trail (Or.inr ⟨dead, now, found, rfl⟩) live free ⟨rfl, rfl⟩
        have kept : (store.storeJob id.toText
            (dead.revived now)).deadJob id.toText = some dead := found
        exact back.trans (Change.unburied kept).trail

/-- Every script is a chain of changes that performs the dead-letterings the
script reports and hands out at most the receipt the script brought. -/
theorem exec_trail (store : Store) (script : Script) : ∃ minted, minted.Sublist script.minted ∧
      Trail script.jobs store (store.exec script).2 minted (store.exec script).1 := by
  have plain : ∀ {final : Store}, Trail script.jobs store [] [] final →
      ∃ minted, minted.Sublist script.minted ∧ Trail script.jobs store [] minted final :=
    fun trail => ⟨[], nil_sublist _, trail⟩
  cases script with
  | enqueue args =>
    exact plain (enqueue_trail store (mem_singleton_self args))
  | enqueueBatch batch =>
    exact plain (enqueueBatch_trail (fun _ member => member) store)
  | reserve args =>
    obtain ⟨minted, allowed, sweep⟩ := reserveLevels_sweep args
      (store.levels args.lane) maxDeadLetterSweep store
    exact ⟨minted, allowed, sweep.trail⟩
  | ack receipt now =>
    exact plain (guarded_trail fun _ _ found _ =>
      (Change.removed found).trail)
  | retry receipt now availableAt =>
    exact plain (guarded_trail fun _ _ found held =>
      (Change.rescheduled _ availableAt found held).trail)
  | defer receipt now availableAt =>
    exact plain (guarded_trail fun _ hash found held =>
      (Change.rescheduled hash.attempts availableAt found held).trail)
  | fail receipt now error bounds =>
    exact ⟨[], nil_sublist _, (fail_sweep store receipt now error bounds).trail⟩
  | extend receipt now leaseUntil =>
    exact plain (guarded_trail fun _ _ found held =>
      (Change.extended leaseUntil found held).trail)
  | requeue id now => exact plain (requeue_trail store id now)
  | purgeDead lane =>
    exact plain (Change.dropped (splits_all _)).trail
  | enqueueScheduled scheduleId occ args =>
    exact plain (enqueueScheduled_trail store scheduleId occ (mem_singleton_self args))
  | delSchedule scheduleId => exact plain (Change.scheduled _).trail

/-- One script dead-letters a job at most once. -/
theorem exec_burials_nodup (store : Store) (script : Script) :
    ((store.exec script).2.map Prod.fst).Nodup := by
  cases script with
  | reserve args =>
    obtain ⟨_, _, sweep⟩ := @reserveLevels_sweep [] args
      (store.levels args.lane) maxDeadLetterSweep store
    exact sweep.distinct
  | fail receipt now error bounds =>
    exact (@fail_sweep [] store receipt now error bounds).distinct
  | _ => exact nodup_nil

end Worklane.Redis
