import Worklane.Redis.Naming
import Worklane.Redis.Reservations

/-!
# What a call does to a live job

A live job ends when its receipt is acked or when it is dead-lettered.  Any
other call leaves it live, with the same unique key and at least as many
deliveries.
-/

namespace Worklane.Redis

variable {serde : SerdeJson} {config : Config} {store : Store}
variable {input : Input} {id : Text} {hash : JobHash}

/-- The jobs a call dead-letters, with the records written for them. -/
def deadLettered (config : Config) (store : Store) (input : Input) :
    List Burial :=
  match input.call with
  | .reserve lane =>
    match laneKeySegment lane with
    | .error _ => []
    | .ok _ =>
      (store.reserve (reserveArgs config input.now input.mint lane)).2.2
  | .fail receipt error => store.failBurials receipt (nanos input.now) error
  | _ => []

/-- The call acks the job or dead-letters it. -/
inductive Ends (config : Config) (store : Store) (input : Input) (id : Text) : Prop
  | acked {receipt : ReservationReceipt} (call : input.call = .ack receipt)
      (accepted : (ack store input.now receipt).2 = .ok .done)
      (held : store.receiptOf id = some receipt)
  | buried (member : id ∈ (deadLettered config store input).map Prod.fst)

/-- The job is live afterwards, under the same key. -/
def Survives (store' : Store) (id : Text) (hash : JobHash) : Prop :=
  ∃ kept, store'.job id = some kept ∧ kept.uniqueKey = hash.uniqueKey ∧
    hash.deliveries ≤ kept.deliveries

theorem survives_of_job {store' : Store} (live : store.job id = some hash)
    (same : store'.job id = store.job id) : Survives store' id hash :=
  ⟨hash, same.trans live, rfl, Nat.le_refl _⟩

/-! ## Storing other jobs -/

theorem storeJob_other {other : Text} {stored : JobHash} (different : id ≠ other) :
    (store.storeJob other stored).job id = store.job id :=
  Function.update_of_ne different ..

theorem enqueue_job_kept (args : JobArgs) (live : store.job id = some hash) :
    (store.enqueue args).1.job id = store.job id := by
  simp only [Store.enqueue]
  by_cases present : (store.job args.id.toText).isSome
  · rw [if_pos present]
  · rw [if_neg present]
    cases args.key.bind store.unique with
    | some existing => rfl
    | none =>
      refine storeJob_other ?_
      rintro rfl
      rw [live] at present
      exact present rfl

theorem enqueueBatch_job_kept (batch : List JobArgs) (live : store.job id = some hash) :
    (store.enqueueBatch batch).1.job id = store.job id := by
  induction batch generalizing store with
  | nil => rfl
  | cons args rest ih =>
    have first := enqueue_job_kept args live
    have later := ih (first.trans live)
    exact later.trans first

theorem enqueueScheduled_job_kept (scheduleId : String) (occ : Text)
    (args : JobArgs) (live : store.job id = some hash) :
    (store.enqueueScheduled scheduleId occ args).1.job id =
      store.job id := by
  simp only [Store.enqueueScheduled]
  split
  · rfl
  · exact @enqueue_job_kept { store with schedule := _ } id hash args live

theorem requeue_job_kept (jobId : JobId) (now : Nat) (live : store.job id = some hash) :
    (store.requeue jobId now).1.job id = store.job id := by
  simp only [Store.requeue]
  cases store.deadJob jobId.toText with
  | none => rfl
  | some dead =>
    by_cases present : (store.job jobId.toText).isSome
    · simp only [if_pos present]
    · simp only [if_neg present]
      split
      · rfl
      · refine storeJob_other ?_
        rintro rfl
        rw [live] at present
        exact present rfl

/-! ## Resolving receipts -/

variable {receipt : ReservationReceipt} {change : Text → JobHash → Store}

theorem guarded_survives {now : Nat}
    (rewrites : ∀ other stored, store.job other = some stored → ∃ next, (change other stored).job =
          Function.update store.job other (some next) ∧
        next.uniqueKey = stored.uniqueKey ∧
        next.deliveries = stored.deliveries)
    (live : store.job id = some hash) :
    Survives (store.guarded receipt now change).1 id hash := by
  unfold Store.guarded
  cases passed : store.guard receipt now with
  | none => exact survives_of_job live rfl
  | some pair =>
    obtain ⟨other, stored⟩ := pair
    obtain ⟨_, found, _⟩ := guard_eq_some passed
    obtain ⟨next, written, key, count⟩ := rewrites other stored found
    by_cases same : id = other
    · subst same
      cases live.symm.trans found
      refine ⟨next, ?_, key, count.ge⟩
      rw [written, Function.update_self]
    · refine survives_of_job live ?_
      rw [written, Function.update_of_ne same]

theorem guarded_removes {receipt : ReservationReceipt} {now : Nat} {change : Text → JobHash → Store}
    (removes : ∀ other stored, (change other stored).job = Function.update store.job other none)
    (live : store.job id = some hash) :
    (store.guarded receipt now change).1.job id = some hash ∨
      store.guard receipt now = some (id, hash) := by
  unfold Store.guarded
  cases passed : store.guard receipt now with
  | none => exact Or.inl live
  | some pair =>
    obtain ⟨other, stored⟩ := pair
    obtain ⟨_, found, _⟩ := guard_eq_some passed
    by_cases same : id = other
    · subst same
      cases live.symm.trans found
      exact Or.inr rfl
    · left
      rw [removes, Function.update_of_ne same, live]

theorem resolved_done {ran : Store × Nat} : (resolved receipt ran).2 = .ok .done ↔ ran.2 = 1 := by
  unfold resolved
  by_cases passed : ran.2 = 1
  · rw [if_pos passed]
    exact ⟨fun _ => passed, fun _ => rfl⟩
  · rw [if_neg passed]
    exact ⟨nofun, fun done => absurd done passed⟩

theorem guarded_code {now : Nat} :
    (store.guarded receipt now change).2 = 1 ↔ (store.guard receipt now).isSome := by
  unfold Store.guarded
  cases store.guard receipt now with
  | none => simp
  | some pair => simp

/-! ## Any call -/

theorem perform_fate (live : store.job id = some hash) : Ends config store input id ∨
      Survives (perform serde config store input).1 id hash := by
  obtain ⟨now, mint, call⟩ := input
  cases call with
  | enqueue job =>
    right
    simp only [perform, enqueue]
    cases jobArgs serde now job with
    | error failure => exact survives_of_job live rfl
    | ok args => exact survives_of_job live (enqueue_job_kept args live)
  | enqueueBatch jobs =>
    right
    simp only [perform, enqueueBatch]
    split
    · exact survives_of_job live rfl
    · cases jobs.mapM (jobArgs serde now) with
      | error failure => exact survives_of_job live rfl
      | ok batch =>
        exact survives_of_job live (enqueueBatch_job_kept batch live)
  | reserve lane =>
    simp only [perform, reserve]
    cases safe : laneKeySegment lane with
    | error failure => exact Or.inr (survives_of_job live rfl)
    | ok value =>
      have hands := reserve_hands (reserveArgs config now mint lane) store
      rcases hands.cases_of_some live with
        ⟨member, _⟩ | ⟨_, leased, _⟩ | ⟨_, kept⟩
      · refine Or.inl (.buried ?_)
        simp only [deadLettered, safe]
        exact member
      · exact Or.inr ⟨_, leased, rfl, Nat.le_succ _⟩
      · exact Or.inr (survives_of_job live (kept.trans live.symm))
  | ack receipt =>
    have removal := @guarded_removes store id hash receipt (nanos now) (fun other stored =>
      store.removeJob other stored stored.level (stored.member other))
      (fun _ _ => rfl) live
    rcases removal with kept | passed
    · exact Or.inr (survives_of_job live (kept.trans live.symm))
    · obtain ⟨_, _, held, _⟩ := guard_eq_some passed
      refine Or.inl (.acked rfl ?_ ?_)
      · rw [ack, resolved_done, Store.ack, guarded_code, passed]
        rfl
      · rw [Store.receiptOf, live]
        exact held
  | retry receipt delay =>
    exact Or.inr (guarded_survives (fun _ _ _ => ⟨_, rfl, rfl, rfl⟩) live)
  | defer receipt delay =>
    exact Or.inr (guarded_survives (fun _ _ _ => ⟨_, rfl, rfl, rfl⟩) live)
  | fail receipt error =>
    have removal := @guarded_removes store id hash receipt (nanos now) (fun other stored =>
      store.deadLetterMove other stored stored.lane stored.priority
        (stored.member other) error (nanos now)
        (bounds config.retention (nanos now)))
      (fun _ _ => deadLetterMove_job ..) live
    rcases removal with kept | passed
    · exact Or.inr (survives_of_job live (kept.trans live.symm))
    · refine Or.inl (.buried ?_)
      simp only [deadLettered, Store.failBurials, passed]
      exact List.mem_singleton_self id
  | extend receipt =>
    exact Or.inr (guarded_survives (fun _ _ _ => ⟨_, rfl, rfl, rfl⟩) live)
  | requeue jobId =>
    exact Or.inr (survives_of_job live (requeue_job_kept jobId _ live))
  | purgeDeadLetters lane =>
    simp only [perform, purgeDeadLetters]
    cases laneKeySegment lane with
    | error failure => exact Or.inr (survives_of_job live rfl)
    | ok value => exact Or.inr (survives_of_job live rfl)
  | enqueueScheduled scheduleId occurrence job =>
    right
    simp only [perform, enqueueScheduled]
    cases laneKeySegment job.lane with
    | error failure => exact survives_of_job live rfl
    | ok value =>
      cases checkedKeySegment scheduleId "schedule id" with
      | error failure => exact survives_of_job live rfl
      | ok value =>
        cases jobArgs serde now job with
        | error failure => exact survives_of_job live rfl
        | ok args =>
          exact survives_of_job live (enqueueScheduled_job_kept _ _ args live)
  | removeSchedule scheduleId =>
    simp only [perform, removeSchedule]
    cases checkedKeySegment scheduleId "schedule id" with
    | error failure => exact Or.inr (survives_of_job live rfl)
    | ok value => exact Or.inr (survives_of_job live rfl)
  | _ => exact Or.inr (survives_of_job live rfl)

/-- What a call that ends jobs leaves: the jobs that were live before, apart
from those it ends. -/
theorem Ends.remains (ends : Ends config store input id) {other : Text} {kept : JobHash}
    (found : (perform serde config store input).1.job other = some kept) :
    ∃ hash, store.job other = some hash ∧ kept.uniqueKey = hash.uniqueKey := by
  -- Removing the job of a receipt leaves the other hashes as they were.
  have guarded : ∀ (receipt : ReservationReceipt) (change : Text → JobHash → Store),
      (∀ owner stored, (change owner stored).job = Function.update store.job owner none) →
      (store.guarded receipt (nanos input.now) change).1.job other =
        some kept → store.job other = some kept := by
    intro receipt change removes stays
    unfold Store.guarded at stays
    cases passed : store.guard receipt (nanos input.now) with
    | none =>
      rw [passed] at stays
      exact stays
    | some pair =>
      rw [passed] at stays
      have stays : (change pair.1 pair.2).job other = some kept := stays
      rw [removes] at stays
      by_cases same : other = pair.1
      · rw [same, Function.update_self] at stays
        cases stays
      · rwa [Function.update_of_ne same] at stays
  obtain ⟨now, mint, call⟩ := input
  cases ends with
  | @acked receipt called accepted held =>
    cases called
    have before := guarded receipt (fun owner stored =>
      store.removeJob owner stored stored.level (stored.member owner))
      (fun _ _ => rfl) found
    exact ⟨kept, before, rfl⟩
  | buried member =>
    cases call with
    | fail receipt error =>
      have before := guarded receipt (fun owner stored =>
        store.deadLetterMove owner stored stored.lane stored.priority
          (stored.member owner) error (nanos now)
          (bounds config.retention (nanos now)))
        (fun _ _ => deadLetterMove_job ..) found
      exact ⟨kept, before, rfl⟩
    | reserve lane =>
      simp only [perform, reserve] at found
      cases safe : laneKeySegment lane with
      | error failure =>
        rw [safe] at found
        exact ⟨kept, found, rfl⟩
      | ok value =>
        rw [safe] at found
        have hands := reserve_hands (reserveArgs config now mint lane) store
        cases live : store.job other with
        | none =>
          cases (hands.none_of_none live).symm.trans found
        | some hash =>
          refine ⟨hash, rfl, ?_⟩
          rcases hands.cases_of_some live with
            ⟨_, gone, _⟩ | ⟨_, leased, _⟩ | ⟨_, same⟩
          · cases gone.symm.trans found
          · cases leased.symm.trans found
            rfl
          · cases same.symm.trans found
            rfl
    | _ => exact absurd member List.not_mem_nil

theorem Ends.gone (ends : Ends config store input id) (indexed : Indexed store) :
    (perform serde config store input).1.job id = none := by
  obtain ⟨now, mint, call⟩ := input
  cases ends with
  | @acked receipt called accepted held =>
    cases called
    have accepted := resolved_done.mp accepted
    obtain ⟨pair, passed⟩ := Option.isSome_iff_exists.mp (guarded_code.mp accepted)
    obtain ⟨owner, found, own, _⟩ := guard_eq_some passed
    have same : pair.1 = id := by
      refine indexed.receipts.owner_eq ?_ held
      rw [Store.receiptOf, found]
      exact own
    simp only [perform, ack, resolved, Store.ack, Store.guarded, passed]
    rw [← same]
    exact Function.update_self ..
  | buried member =>
    cases call with
    | fail receipt error =>
      simp only [deadLettered, Store.failBurials] at member
      simp only [perform, fail, resolved, Store.fail, Store.guarded]
      cases passed : store.guard receipt (nanos now) with
      | none =>
        rw [passed] at member
        cases member
      | some pair =>
        rw [passed] at member
        have own := List.mem_singleton.mp member
        simp only [deadLetterMove_job]
        rw [own]
        exact Function.update_self ..
    | reserve lane =>
      simp only [deadLettered] at member
      simp only [perform, reserve]
      cases safe : laneKeySegment lane with
      | error failure =>
        rw [safe] at member
        cases member
      | ok value =>
        rw [safe] at member
        obtain ⟨burial, inside, rfl⟩ := List.mem_map.mp member
        obtain ⟨_, _, sweep⟩ := @reserveLevels_sweep []
          (reserveArgs config now mint lane) (store.levels lane)
          maxDeadLetterSweep store
        exact sweep.gone burial inside
    | _ => exact absurd member List.not_mem_nil

end Worklane.Redis
