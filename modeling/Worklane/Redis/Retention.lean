import Worklane.Core.Json
import Worklane.Redis.Fates
import Worklane.Redis.Letters

/-!
# Retention on Redis

A run of `RedisBroker` beside the ledger of `Letters`: in every run whose
dead-letterings are faithful, the records Redis retains are those the
in-memory broker would.
-/

namespace Worklane.Redis

open List

variable {serde : SerdeJson} {config : Config}

/-! ## The audited run -/

/-- What a call does to the ledger. -/
def ledger (serde : SerdeJson) (config : Config) (store : Store)
    (input : Input) (letters : List Letter) : List Letter :=
  match input.call with
  | .requeue id =>
    if (store.requeue id (nanos input.now)).2 = 1 then
      letters.filter fun letter => letter.entry.id ≠ id
    else
      letters
  | .purgeDeadLetters lane =>
    match laneKeySegment lane with
    | .error _ => letters
    | .ok _ => letters.filter fun letter => letter.lane ≠ lane
  | _ =>
    (deadLettered config store input).foldl (enter serde config.retention input.now) letters

/-- `RedisBroker` with the ledger beside it. -/
def audited (serde : SerdeJson) (config : Config) :
    Lib.Machine (Store × List Letter) Input Reply where
  initial := (Store.empty, [])
  step := fun state input =>
    (((perform serde config state.1 input).1, ledger serde config state.1 input state.2),
      (perform serde config state.1 input).2)

theorem audited_store (inputs : List Input) : ((audited serde config).run inputs).1 =
      (machine serde config).run inputs := by
  induction inputs using List.reverseRecOn with
  | nil => rfl
  | append_singleton past input ih =>
    rw [Lib.Machine.run_concat, Lib.Machine.run_concat, ← ih]
    rfl

/-- Every dead-lettering of a call is faithful, each to the ledger the earlier
ones left. -/
def FaithfulAll (serde : SerdeJson) (policy : RetentionPolicy) (now : Nat) :
    List Letter → List Burial → Prop
  | _, [] => True
  | letters, burial :: rest =>
    (∀ letter ∈ filedLetter serde now burial, Faithful policy now letters letter) ∧
    FaithfulAll serde policy now (enter serde policy now letters burial) rest

instance decidableFaithfulAll (serde : SerdeJson) (policy : RetentionPolicy)
    (now : Nat) : (letters : List Letter) → (burials : List Burial) →
      Decidable (FaithfulAll serde policy now letters burials)
  | _, [] => inferInstanceAs (Decidable True)
  | letters, burial :: rest =>
    have := decidableFaithfulAll serde policy now (enter serde policy now letters burial) rest
    inferInstanceAs (Decidable (_ ∧ _))

/-- Every dead-lettering of the run is faithful. -/
def FaithfulRun (serde : SerdeJson) (config : Config) (inputs : List Input) : Prop :=
  ∀ step ∈ (audited serde config).steps inputs,
    FaithfulAll serde config.retention step.2.now step.1.2 (deadLettered config step.1.1 step.2)

instance (serde : SerdeJson) (config : Config) (inputs : List Input) :
    Decidable (FaithfulRun serde config inputs) :=
  inferInstanceAs (Decidable (∀ step ∈ _, _))

/-! ## Sweeps -/

/-- Dead-letterings one after the other. -/
inductive Moves (args : Bounds) : Store → List Burial → Store → Prop
  | refl (store : Store) : Moves args store [] store
  | unlisted {store final : Store} {burials : List Burial} (prios : Lane → Lib.ZSet Nat)
      (rest : Moves args { store with prios := prios } burials final) :
      Moves args store burials final
  | move {store final : Store} {id member : Text} {hash : JobHash}
      {lane : Lane} {priority : Nat} {burials : List Burial}
      (error : String) (deadAt : Nat)
      (located : Located store id hash (lane, priority) member)
      (rest : Moves args (store.deadLetterMove id hash lane priority member
        error deadAt args) burials final) :
      Moves args store ((id, hash.deadRecord lane priority member error deadAt) :: burials) final

theorem Moves.append {args : Bounds} {store middle final : Store}
    {burials later : List Burial} (first : Moves args store burials middle)
    (second : Moves args middle later final) :
    Moves args store (burials ++ later) final := by
  induction first with
  | refl => exact second
  | unlisted prios _ ih =>
    exact .unlisted prios (ih second)
  | move error deadAt located _ ih =>
    exact .move error deadAt located (ih second)

variable {store : Store}

theorem live_of_update {owner id : Text} {stored : JobHash}
    {value : Option JobHash} (found : store.job owner = some stored)
    (live : Function.update store.job owner value id ≠ none) :
    store.job id ≠ none := by
  by_cases same : id = owner
  · rw [same, found]
    exact Option.some_ne_none stored
  · rwa [Function.update_of_ne same] at live

variable {final : Store} {burials : List Burial}

theorem Moves.known {args : Bounds} {id : Text} (moves : Moves args store burials final)
    (present : final.job id ≠ none ∨ final.deadJob id ≠ none) :
    store.job id ≠ none ∨ store.deadJob id ≠ none := by
  induction moves with
  | refl => exact present
  | unlisted prios rest ih =>
    exact ih present
  | @move store final owner member hash lane priority burials error deadAt
      located rest ih =>
      rcases ih present with live | buried
      · rw [deadLetterMove_job] at live
        exact Or.inl (live_of_update located.found live)
      · obtain ⟨record, found⟩ := Option.ne_none_iff_exists'.mp buried
        have written := pruneByAge_deadJob (pruneByCount_deadJob found)
        have written : Function.update store.deadJob owner _ id =
          some record := written
        by_cases same : id = owner
        · rw [same, located.found]
          exact Or.inl (Option.some_ne_none hash)
        · rw [Function.update_of_ne same] at written
          exact Or.inr (written ▸ Option.some_ne_none record)

/-- Dead-letterings, after which at most a lease is given. -/
structure Sweeps (args : Bounds) (store : Store) (burials : List Burial)
    (final : Store) : Prop where
  moved : ∃ middle, Moves args store burials middle ∧
    final.dead = middle.dead ∧ final.deadJob = middle.deadJob ∧
    ∀ id, middle.job id = none → final.job id = none

theorem Moves.sweeps {args : Bounds} (moves : Moves args store burials final) :
    Sweeps args store burials final :=
  ⟨final, moves, rfl, rfl, fun _ absent => absent⟩

theorem Sweeps.after {args : Bounds} {middle : Store}
    {later : List Burial} (first : Moves args store burials middle)
    (second : Sweeps args middle later final) :
    Sweeps args store (burials ++ later) final := by
  obtain ⟨last, moves, rest⟩ := second.moved
  exact ⟨last, first.append moves, rest⟩

theorem reserveLevel_sweeps (args : ReserveArgs) (priority left : Nat) (store : Store) :
    Sweeps args.bounds store (store.reserveLevel args priority left).2.2
        (store.reserveLevel args priority left).1 ∧
      ∀ remaining, (store.reserveLevel args priority left).2.1 = .drained remaining →
        Moves args.bounds store (store.reserveLevel args priority left).2.2
          (store.reserveLevel args priority left).1 := by
  induction left generalizing store with
  | zero => exact ⟨(Moves.refl store).sweeps, fun _ _ => .refl store⟩
  | succ left ih =>
    rw [Store.reserveLevel]
    cases first : (store.lanes (args.lane, priority)).firstUpTo (Lib.toDouble args.now) with
    | none => exact ⟨(Moves.refl store).sweeps, fun _ _ => .refl store⟩
    | some entry =>
      cases found : store.job (fifoId entry.member) with
      | none =>
        simp only [found]
        exact ⟨(Moves.refl store).sweeps, fun _ _ => .refl store⟩
      | some hash =>
        have listed := (Lib.ZSet.firstUpTo_eq_some first).1
        have located : Located store (fifoId entry.member) hash
            (args.lane, priority) entry.member :=
          ⟨found, Or.inr ⟨entry, listed, rfl, rfl⟩⟩
        simp only [found]
        by_cases exceeded : 0 < args.max ∧ args.max < hash.deliveries + 1
        · simp only [if_pos exceeded]
          obtain ⟨sweeps, drained⟩ := ih (store.deadLetterMove (fifoId entry.member) hash args.lane
              priority entry.member (overDeliveredText args.max)
              (Lib.toDouble args.now) args.bounds)
          constructor
          · obtain ⟨last, moves, rest⟩ := sweeps.moved
            exact ⟨last, .move _ _ located moves, rest⟩
          · intro remaining ended
            exact .move _ _ located (drained remaining ended)
        · simp only [if_neg exceeded]
          refine ⟨⟨store, .refl store, rfl, rfl, fun _ absent =>
            lease_job_eq_none found absent⟩, ?_⟩
          intro remaining ended
          cases ended

theorem reserveLevels_sweeps (args : ReserveArgs) (levels : List Nat) (left : Nat) (store : Store) :
    Sweeps args.bounds store (store.reserveLevels args levels left).2.2
      (store.reserveLevels args levels left).1 := by
  induction levels generalizing store left with
  | nil => exact (Moves.refl store).sweeps
  | cons priority rest ih =>
    rw [Store.reserveLevels]
    split
    · obtain ⟨last, moves, same⟩ := (ih left
        { store with
          prios := Function.update store.prios args.lane
            ((store.prios args.lane).zrem priority) }).moved
      exact ⟨last, .unlisted _ moves, same⟩
    · obtain ⟨first, drained⟩ := reserveLevel_sweeps args priority left store
      rcases ended : store.reserveLevel args priority left with
        ⟨next, outcome, buried⟩
      rw [ended] at first drained
      cases outcome with
      | handed envelope attempts => exact first
      | capped => exact first
      | drained remaining =>
        exact (ih remaining next).after (drained remaining rfl)

theorem fail_sweeps (store : Store) (receipt : ReservationReceipt)
    (now : Nat) (error : String) (args : Bounds) :
    Sweeps args store (store.failBurials receipt now error)
      (store.fail receipt now error args).1 := by
  unfold Store.fail Store.failBurials Store.guarded
  cases passed : store.guard receipt now with
  | none => exact (Moves.refl store).sweeps
  | some pair =>
    obtain ⟨_, found, _⟩ := guard_eq_some passed
    exact (Moves.move error now ⟨found, Or.inl ⟨rfl, rfl⟩⟩ (.refl _)).sweeps

/-- Faithful dead-letterings keep the ledger and the store together. -/
theorem Kept.moves {policy : RetentionPolicy} {now : Nat} {letters : List Letter}
    (kept : Kept serde store letters)
    (moves : Moves (bounds policy (nanos now)) store burials final)
    (faithful : FaithfulAll serde policy now letters burials) :
    Kept serde final (burials.foldl (enter serde policy now) letters) := by
  induction moves generalizing letters with
  | refl store => exact kept
  | unlisted prios rest ih =>
    refine ih ?_ faithful
    obtain ⟨⟨log, interred⟩, named, apart, shelved⟩ := kept
    exact ⟨⟨log, interred.filed, interred.lockstep, interred.logged,
      interred.live, interred.dead⟩, ⟨named.jobs, named.dead⟩, apart,
      shelved.entries, shelved.records⟩
  | move error deadAt located rest ih =>
    obtain ⟨letter, filed, _⟩ := kept.filedLetter located error deadAt now
    exact ih (kept.move located filed (faithful.1 letter filed)) faithful.2

/-! ## One call -/

/-- What a call does to the dead-letter store and to the ledger. -/
inductive DeadStep (serde : SerdeJson) (config : Config) (store : Store)
    (input : Input) (next : Store) : Prop
  | plain (dead : next.dead = store.dead) (deadJob : next.deadJob = store.deadJob)
      (lives : ∀ id, next.job id ≠ none → store.job id ≠ none ∨
        ∃ job ∈ input.call.newJobs, job.id.toText = id)
      (files : ∀ letters, ledger serde config store input letters = letters)
  | swept (sweeps : Sweeps (bounds config.retention (nanos input.now)) store
        (deadLettered config store input) next)
      (files : ∀ letters, ledger serde config store input letters =
        (deadLettered config store input).foldl (enter serde config.retention input.now) letters)
  | unburied {jobId : JobId} {record : DeadHash} (found : store.deadJob jobId.toText = some record)
      (dead : next.dead = Function.update store.dead record.lane
        ((store.dead record.lane).zrem record.member))
      (deadJob : next.deadJob = Function.update store.deadJob jobId.toText none)
      (lives : ∀ id, next.job id ≠ none → store.job id ≠ none ∨ id = jobId.toText)
      (files : ∀ letters, ledger serde config store input letters =
        letters.filter fun letter => letter.entry.id ≠ jobId)
  | purged {lane : Lane} (same : next = store.dropDead lane (store.dead lane).entries ∅)
      (files : ∀ letters, ledger serde config store input letters =
        letters.filter fun letter => letter.lane ≠ lane)

section Stored

variable {store : Store} {id : Text}

theorem enqueue_lives (args : JobArgs) (live : (store.enqueue args).1.job id ≠ none) :
    store.job id ≠ none ∨ args.id.toText = id := by
  simp only [Store.enqueue] at live
  split at live
  · exact Or.inl live
  · split at live
    · exact Or.inl live
    · by_cases same : id = args.id.toText
      · exact Or.inr same.symm
      · left
        rwa [storeJob_other same] at live

theorem enqueue_dead (store : Store) (args : JobArgs) : (store.enqueue args).1.dead = store.dead ∧
      (store.enqueue args).1.deadJob = store.deadJob := by
  simp only [Store.enqueue]
  split
  · exact ⟨rfl, rfl⟩
  · split <;> exact ⟨rfl, rfl⟩

theorem enqueueBatch_lives (batch : List JobArgs)
    (live : (store.enqueueBatch batch).1.job id ≠ none) :
    store.job id ≠ none ∨ ∃ args ∈ batch, args.id.toText = id := by
  induction batch generalizing store with
  | nil => exact Or.inl live
  | cons args rest ih =>
    rcases ih live with before | ⟨other, member, same⟩
    · rcases enqueue_lives args before with old | own
      · exact Or.inl old
      · exact Or.inr ⟨args, mem_cons_self .., own⟩
    · exact Or.inr ⟨other, mem_cons_of_mem _ member, same⟩

theorem enqueueBatch_dead (store : Store) (batch : List JobArgs) :
    (store.enqueueBatch batch).1.dead = store.dead ∧
      (store.enqueueBatch batch).1.deadJob = store.deadJob := by
  induction batch generalizing store with
  | nil => exact ⟨rfl, rfl⟩
  | cons args rest ih =>
    obtain ⟨dead, deadJob⟩ := ih (store.enqueue args).1
    obtain ⟨first, second⟩ := enqueue_dead store args
    exact ⟨dead.trans first, deadJob.trans second⟩

theorem mapM_jobArgs_ids {now : Nat} {jobs : List NewJob} {batch : List JobArgs}
    (accepted : jobs.mapM (jobArgs serde now) = .ok batch) :
    ∀ args ∈ batch, ∃ job ∈ jobs, job.id = args.id := by
  induction jobs generalizing batch with
  | nil =>
    cases accepted
    exact fun _ member => absurd member not_mem_nil
  | cons job rest ih =>
    obtain ⟨args, others, head, tail, rfl⟩ := Lib.of_mapM_cons accepted
    intro other member
    rcases mem_cons.mp member with rfl | later
    · refine ⟨job, mem_cons_self .., ?_⟩
      obtain ⟨_, blob, _, rfl⟩ := jobArgs_ok head
      rfl
    · obtain ⟨owner, inside, same⟩ := ih tail other later
      exact ⟨owner, mem_cons_of_mem _ inside, same⟩

end Stored

theorem guarded_plain {input : Input} {receipt : ReservationReceipt} {now : Nat}
    {change : Text → JobHash → Store}
    (keeps : ∀ owner stored, store.job owner = some stored →
      (change owner stored).dead = store.dead ∧
      (change owner stored).deadJob = store.deadJob ∧
      ∀ id, (change owner stored).job id ≠ none → store.job id ≠ none)
    (files : ∀ letters, ledger serde config store input letters = letters) :
    DeadStep serde config store input (store.guarded receipt now change).1 := by
  unfold Store.guarded
  cases passed : store.guard receipt now with
  | none => exact .plain rfl rfl (fun _ live => Or.inl live) files
  | some pair =>
    obtain ⟨_, found, _⟩ := guard_eq_some passed
    obtain ⟨dead, deadJob, lives⟩ := keeps pair.1 pair.2 found
    exact .plain dead deadJob (fun id live => Or.inl (lives id live)) files

theorem perform_dead (store : Store) (input : Input) : DeadStep serde config store input
      (perform serde config store input).1 := by
  have unchanged : ∀ {next : Store}, next = store →
      (∀ letters, ledger serde config store input letters = letters) →
      DeadStep serde config store input next := by
    rintro next rfl files
    exact .plain rfl rfl (fun _ live => Or.inl live) files
  obtain ⟨now, mint, call⟩ := input
  cases call with
  | enqueue job =>
    simp only [perform, enqueue]
    cases accepted : jobArgs serde now job with
    | error failure => exact unchanged rfl fun _ => rfl
    | ok args =>
      obtain ⟨dead, deadJob⟩ := enqueue_dead store args
      refine .plain dead deadJob ?_ fun _ => rfl
      intro id live
      obtain ⟨_, blob, _, rfl⟩ := jobArgs_ok accepted
      exact (enqueue_lives _ live).imp_right fun own =>
        ⟨job, mem_singleton_self job, own⟩
  | enqueueBatch jobs =>
    simp only [perform, enqueueBatch]
    split
    · exact unchanged rfl fun _ => rfl
    · cases accepted : jobs.mapM (jobArgs serde now) with
      | error failure => exact unchanged rfl fun _ => rfl
      | ok batch =>
        obtain ⟨dead, deadJob⟩ := enqueueBatch_dead store batch
        refine .plain dead deadJob ?_ fun _ => rfl
        intro id live
        refine (enqueueBatch_lives _ live).imp_right ?_
        rintro ⟨args, member, own⟩
        obtain ⟨job, inside, same⟩ := mapM_jobArgs_ids accepted args member
        exact ⟨job, inside, same ▸ own⟩
  | reserve lane =>
    simp only [perform, reserve]
    cases safe : laneKeySegment lane with
    | error failure =>
      refine unchanged rfl fun _ => ?_
      simp only [ledger, deadLettered, safe]
      rfl
    | ok value =>
      refine .swept ?_ fun _ => rfl
      simp only [deadLettered, safe]
      exact reserveLevels_sweeps (reserveArgs config now mint lane) _ _ store
  | ack receipt =>
    refine guarded_plain (fun _ _ found => ⟨rfl, rfl, fun _ live => ?_⟩) fun _ => rfl
    exact live_of_update found live
  | retry receipt delay =>
    refine guarded_plain (fun _ _ found => ⟨rfl, rfl, fun _ live => ?_⟩) fun _ => rfl
    exact live_of_update found live
  | defer receipt delay =>
    refine guarded_plain (fun _ _ found => ⟨rfl, rfl, fun _ live => ?_⟩) fun _ => rfl
    exact live_of_update found live
  | fail receipt error =>
    refine .swept ?_ fun _ => rfl
    exact fail_sweeps store receipt (nanos now) error _
  | extend receipt =>
    refine guarded_plain (fun _ _ found => ⟨rfl, rfl, fun _ live => ?_⟩) fun _ => rfl
    exact live_of_update found live
  | requeue jobId =>
    have files : ∀ letters, ledger serde config store ⟨now, mint, .requeue jobId⟩ letters =
        if (store.requeue jobId (nanos now)).2 = 1 then
          letters.filter fun letter => letter.entry.id ≠ jobId
        else letters := fun _ => rfl
    simp only [perform, requeue]
    simp only [Store.requeue] at files ⊢
    cases found : store.deadJob jobId.toText with
    | none =>
      simp only [found] at files ⊢
      exact unchanged rfl files
    | some record =>
      simp only [found] at files ⊢
      by_cases present : (store.job jobId.toText).isSome
      · simp only [if_pos present] at files ⊢
        exact unchanged rfl files
      · by_cases held : (record.uniqueKey.bind store.unique).isSome
        · simp only [if_neg present, if_pos held] at files ⊢
          exact unchanged rfl files
        · simp only [if_neg present, if_neg held] at files ⊢
          refine .unburied found rfl rfl ?_ files
          intro id live
          by_cases same : id = jobId.toText
          · exact Or.inr same
          · left
            have live : (store.storeJob jobId.toText
                (record.revived (nanos now))).job id ≠ none := live
            rwa [storeJob_other same] at live
  | purgeDeadLetters lane =>
    simp only [perform, purgeDeadLetters]
    cases safe : laneKeySegment lane with
    | error failure =>
      refine unchanged rfl fun _ => ?_
      simp only [ledger, safe]
    | ok value =>
      refine @DeadStep.purged _ _ _ _ _ lane rfl fun _ => ?_
      simp only [ledger, safe]
  | enqueueScheduled scheduleId occurrence job =>
    simp only [perform, enqueueScheduled]
    cases laneKeySegment job.lane with
    | error failure => exact unchanged rfl fun _ => rfl
    | ok value =>
      cases checkedKeySegment scheduleId "schedule id" with
      | error failure => exact unchanged rfl fun _ => rfl
      | ok value =>
        cases accepted : jobArgs serde now job with
        | error failure => exact unchanged rfl fun _ => rfl
        | ok args =>
          simp only [Store.enqueueScheduled]
          split
          · exact unchanged rfl fun _ => rfl
          · obtain ⟨dead, deadJob⟩ := enqueue_dead
              { store with
                schedule := Function.update store.schedule scheduleId
                  (some (occurrenceText occurrence)) } args
            refine .plain dead deadJob ?_ fun _ => rfl
            intro id live
            obtain ⟨_, blob, _, rfl⟩ := jobArgs_ok accepted
            exact (enqueue_lives _ live).imp_right fun own =>
              ⟨job, mem_singleton_self job, own⟩
  | removeSchedule scheduleId =>
    simp only [perform, removeSchedule]
    cases checkedKeySegment scheduleId "schedule id" with
    | error failure => exact unchanged rfl fun _ => rfl
    | ok value =>
      exact .plain rfl rfl (fun _ live => Or.inl live) fun _ => rfl
  | _ => exact unchanged rfl fun _ => rfl

/-! ## Whole runs -/

/-- Whatever has an id of its own was enqueued. -/
def Known (inputs : List Input) (store : Store) : Prop :=
  ∀ id, store.job id ≠ none ∨ store.deadJob id ≠ none → ∃ job ∈ newJobs inputs, job.id.toText = id

section Steps

variable {store : Store} {letters : List Letter} {input : Input}

theorem exec_burials_live (store : Store) (script : Script) :
    ∀ burial ∈ (store.exec script).2, store.job burial.1 ≠ none := by
  cases script with
  | reserve args =>
    obtain ⟨_, _, sweep⟩ := @reserveLevels_sweep [] args
      (store.levels args.lane) maxDeadLetterSweep store
    exact sweep.live
  | fail receipt now error bounds =>
    exact (@fail_sweep [] store receipt now error bounds).live
  | _ => exact fun _ inside => absurd inside not_mem_nil

theorem Kept.interred_named (kept : Kept serde store letters) (input : Input) :
    (∃ log, Interred serde log (perform serde config store input).1) ∧
      Named serde (perform serde config store input).1 := by
  rcases @perform_runs serde config store input with
    same | ⟨script, accepted, _, same⟩
  · rw [same]
    exact ⟨kept.interred, kept.named⟩
  · rw [same]
    obtain ⟨log, interred⟩ := kept.interred
    obtain ⟨_, _, trail⟩ := exec_trail store script
    refine ⟨⟨_, trail.interred accepted.encoded (exec_burials_nodup _ _)
      (fun burial inside => kept.apart _ (exec_burials_live store script burial inside)) interred⟩,
      trail.named ?_ kept.named⟩
    intro args brought
    obtain ⟨_, job, own⟩ := accepted args brought
    obtain ⟨_, blob, encoded, rfl⟩ := jobArgs_ok own
    exact ⟨job.intoEnvelope, encoded, rfl⟩

theorem Kept.unbury (kept : Kept serde store letters) {next : Store}
    {jobId : JobId} {record : DeadHash}
    (found : store.deadJob jobId.toText = some record)
    (dead : next.dead = Function.update store.dead record.lane
      ((store.dead record.lane).zrem record.member))
    (deadJob : next.deadJob = Function.update store.deadJob jobId.toText none) :
    Shelved next (letters.filter fun letter => letter.entry.id ≠ jobId) := by
  obtain ⟨_, interred⟩ := kept.interred
  have own := (interred.lockstep.members found).2
  have named : ∀ letter ∈ letters, letter.entry.id = jobId ↔
      letter.record.member = record.member := by
    intro letter member
    obtain ⟨held, _, sameId⟩ := kept.shelved.records letter member
    constructor
    · rintro rfl
      cases held.symm.trans found
      rfl
    · intro same
      rw [same, own] at sameId
      exact toText_injective sameId.symm
  constructor
  · intro lane
    rw [dead]
    have commute : ofLane lane (letters.filter fun letter => letter.entry.id ≠ jobId) =
        (ofLane lane letters).filter fun letter =>
          letter.entry.id ≠ jobId := by
      simp only [ofLane, filter_filter, Bool.and_comm]
    rw [commute]
    by_cases same : lane = record.lane
    · subst same
      rw [Function.update_self]
      refine ((kept.shelved.entries record.lane).filter _).trans (.of_eq ?_)
      rw [filter_map]
      refine congrArg (List.map Letter.place) (filter_congr ?_)
      intro letter member
      have iff := named letter (mem_ofLane.mp member).1
      simp only [Function.comp, decide_eq_decide, ne_eq, iff]
      rfl
    · rw [Function.update_of_ne same]
      refine (kept.shelved.entries lane).trans (.of_eq ?_)
      refine congrArg (List.map Letter.place) (filter_eq_self.mpr ?_).symm
      intro letter member
      obtain ⟨inside, here⟩ := mem_ofLane.mp member
      refine decide_eq_true fun equal => same ?_
      obtain ⟨held, inLane, _⟩ := kept.shelved.records letter inside
      rw [Letter.id, equal] at held
      cases held.symm.trans found
      exact here.symm.trans inLane.symm
  · intro letter member
    obtain ⟨inside, different⟩ := mem_filter.mp member
    have different : letter.id ≠ jobId.toText := fun same =>
      of_decide_eq_true different (toText_injective same)
    rw [deadJob, Function.update_of_ne different]
    exact kept.shelved.records letter inside

theorem Kept.purge (kept : Kept serde store letters) (lane : Lane) :
    Shelved (store.dropDead lane (store.dead lane).entries ∅)
      (letters.filter fun letter => letter.lane ≠ lane) := by
  obtain ⟨_, interred⟩ := kept.interred
  constructor
  · intro other
    change (Function.update store.dead lane ∅ other).entries.Perm _
    by_cases same : other = lane
    · subst same
      rw [Function.update_self]
      have none : ofLane other (letters.filter fun letter => letter.lane ≠ other) = [] := by
        simp [ofLane, filter_filter]
      rw [none]
      exact .refl _
    · rw [Function.update_of_ne same]
      refine (kept.shelved.entries other).trans (.of_eq (congrArg (List.map Letter.place) ?_))
      simp only [ofLane, filter_filter]
      apply filter_congr
      intro letter _
      by_cases here : letter.lane = other
      · simp [here, same]
      · simp [here]
  · intro letter member
    obtain ⟨inside, different⟩ := mem_filter.mp member
    obtain ⟨found, inLane, own⟩ := kept.shelved.records letter inside
    refine ⟨?_, inLane, own⟩
    refine (interred.lockstep.del_eq (fun _ inside => inside) found).trans (if_neg ?_)
    rintro ⟨same, _⟩
    exact of_decide_eq_true different (inLane.symm.trans same)

theorem Kept.step (kept : Kept serde store letters) {past : List Input} (known : Known past store)
    (unused : ((newJobs (past ++ [input])).map NewJob.id).Nodup)
    (faithful : FaithfulAll serde config.retention input.now letters
      (deadLettered config store input)) :
    Kept serde (perform serde config store input).1 (ledger serde config store input letters) := by
  obtain ⟨interred, named⟩ := @Kept.interred_named serde config _ _ kept input
  cases @perform_dead serde config store input with
  | plain dead deadJob lives files =>
    rw [files]
    refine ⟨interred, named, ?_, kept.shelved.congr dead deadJob⟩
    intro id live
    rw [deadJob]
    rcases lives id live with before | ⟨job, brought, own⟩
    · exact kept.apart id before
    · by_contra present
      obtain ⟨old, listed, same⟩ := known id (Or.inr present)
      rw [newJobs_concat, map_append] at unused
      refine (nodup_append.mp unused).2.2 old.id
        (mem_map_of_mem listed) job.id (mem_map_of_mem brought) ?_
      exact toText_injective (same.trans own.symm)
  | swept sweeps files =>
    rw [files]
    obtain ⟨middle, moves, dead, deadJob, shrinks⟩ := sweeps.moved
    have moved := kept.moves moves faithful
    refine ⟨interred, named, ?_, moved.shelved.congr dead deadJob⟩
    intro id live
    rw [deadJob]
    exact moved.apart id fun absent => live (shrinks id absent)
  | @unburied jobId record found dead deadJob lives files =>
    rw [files]
    refine ⟨interred, named, ?_, kept.unbury found dead deadJob⟩
    intro id live
    rw [deadJob]
    by_cases same : id = jobId.toText
    · rw [same, Function.update_self]
    · rw [Function.update_of_ne same]
      exact kept.apart id ((lives id live).resolve_right same)
  | purged same files =>
    rw [same] at interred named
    rw [files, same]
    refine ⟨interred, named, ?_, kept.purge _⟩
    intro id live
    change del store.deadJob _ id = none
    unfold del
    rw [kept.apart id live, ite_self]

theorem Known.step {past : List Input} (known : Known past store) :
    Known (past ++ [input]) (perform serde config store input).1 := by
  have old : ∀ id, store.job id ≠ none ∨ store.deadJob id ≠ none →
      ∃ job ∈ newJobs (past ++ [input]), job.id.toText = id := by
    intro id present
    obtain ⟨job, listed, same⟩ := known id present
    rw [newJobs_concat]
    exact ⟨job, mem_append_left _ listed, same⟩
  intro id present
  cases @perform_dead serde config store input with
  | plain dead deadJob lives files =>
    rcases present with live | buried
    · rcases lives id live with before | ⟨job, brought, same⟩
      · exact old id (Or.inl before)
      · rw [newJobs_concat]
        exact ⟨job, mem_append_right _ brought, same⟩
    · exact old id (Or.inr (deadJob ▸ buried))
  | swept sweeps files =>
    obtain ⟨middle, moves, dead, deadJob, shrinks⟩ := sweeps.moved
    refine old id (moves.known ?_)
    rcases present with live | buried
    · exact Or.inl fun absent => live (shrinks id absent)
    · exact Or.inr (deadJob ▸ buried)
  | @unburied jobId record found dead deadJob lives files =>
    rcases present with live | buried
    · rcases lives id live with before | rfl
      · exact old id (Or.inl before)
      · exact old _ (Or.inr (found ▸ Option.some_ne_none record))
    · refine old id (Or.inr ?_)
      rw [deadJob] at buried
      by_cases same : id = jobId.toText
      · rw [same, Function.update_self] at buried
        exact absurd rfl buried
      · rwa [Function.update_of_ne same] at buried
  | purged same files =>
    rw [same] at present
    rcases present with live | buried
    · exact old id (Or.inl live)
    · refine old id (Or.inr fun absent => buried ?_)
      change del store.deadJob _ id = none
      unfold del
      rw [absent, ite_self]

end Steps

/-- No id is enqueued twice, and every dead-lettering is faithful. -/
structure Orderly (serde : SerdeJson) (config : Config) (inputs : List Input) : Prop where
  unused : ((newJobs inputs).map NewJob.id).Nodup
  faithful : FaithfulRun serde config inputs

theorem orderly_past (serde : SerdeJson) (config : Config) :
    Lib.Machine.PrefixClosed (Orderly serde config) := by
  intro past input orderly
  constructor
  · have unused := orderly.unused
    rw [newJobs_concat, map_append] at unused
    exact (nodup_append.mp unused).1
  · intro step member
    refine orderly.faithful step ?_
    rw [Lib.Machine.steps_concat]
    exact mem_append_left _ member

theorem kept_empty (serde : SerdeJson) : Kept serde Store.empty [] where
  interred := ⟨[], interred_empty serde⟩
  named := ⟨fun _ _ found => (nomatch found), fun _ _ found => (nomatch found)⟩
  apart := fun _ _ => rfl
  shelved := ⟨fun _ => .refl _, fun _ member => (nomatch member)⟩

theorem run_kept (inputs : List Input) (orderly : Orderly serde config inputs) :
    Kept serde ((audited serde config).run inputs).1 ((audited serde config).run inputs).2 ∧
      Known inputs ((audited serde config).run inputs).1 := by
  refine @Lib.Machine.run_invariant _ _ _ (audited serde config) (Orderly serde config)
    (fun past state => Kept serde state.1 state.2 ∧ Known past state.1)
    (orderly_past serde config)
    ⟨kept_empty serde, fun _ present => ?_⟩ ?_ inputs orderly
  · rcases present with live | buried
    · exact absurd rfl live
    · exact absurd rfl buried
  · rintro past input orderly ⟨kept, known⟩
    have faithful := orderly.faithful ((audited serde config).run past, input) (by
        rw [Lib.Machine.steps_concat]
        exact mem_append_right _ (mem_singleton_self _))
    exact ⟨kept.step known orderly.unused faithful, known.step⟩

/-- The records Redis retains for the lane are those of the letters.  They are
listed in the order of the letters too, if each was filed behind those before
it. -/
structure RetainsAlike (store : Store) (letters : List Letter) (lane : Lane) : Prop where
  listed : ((store.dead lane).entries.map fun entry => fifoId entry.member).Perm
    ((ofLane lane letters).map Letter.id)
  ordered : (ofLane lane letters).Pairwise (fun first second => first.place.Before second.place) →
    (store.dead lane).entries.map (fun entry => fifoId entry.member) =
      (ofLane lane letters).map Letter.id
  records : ∀ id record, (store.deadJob id = some record ∧ record.lane = lane) ↔
      ∃ letter ∈ ofLane lane letters, letter.id = id ∧ letter.record = record

theorem Kept.retainsAlike {letters : List Letter} (kept : Kept serde store letters) (lane : Lane) :
    RetainsAlike store letters lane := by
  obtain ⟨_, interred⟩ := kept.interred
  have places : ((ofLane lane letters).map Letter.place).map (fun entry => fifoId entry.member) =
      (ofLane lane letters).map Letter.id := by
    rw [map_map]
    apply map_congr_left
    intro letter member
    exact (kept.shelved.records letter (mem_ofLane.mp member).1).2.2
  refine ⟨?_, ?_, ?_⟩
  · rw [← places]
    exact (kept.shelved.entries lane).map _
  · intro inOrder
    have same : (store.dead lane).entries = (ofLane lane letters).map Letter.place := by
      refine List.Perm.eq_of_pairwise ?_ (store.dead lane).sorted (pairwise_map.mpr inOrder)
        (kept.shelved.entries lane)
      intro first second _ _ before after
      exact absurd (before.trans after) (Lib.ZEntry.Before.irrefl _)
    rw [same, places]
  · intro id record
    constructor
    · rintro ⟨found, rfl⟩
      obtain ⟨listed, own⟩ := interred.lockstep.members found
      obtain ⟨letter, inside, same⟩ :=
        mem_map.mp ((kept.shelved.entries record.lane).subset listed)
      obtain ⟨held, _, sameId⟩ := kept.shelved.records letter (mem_ofLane.mp inside).1
      have member : letter.record.member = record.member := congrArg Lib.ZEntry.member same
      rw [member, own] at sameId
      rw [← sameId, found] at held
      exact ⟨letter, inside, sameId.symm, (Option.some.inj held).symm⟩
    · rintro ⟨letter, inside, rfl, rfl⟩
      obtain ⟨member, here⟩ := mem_ofLane.mp inside
      obtain ⟨held, inLane, _⟩ := kept.shelved.records letter member
      exact ⟨held, inLane.trans here⟩

/-- In a run whose dead-letterings are all faithful and whose job ids are not
reused, Redis retains for every lane what the in-memory broker retains. -/
theorem retention_agrees (serde : SerdeJson) (config : Config) (inputs : List Input)
    (unused : ((newJobs inputs).map NewJob.id).Nodup)
    (faithful : FaithfulRun serde config inputs) (lane : Lane) :
    RetainsAlike ((machine serde config).run inputs)
      ((audited serde config).run inputs).2 lane := by
  rw [← audited_store]
  exact (run_kept inputs ⟨unused, faithful⟩).1.retainsAlike lane

section Cases

def firstLetter : NewJob :=
  ⟨⟨⟨1⟩⟩, ⟨"mail"⟩, "send", [], 3, 0, none, 0, none⟩

def secondLetter : NewJob :=
  ⟨⟨⟨2⟩⟩, ⟨"mail"⟩, "send", [], 3, 0, none, 0, none⟩

/-- Two jobs that fail, each with the receipt and at the time given. -/
def failures (first second : BitVec 128 × Nat) : List Input :=
  [⟨1, ⟨⟨0⟩⟩, .enqueue firstLetter⟩, ⟨2, ⟨⟨0⟩⟩, .enqueue secondLetter⟩,
    ⟨3, ⟨⟨7⟩⟩, .reserve ⟨"mail"⟩⟩, ⟨3, ⟨⟨8⟩⟩, .reserve ⟨"mail"⟩⟩,
    ⟨first.2, ⟨⟨0⟩⟩, .fail ⟨⟨first.1⟩⟩ "one"⟩,
    ⟨second.2, ⟨⟨0⟩⟩, .fail ⟨⟨second.1⟩⟩ "two"⟩,
    ⟨second.2, ⟨⟨0⟩⟩, .countDeadLetters ⟨"mail"⟩⟩]

theorem retention_agrees_two_failures : let config : Config := ⟨2 ^ 62, ⟨some 100, some 1⟩, none⟩
    let inputs := failures (7, 10) (8, 20)
    FaithfulRun Json.serde config inputs ∧ RetainsAlike ((machine Json.serde config).run inputs)
        ((audited Json.serde config).run inputs).2 ⟨"mail"⟩ := by
  intro config inputs
  have faithful : FaithfulRun Json.serde config inputs := by decide +kernel
  exact ⟨faithful, retention_agrees Json.serde config inputs (by decide +kernel) faithful ⟨"mail"⟩⟩

/-- With a count bound of zero Redis keeps every record, the in-memory broker
none. -/
theorem zero_count_retains_all : let config : Config := ⟨2 ^ 62, ⟨none, some 0⟩, none⟩
    let inputs := failures (7, 10) (8, 20)
    (machine Json.serde config).replies inputs =
        (Memory.machine config).replies (inputs.take 6) ++ [.ok (.count 2)] ∧
      (Memory.machine config).replies inputs = (Memory.machine config).replies (inputs.take 6) ++
          [.ok (.count 0)] := by
  decide +kernel

-- Two failures at one reading: Redis drops the job enqueued first, the
-- in-memory broker the one that failed first.
example : let config : Config := ⟨2 ^ 62, ⟨none, some 1⟩, none⟩
    let inputs := failures (8, 10) (7, 10)
    (((machine Json.serde config).run inputs).dead ⟨"mail"⟩).entries.map
        (fun entry => fifoId entry.member) = [secondLetter.id.toText] ∧
      ((Memory.machine config).run inputs).dead.map Memory.DeadEntry.id = [firstLetter.id] := by
  decide +kernel

-- The cutoff is written with fourteen digits, and the first record is not
-- older than what is read back.
example : let config : Config := ⟨2 ^ 62, ⟨some 500, none⟩, none⟩
    let inputs := failures (7, 1700000000000000000) (8, 1700000000000001000)
    (((machine Json.serde config).run inputs).dead ⟨"mail"⟩).zcard = 2 ∧
      ((Memory.machine config).run inputs).dead.length = 1 := by
  decide +kernel

end Cases

end Worklane.Redis
