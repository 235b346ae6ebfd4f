import Worklane.Redis.Fates

/-!
# Unique keys on Redis

A key is any text, except that the broker sends the empty one where there is
no key.  Every other key is carried by at most one live job, from the enqueue
that stores the job until the job is acked or dead-lettered.  An enqueue under
the key is answered with that job, unless its own id is the id of another live
job: the scripts look the id up first.
-/

namespace Worklane.Redis

variable {serde : SerdeJson} {config : Config} {store : Store}
variable {key : String} {now : Nat} {job : NewJob}

/-- The live job of this id carries the key. -/
def Carries (store : Store) (key : String) (id : JobId) : Prop :=
  store.keyOf id.toText = some key

/-- The id is live, and another live job carries the key. -/
def KeyContested (store : Store) (key : String) (id : JobId) : Prop :=
  (store.job id.toText).isSome ∧ ∃ other, other ≠ id ∧ Carries store key other

/-- What becomes of a job that is to be stored under the key, the id that is
answered, and the store afterwards.  While a job carries the key that job is
answered; otherwise a live id is, and a new job is stored. -/
inductive Arbitrated (key : String) (store : Store) (job : NewJob) : JobId → Store → Prop
  | held {id : JobId} (carries : Carries store key id) : Arbitrated key store job id store
  | present (live : (store.job job.id.toText).isSome)
      (free : ∀ id, ¬ Carries store key id) : Arbitrated key store job job.id store
  | stored {next : Store} (absent : store.job job.id.toText = none)
      (free : ∀ id, ¬ Carries store key id)
      (carries : Carries next key job.id)
      (others : ∀ id, id ≠ job.id.toText → next.job id = store.job id) :
      Arbitrated key store job job.id next

/-- The jobs of a batch are enqueued one after the other, each in the store
the earlier ones left. -/
inductive ArbitratedEach (serde : SerdeJson) (key : String) (now : Nat) :
    Store → List NewJob → List JobId → Store → Prop
  | nil (store : Store) : ArbitratedEach serde key now store [] [] store
  | cons {store middle final : Store} {job : NewJob} {jobs : List NewJob}
      {id : JobId} {ids : List JobId}
      (first : enqueue serde store now job = (middle, .ok (.jobId id)))
      (own : job.uniqueKey = some key →
        (Arbitrated key store job id middle ↔ ¬ KeyContested store key job.id))
      (rest : ArbitratedEach serde key now middle jobs ids final) :
      ArbitratedEach serde key now store (job :: jobs) (id :: ids) final

/-- The key works as a unique key in this store. -/
structure KeyHonoured (serde : SerdeJson) (config : Config) (key : String)
    (store : Store) : Prop where
  alone : ∀ id other, Carries store key id → Carries store key other → id = other
  single : ∀ now job next id, job.uniqueKey = some key →
    enqueue serde store now job = (next, .ok (.jobId id)) →
    (Arbitrated key store job id next ↔ ¬ KeyContested store key job.id)
  batch : ∀ now jobs next ids, enqueueBatch serde store now jobs = (next, .ok (.jobIds ids)) →
    ArbitratedEach serde key now store jobs ids next
  scheduled : ∀ now scheduleId occurrence job next won, job.uniqueKey = some key →
    enqueueScheduled serde store now scheduleId occurrence job = (next, .ok (.claimed won)) →
    if won then
      ∃ id, Arbitrated key { store with schedule := next.schedule } job id next
    else
      next = store
  refused : ∀ input failure, input.call.newJobs ≠ [] →
    (perform serde config store input).2 = .error failure →
    (perform serde config store input).1 = store
  freed : ∀ input id, Carries store key id → (Ends config store input id.toText ∧
      ∀ other, ¬ Carries (perform serde config store input).1 key other) ∨
    (¬ Ends config store input id.toText ∧ Carries (perform serde config store input).1 key id)

/-! ## One job -/

theorem jobArgs_key {args : JobArgs} (accepted : jobArgs serde now job = .ok args)
    (keyed : job.uniqueKey = some key) (filled : key ≠ "") :
    args.key = some key := by
  obtain ⟨_, blob, _, rfl⟩ := jobArgs_ok accepted
  simp only [JobArgs.key, keyed, Option.getD_some, if_neg filled]

theorem jobArgs_id {args : JobArgs}
    (accepted : jobArgs serde now job = .ok args) : args.id = job.id := by
  obtain ⟨_, blob, _, rfl⟩ := jobArgs_ok accepted
  rfl

theorem jobArgs_storedId {args : JobArgs} (accepted : jobArgs serde now job = .ok args) :
    storedId serde (some args.env) = .ok job.id := by
  obtain ⟨_, blob, encoded, rfl⟩ := jobArgs_ok accepted
  rw [storedId, decode_of_encode encoded]
  rfl

section Stored

variable {args : JobArgs}

theorem Named.storedId_owner (named : Named serde store) (indexed : Indexed store) {owner : Text}
    (owned : store.unique key = some owner) :
    ∃ id, owner = JobId.toText id ∧ Carries store key id ∧
      storedId serde (store.envelopeOf owner) = .ok id := by
  have carries := (indexed.keys key owner).mp owned
  obtain ⟨envelope, hash, rfl, found, _⟩ := named.owner_id indexed owned
  refine ⟨envelope.id, rfl, carries, named.storedId_eq ?_⟩
  rw [found]
  rfl

theorem enqueue_answers (indexed : Indexed store) (named : Named serde store)
    (accepted : jobArgs serde now job = .ok args) :
    ∃ id, storedId serde (store.enqueue args).2 = .ok id := by
  simp only [Store.enqueue]
  by_cases live : (store.job args.id.toText).isSome
  · rw [if_pos live]
    exact ⟨args.id, named.storedId_eq live⟩
  · rw [if_neg live]
    cases holder : args.key.bind store.unique with
    | none => exact ⟨job.id, jobArgs_storedId accepted⟩
    | some owner =>
      obtain ⟨name, _, owned⟩ := Option.bind_eq_some_iff.mp holder
      obtain ⟨id, _, _, answered⟩ := named.storedId_owner indexed owned
      exact ⟨id, answered⟩

theorem Indexed.carries_alone (indexed : Indexed store) {id other : JobId}
    (first : Carries store key id) (second : Carries store key other) :
    id = other :=
  toText_injective (indexed.keys.owner_eq first second)

/-- A live id is the answer that is asked for unless it is contested. -/
theorem arbitrated_live_iff (indexed : Indexed store) (live : (store.job job.id.toText).isSome) :
    Arbitrated key store job job.id store ↔ ¬ KeyContested store key job.id := by
  constructor
  · rintro arbitrated ⟨_, other, different, carried⟩
    cases arbitrated with
    | held carries => exact different (indexed.carries_alone carried carries)
    | present _ free => exact free other carried
    | stored absent free => exact free other carried
  · intro uncontested
    by_cases held : ∃ other, Carries store key other
    · obtain ⟨other, carries⟩ := held
      by_cases same : other = job.id
      · subst same
        exact .held carries
      · exact absurd ⟨live, other, same, carries⟩ uncontested
    · exact .present live (not_exists.mp held)

theorem enqueue_arbitrated (indexed : Indexed store) (named : Named serde store)
    (accepted : jobArgs serde now job = .ok args)
    (keyed : args.key = some key) {id : JobId}
    (answered : storedId serde (store.enqueue args).2 = .ok id) :
    Arbitrated key store job id (store.enqueue args).1 ↔ ¬ KeyContested store key job.id := by
  have own := jobArgs_id accepted
  simp only [Store.enqueue, own, keyed, Option.bind_some] at answered ⊢
  by_cases live : (store.job job.id.toText).isSome
  · rw [if_pos live] at answered ⊢
    cases (named.storedId_eq live).symm.trans answered
    exact arbitrated_live_iff indexed live
  · rw [if_neg live] at answered ⊢
    have absent := Option.not_isSome_iff_eq_none.mp live
    refine iff_of_true ?_ fun contested => live contested.1
    cases holder : store.unique key with
    | some owner =>
      rw [holder] at answered
      obtain ⟨other, rfl, carries, same⟩ := named.storedId_owner indexed holder
      cases same.symm.trans answered
      exact .held carries
    | none =>
      rw [holder] at answered
      cases (jobArgs_storedId accepted).symm.trans answered
      refine .stored absent ?_ ?_ ?_
      · intro other carries
        rw [(indexed.keys key _).mpr carries] at holder
        cases holder
      · have written : (store.storeJob job.id.toText args.hash).job
            job.id.toText = some { args.hash with
              seq := Lib.toDouble (store.seq + 1) } :=
          Function.update_self ..
        rw [Carries, Store.keyOf, written]
        exact keyed
      · exact fun other different => storeJob_other different

/-- Contested or not, nothing is stored while a job carries the key. -/
theorem enqueue_arbitrated_some (indexed : Indexed store) (named : Named serde store)
    (accepted : jobArgs serde now job = .ok args) (keyed : args.key = some key) :
    ∃ id, Arbitrated key store job id (store.enqueue args).1 := by
  by_cases contested : KeyContested store key job.id
  · obtain ⟨live, other, _, carries⟩ := contested
    rw [← jobArgs_id accepted] at live
    rw [Store.enqueue, if_pos live]
    exact ⟨other, .held carries⟩
  · obtain ⟨id, own⟩ := enqueue_answers indexed named accepted
    exact ⟨id, (enqueue_arbitrated indexed named accepted keyed own).mpr contested⟩

theorem enqueue_schedule (store : Store) (args : JobArgs) :
    (store.enqueue args).1.schedule = store.schedule := by
  simp only [Store.enqueue]
  split
  · rfl
  · split <;> rfl

theorem Indexed.enqueue (indexed : Indexed store) (args : JobArgs) :
    Indexed (store.enqueue args).1 :=
  (enqueue_trail store (List.mem_singleton_self args)).indexed indexed
    List.nodup_nil fun _ minted => absurd minted List.not_mem_nil

theorem Named.enqueue (named : Named serde store) (accepted : jobArgs serde now job = .ok args) :
    Named serde (store.enqueue args).1 := by
  refine (enqueue_trail store (List.mem_singleton_self args)).named ?_ named
  intro other brought
  rw [List.mem_singleton.mp brought]
  obtain ⟨_, blob, encoded, rfl⟩ := jobArgs_ok accepted
  exact ⟨job.intoEnvelope, encoded, rfl⟩

end Stored

/-! ## Batches and schedules -/

theorem enqueueBatch_arbitrated (filled : key ≠ "") {jobs : List NewJob}
    {batch : List JobArgs} {ids : List JobId} (indexed : Indexed store)
    (named : Named serde store)
    (accepted : jobs.mapM (jobArgs serde now) = .ok batch)
    (answered : (store.enqueueBatch batch).2.mapM (storedId serde) = .ok ids) :
    ArbitratedEach serde key now store jobs ids (store.enqueueBatch batch).1 := by
  induction jobs generalizing store batch ids with
  | nil =>
    cases accepted
    cases answered
    exact .nil store
  | cons job rest ih =>
    obtain ⟨args, others, head, tail, rfl⟩ := Lib.of_mapM_cons accepted
    rw [Store.enqueueBatch] at answered
    obtain ⟨id, remaining, own, later, rfl⟩ := Lib.of_mapM_cons answered
    have rest := ih (indexed.enqueue args) (named.enqueue head) tail later
    refine .cons ?_ ?_ rest
    · simp only [enqueue, head, own]
      rfl
    · intro keyed
      exact enqueue_arbitrated indexed named head (jobArgs_key head keyed filled) own

theorem enqueueBatch_answers {jobs : List NewJob} {batch : List JobArgs}
    (indexed : Indexed store) (named : Named serde store)
    (accepted : jobs.mapM (jobArgs serde now) = .ok batch) :
    ∃ ids, (store.enqueueBatch batch).2.mapM (storedId serde) =
      .ok ids := by
  induction jobs generalizing store batch with
  | nil =>
    cases accepted
    exact ⟨[], rfl⟩
  | cons job rest ih =>
    obtain ⟨args, others, head, tail, rfl⟩ := Lib.of_mapM_cons accepted
    obtain ⟨id, own⟩ := enqueue_answers indexed named head
    obtain ⟨ids, later⟩ := ih (indexed.enqueue args) (named.enqueue head) tail
    refine ⟨id :: ids, ?_⟩
    simp only [Store.enqueueBatch, List.mapM_cons, own, later]
    rfl

theorem enqueueScheduled_arbitrated (filled : key ≠ "")
    (indexed : Indexed store) (named : Named serde store)
    {scheduleId : String} {occurrence : Int64} {next : Store} {won : Bool}
    (keyed : job.uniqueKey = some key)
    (ran : enqueueScheduled serde store now scheduleId occurrence job =
      (next, .ok (.claimed won))) :
    if won then
      ∃ id, Arbitrated key { store with schedule := next.schedule } job id next
    else
      next = store := by
  unfold enqueueScheduled at ran
  split at ran
  · cases ran
  · split at ran
    · cases ran
    · split at ran
      · cases ran
      · next args accepted =>
        simp only [Store.enqueueScheduled] at ran
        split at ran
        · cases ran
          rfl
        · cases ran
          simp only [decide_true, if_true]
          let claimed : Store :=
            { store with
              schedule := Function.update store.schedule scheduleId
                (some (occurrenceText occurrence)) }
          have claimedIndexed : Indexed claimed := indexed.frame rfl rfl rfl rfl rfl
          have claimedNamed : Named serde claimed := ⟨named.jobs, named.dead⟩
          have unchanged : (claimed.enqueue args).1.schedule =
              claimed.schedule := enqueue_schedule claimed args
          rw [unchanged]
          exact enqueue_arbitrated_some claimedIndexed claimedNamed accepted
            (jobArgs_key accepted keyed filled)

theorem enqueue_refused (indexed : Indexed store) (named : Named serde store)
    {input : Input} {failure : Error} (brings : input.call.newJobs ≠ [])
    (refused : (perform serde config store input).2 = .error failure) :
    (perform serde config store input).1 = store := by
  obtain ⟨now, mint, call⟩ := input
  cases call with
  | enqueue job =>
    simp only [perform, enqueue] at refused ⊢
    cases accepted : jobArgs serde now job with
    | error failure => rfl
    | ok args =>
      obtain ⟨id, own⟩ := enqueue_answers indexed named accepted
      simp only [accepted, own] at refused
      cases refused
  | enqueueBatch jobs =>
    simp only [perform, enqueueBatch] at refused ⊢
    split
    · rfl
    · next filled =>
      rw [if_neg filled] at refused
      cases accepted : jobs.mapM (jobArgs serde now) with
      | error failure => rfl
      | ok batch =>
        obtain ⟨ids, own⟩ := enqueueBatch_answers indexed named accepted
        simp only [accepted, own] at refused
        cases refused
  | enqueueScheduled scheduleId occurrence job =>
    simp only [perform, enqueueScheduled] at refused ⊢
    cases safe : laneKeySegment job.lane with
    | error failure => rfl
    | ok value =>
      cases checked : checkedKeySegment scheduleId "schedule id" with
      | error failure => rfl
      | ok value =>
        cases accepted : jobArgs serde now job with
        | error failure => rfl
        | ok args =>
          simp only [safe, checked, accepted] at refused
          cases refused
  | _ => exact absurd rfl brings

/-! ## The key over whole runs -/

theorem Indexed.carries_freed (indexed : Indexed store) (input : Input)
    {id : JobId} (carries : Carries store key id) :
    (Ends config store input id.toText ∧
      ∀ other, ¬ Carries (perform serde config store input).1 key other) ∨
    (¬ Ends config store input id.toText ∧
      Carries (perform serde config store input).1 key id) := by
  obtain ⟨hash, live, own⟩ := Option.bind_eq_some_iff.mp carries
  by_cases ends : Ends config store input id.toText
  · refine Or.inl ⟨ends, ?_⟩
    intro other still
    obtain ⟨kept, found, keyed⟩ := Option.bind_eq_some_iff.mp still
    obtain ⟨before, was, same⟩ := ends.remains found
    have carried : Carries store key other := by
      rw [Carries, Store.keyOf, was]
      exact same.symm.trans keyed
    have sameId := indexed.carries_alone carried carries
    subst sameId
    cases (ends.gone indexed).symm.trans found
  · refine Or.inr ⟨ends, ?_⟩
    obtain ⟨kept, found, same, _⟩ :=
      (@perform_fate serde config store input _ hash live).resolve_left ends
    rw [Carries, Store.keyOf, found]
    exact same.trans own

theorem keyHonoured_of_filled (filled : key ≠ "") (indexed : Indexed store)
    (named : Named serde store) : KeyHonoured serde config key store where
  alone := fun _ _ first second => indexed.carries_alone first second
  single := by
    intro now job next id keyed ran
    unfold enqueue at ran
    cases accepted : jobArgs serde now job with
    | error failure =>
      rw [accepted] at ran
      cases ran
    | ok args =>
      rw [accepted] at ran
      obtain ⟨other, own⟩ := enqueue_answers indexed named accepted
      simp only [own] at ran
      cases ran
      exact enqueue_arbitrated indexed named accepted (jobArgs_key accepted keyed filled) own
  batch := by
    intro now jobs next ids ran
    unfold enqueueBatch at ran
    split at ran
    · next empty =>
      cases ran
      rw [List.isEmpty_iff.mp empty]
      exact .nil store
    · cases accepted : jobs.mapM (jobArgs serde now) with
      | error failure =>
        rw [accepted] at ran
        cases ran
      | ok batch =>
        rw [accepted] at ran
        obtain ⟨others, own⟩ := enqueueBatch_answers indexed named accepted
        simp only [own] at ran
        cases ran
        exact enqueueBatch_arbitrated filled indexed named accepted own
  scheduled := by
    intro now scheduleId occurrence job next won keyed ran
    exact enqueueScheduled_arbitrated filled indexed named keyed ran
  refused := fun _ _ brings refused =>
    enqueue_refused indexed named brings refused
  freed := fun input _ carries => indexed.carries_freed input carries

/-- Unique keys are opaque to Redis exactly when they are not empty, for every
enqueue that is not contested. -/
theorem unique_key_honoured_iff (key : String) :
    (∀ (serde : SerdeJson) (config : Config) (inputs : List Input), FreshMints inputs →
        KeyHonoured serde config key ((machine serde config).run inputs)) ↔
      key ≠ "" := by
  constructor
  · rintro honoured rfl
    let job : NewJob := ⟨⟨⟨1⟩⟩, ⟨"mail"⟩, "send", [], 3, 0, some "", 0, none⟩
    let config : Config := ⟨30, ⟨none, none⟩, none⟩
    have start := honoured Json.serde config [] List.nodup_nil
    have answered : (enqueue Json.serde Store.empty 1 job).2 =
        .ok (.jobId job.id) := by decide +kernel
    have uncarried : (enqueue Json.serde Store.empty 1 job).1.keyOf
        job.id.toText = none := by decide +kernel
    rcases ran : enqueue Json.serde Store.empty 1 job with ⟨next, reply⟩
    rw [ran] at answered uncarried
    cases answered
    cases (start.single 1 job next job.id rfl ran).mpr (fun contested => by cases contested.1) with
    | present live => cases live
    | held carries => cases carries
    | stored absent free carries others =>
      cases uncarried.symm.trans carries
  · intro filled serde config inputs fresh
    obtain ⟨indexed, named⟩ := run_indexed_named serde config inputs fresh
    exact keyHonoured_of_filled filled indexed named

/-- Keys of separators and wildcards are keys like any other. -/
theorem unique_key_honoured_wildcards : let job : NewJob :=
      ⟨⟨⟨1⟩⟩, ⟨"mail"⟩, "send", [], 3, 0, some ":*?[]", 0, none⟩
    let config : Config := ⟨30, ⟨none, none⟩, none⟩
    let inputs : List Input := [⟨1, ⟨⟨0⟩⟩, .enqueue job⟩]
    Carries ((machine Json.serde config).run inputs) ":*?[]" ⟨⟨1⟩⟩ ∧
      KeyHonoured Json.serde config ":*?[]" ((machine Json.serde config).run inputs) := by
  intro job config inputs
  refine ⟨?_, (unique_key_honoured_iff ":*?[]").mpr (by decide) Json.serde
    config inputs (by decide)⟩
  unfold Carries
  decide +kernel

/-- Two jobs enqueued under the empty key are both stored; and a contested
enqueue is answered with its own id. -/
theorem keys_not_honoured : let config : Config := ⟨30, ⟨none, none⟩, none⟩
    let job (bits : BitVec 128) (key : Option String) : NewJob :=
      ⟨⟨⟨bits⟩⟩, ⟨"mail"⟩, "send", [], 3, 0, key, 0, none⟩
    let empty : List Input := [⟨1, ⟨⟨0⟩⟩, .enqueue (job 1 (some ""))⟩,
      ⟨2, ⟨⟨0⟩⟩, .enqueue (job 2 (some ""))⟩, ⟨3, ⟨⟨0⟩⟩, .pendingCount ⟨"mail"⟩⟩]
    let contested : List Input := [⟨1, ⟨⟨0⟩⟩, .enqueue (job 1 none)⟩,
      ⟨2, ⟨⟨0⟩⟩, .enqueue (job 2 (some "key"))⟩, ⟨3, ⟨⟨0⟩⟩, .enqueue (job 1 (some "key"))⟩]
    (machine Json.serde config).replies empty =
        [.ok (.jobId ⟨⟨1⟩⟩), .ok (.jobId ⟨⟨2⟩⟩), .ok (.count 2)] ∧
      ((machine Json.serde config).run empty).unique "" = none ∧
      (machine Json.serde config).replies contested =
        [.ok (.jobId ⟨⟨1⟩⟩), .ok (.jobId ⟨⟨2⟩⟩), .ok (.jobId ⟨⟨1⟩⟩)] ∧
      ((machine Json.serde config).run contested).keyOf (JobId.toText ⟨⟨2⟩⟩) = some "key" := by
  decide +kernel

end Worklane.Redis
