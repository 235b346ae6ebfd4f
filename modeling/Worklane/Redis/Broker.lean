import Worklane.Redis.Scripts

/-!
# `RedisBroker`

The broker of `worklane-redis`: the key checks, the arguments of each script
and the reading of its answer.  One call reads the clock once and runs at most
one script.
-/

namespace Worklane.Redis

open List

/-- The characters of `LANE_KEY_UNSAFE`. -/
def keyUnsafe (char : Char) : Bool :=
  char = ':' || char = '*' || char = '?' || char = '[' || char = ']'

/-- `key_unsafe_err`. -/
def keyUnsafeErr (what value : String) (char : Char) : Error :=
  .broker s!"{what} {strDebug value} contains '{char}', unsafe in a redis key; avoid ':' and the glob characters '*', '?', '[', ']' on the redis broker"

/-- `checked_key_segment`. -/
def checkedKeySegment (value what : String) : Except Error Unit :=
  match value.toList.find? keyUnsafe with
  | some char => .error (keyUnsafeErr what value char)
  | none => .ok ()

/-- `lane_key_segment`. -/
def laneKeySegment (lane : Lane) : Except Error Unit :=
  checkedKeySegment lane.name "lane"

/-- The answer of a script that does not have the type the broker asks for:
a missing blob, or attempts past `u32::MAX`.  The text is the client
library's. -/
def incompatible : Error :=
  .broker "Response was of incompatible type"

/-- The retention arguments of `fail` and `reserve`. -/
def bounds (retention : RetentionPolicy) (now : Nat) : Bounds where
  maxCount := retention.keepCount.getD 0
  ageCutoff := (retention.ageCutoffNanos now).getD 0
  hasAgeBound := retention.maxAge.isSome

section Operations

variable (serde : SerdeJson) (config : Config)

/-- The arguments of a job, once its lane and its envelope are accepted. -/
def jobArgs (now : Nat) (job : NewJob) : Except Error JobArgs := do
  laneKeySegment job.lane
  let blob ← encodeEnvelope serde job.intoEnvelope
  .ok
    { id := job.id
      lane := job.lane
      availableAt := nanos (saturatingAdd now job.delay)
      env := blob
      ukey := job.uniqueKey.getD ""
      priority := job.priority }

/-- The id of the envelope a script answered with. -/
def storedId (stored : Option Blob) : Except Error JobId :=
  match stored with
  | none => .error incompatible
  | some blob => (decodeEnvelope serde blob).map JobEnvelope.id

def enqueue (store : Store) (now : Nat) (job : NewJob) : Store × Reply :=
  match jobArgs serde now job with
  | .error failure => (store, .error failure)
  | .ok args =>
    let ran := store.enqueue args
    (ran.1, (storedId serde ran.2).map .jobId)

def enqueueBatch (store : Store) (now : Nat) (jobs : List NewJob) : Store × Reply :=
  if jobs.isEmpty then
    (store, .ok (.jobIds []))
  else
    match jobs.mapM (jobArgs serde now) with
    | .error failure => (store, .error failure)
    | .ok batch =>
      let ran := store.enqueueBatch batch
      (ran.1, (ran.2.mapM (storedId serde)).map .jobIds)

/-- `envelope_with_attempts`, for attempts that fit a `u32`. -/
def envelopeWithAttempts (blob : Blob) (attempts : Nat) :
    Except Error JobEnvelope :=
  if u32Max < attempts then
    .error incompatible
  else do
    let envelope ← decodeEnvelope serde blob
    .ok { envelope with attempts := attempts }

def reserveArgs (now : Nat) (mint : ReservationReceipt) (lane : Lane) : ReserveArgs where
  lane := lane
  now := nanos now
  leaseUntil := nanos (saturatingAdd now config.lease)
  receipt := mint
  max := config.maxDeliveries.getD 0
  bounds := bounds config.retention (nanos now)

/-- The reservation a `RESERVE` answer stands for. -/
def reservation (mint : ReservationReceipt) :
    Option (Blob × Nat) → Except Error (Option Reservation)
  | none => .ok none
  | some (blob, attempts) => do
      let envelope ← envelopeWithAttempts serde blob attempts
      .ok (some
        { envelope := envelope
          receipt := mint
          lease := config.lease })

def reserve (store : Store) (now : Nat) (mint : ReservationReceipt) (lane : Lane) : Store × Reply :=
  match laneKeySegment lane with
  | .error failure => (store, .error failure)
  | .ok _ =>
    let ran := store.reserve (reserveArgs config now mint lane)
    (ran.1, (reservation serde config mint ran.2.1).map .reserved)

/-- The reply to the answer of a script behind `GUARD`. -/
def resolved (receipt : ReservationReceipt) (ran : Store × Nat) : Store × Reply :=
  (ran.1, if ran.2 = 1 then .ok .done else .error (stale receipt))

def ack (store : Store) (now : Nat) (receipt : ReservationReceipt) : Store × Reply :=
  resolved receipt (store.ack receipt (nanos now))

def retry (store : Store) (now : Nat) (receipt : ReservationReceipt)
    (delay : Nat) : Store × Reply :=
  resolved receipt (store.retry receipt (nanos now) (nanos (saturatingAdd now delay)))

def defer (store : Store) (now : Nat) (receipt : ReservationReceipt)
    (delay : Nat) : Store × Reply :=
  resolved receipt (store.defer receipt (nanos now) (nanos (saturatingAdd now delay)))

def fail (store : Store) (now : Nat) (receipt : ReservationReceipt)
    (error : String) : Store × Reply :=
  resolved receipt (store.fail receipt (nanos now) error (bounds config.retention (nanos now)))

def extend (store : Store) (now : Nat) (receipt : ReservationReceipt) : Store × Reply :=
  resolved receipt (store.extend receipt (nanos now) (nanos (saturatingAdd now config.lease)))

/-- The records behind the first members of `ns:dead:{lane}`.  A member whose
hash is missing is skipped. -/
def Store.deadRows (store : Store) (lane : Lane) (limit : Nat) :
    List DeadHash :=
  ((store.dead lane).entries.take (min limit i64Max)).filterMap
    fun entry => store.deadJob (fifoId entry.member)

/-- The letter of a record. -/
def deadLetter (dead : DeadHash) : Except Error DeadLetter := do
  let envelope ← envelopeWithAttempts serde dead.envelope dead.attempts
  .ok { envelope := envelope, error := dead.error }

def readDeadLetters (store : Store) (lane : Lane) (limit : Nat) : Except Error (List DeadLetter) :=
  if limit = 0 then
    .ok []
  else do
    laneKeySegment lane
    (store.deadRows lane limit).mapM (deadLetter serde)

def countDeadLetters (store : Store) (lane : Lane) : Except Error Nat := do
  laneKeySegment lane
  .ok (store.dead lane).zcard

def redisKeyHeldText (id : JobId) : String :=
  s!"cannot requeue job {id}: its unique key is held by another live job"

def requeue (store : Store) (now : Nat) (id : JobId) : Store × Reply :=
  let ran := store.requeue id (nanos now)
  (ran.1, match ran.2 with
    | 1 => .ok .done
    | 2 => .error (.uniqueKeyHeld (redisKeyHeldText id))
    | 3 => .error (.liveJobIdConflict (liveIdText id))
    | _ => .error (.broker (noDeadLetterText id)))

def purgeDeadLetters (store : Store) (lane : Lane) : Store × Reply :=
  match laneKeySegment lane with
  | .error failure => (store, .error failure)
  | .ok _ =>
    let ran := store.purgeDead lane
    (ran.1, .ok (.count ran.2))

def pendingCount (store : Store) (lane : Lane) : Except Error Nat := do
  laneKeySegment lane
  .ok (store.pendingCount lane)

/-- An occurrence as text: `2 ^ 63` is added and twenty digits are
written. -/
def occurrenceText (occurrence : Int64) : Text :=
  Lib.fixedText 10 20 (occurrence.toInt + 2 ^ 63).toNat

def enqueueScheduled (store : Store) (now : Nat) (scheduleId : String)
    (occurrence : Int64) (job : NewJob) : Store × Reply :=
  match laneKeySegment job.lane with
  | .error failure => (store, .error failure)
  | .ok _ =>
    match checkedKeySegment scheduleId "schedule id" with
    | .error failure => (store, .error failure)
    | .ok _ =>
      match jobArgs serde now job with
      | .error failure => (store, .error failure)
      | .ok args =>
        let ran := store.enqueueScheduled scheduleId (occurrenceText occurrence) args
        (ran.1, .ok (.claimed (decide (ran.2 = 1))))

def removeSchedule (store : Store) (scheduleId : String) : Store × Reply :=
  match checkedKeySegment scheduleId "schedule id" with
  | .error failure => (store, .error failure)
  | .ok _ => (store.delSchedule scheduleId, .ok .done)

/-- One call. -/
def perform (store : Store) (input : Input) : Store × Reply :=
  match input.call with
  | .enqueue job => enqueue serde store input.now job
  | .enqueueBatch jobs => enqueueBatch serde store input.now jobs
  | .reserve lane => reserve serde config store input.now input.mint lane
  | .ack receipt => ack store input.now receipt
  | .retry receipt delay => retry store input.now receipt delay
  | .defer receipt delay => defer store input.now receipt delay
  | .fail receipt error => fail config store input.now receipt error
  | .extend receipt => extend config store input.now receipt
  | .classify id =>
    (store, .ok (.state (classifyState (some (store.classify id)))))
  | .readDeadLetters lane limit =>
    (store, (readDeadLetters serde store lane limit).map .deadLetters)
  | .countDeadLetters lane =>
    (store, (countDeadLetters store lane).map .count)
  | .requeue id => requeue store input.now id
  | .purgeDeadLetters lane => purgeDeadLetters store lane
  | .pendingCount lane => (store, (pendingCount store lane).map .count)
  | .enqueueScheduled scheduleId occurrence job =>
    enqueueScheduled serde store input.now scheduleId occurrence job
  | .removeSchedule scheduleId => removeSchedule store scheduleId

/-- `RedisBroker` on an empty namespace. -/
def machine : Lib.Machine Store Input Reply where
  initial := Store.empty
  step := perform serde config

end Operations

/-! ## Calls as scripts -/

/-- The blob is the encoding of an envelope of this lane. -/
def Encodes (serde : SerdeJson) (blob : Blob) (lane : Lane) : Prop :=
  ∃ envelope, encodeEnvelope serde envelope = .ok blob ∧ envelope.lane = lane

/-- The script carries only blobs that `encode_envelope` made. -/
def Script.Encoded (serde : SerdeJson) (script : Script) : Prop :=
  ∀ args ∈ script.jobs, Encodes serde args.env args.lane

/-- The script carries only jobs that the broker accepted. -/
def Script.Accepted (serde : SerdeJson) (script : Script) : Prop :=
  ∀ args ∈ script.jobs, ∃ now job, jobArgs serde now job = .ok args

section Calls

variable {serde : SerdeJson} {config : Config}

theorem envelopeWithAttempts_ok {blob : Blob} {attempts : Nat} {envelope : JobEnvelope}
    (encoded : encodeEnvelope serde envelope = .ok blob)
    (fits : attempts ≤ u32Max) :
    envelopeWithAttempts serde blob attempts = .ok { envelope with attempts := attempts } := by
  rw [envelopeWithAttempts, if_neg (Nat.not_lt.mpr fits), decode_of_encode encoded]
  rfl

theorem deadLetter_ok {dead : DeadHash} {envelope : JobEnvelope}
    (encoded : encodeEnvelope serde envelope = .ok dead.envelope)
    (fits : dead.attempts ≤ u32Max) :
    deadLetter serde dead = .ok
      { envelope := { envelope with attempts := dead.attempts }
        error := dead.error } := by
  rw [deadLetter, envelopeWithAttempts_ok encoded fits]
  rfl

theorem jobArgs_ok {now : Nat} {job : NewJob} {args : JobArgs}
    (accepted : jobArgs serde now job = .ok args) :
    laneKeySegment job.lane = .ok () ∧ ∃ blob, encodeEnvelope serde job.intoEnvelope = .ok blob ∧
      args =
        { id := job.id
          lane := job.lane
          availableAt := nanos (saturatingAdd now job.delay)
          env := blob
          ukey := job.uniqueKey.getD ""
          priority := job.priority } := by
  unfold jobArgs at accepted
  cases safe : laneKeySegment job.lane with
  | error failure =>
    rw [safe] at accepted
    cases accepted
  | ok value =>
    cases encoded : encodeEnvelope serde job.intoEnvelope with
    | error failure =>
      rw [safe, encoded] at accepted
      cases accepted
    | ok blob =>
      rw [safe, encoded] at accepted
      cases accepted
      exact ⟨rfl, blob, rfl, rfl⟩

theorem Script.Accepted.encoded {script : Script}
    (accepted : script.Accepted serde) : script.Encoded serde := by
  intro args brought
  obtain ⟨_, job, own⟩ := accepted args brought
  obtain ⟨_, blob, encoded, rfl⟩ := jobArgs_ok own
  exact ⟨job.intoEnvelope, encoded, rfl⟩

theorem mapM_jobArgs_accepted {now : Nat} {jobs : List NewJob} {batch : List JobArgs}
    (accepted : jobs.mapM (jobArgs serde now) = .ok batch) :
    ∀ args ∈ batch, ∃ now job, jobArgs serde now job = .ok args := by
  induction jobs generalizing batch with
  | nil =>
    cases accepted
    exact fun _ member => absurd member not_mem_nil
  | cons job rest ih =>
    rw [mapM_cons] at accepted
    cases first : jobArgs serde now job with
    | error failure =>
      rw [first] at accepted
      cases accepted
    | ok args =>
      cases later : rest.mapM (jobArgs serde now) with
      | error failure =>
        rw [first, later] at accepted
        cases accepted
      | ok others =>
        rw [first, later] at accepted
        cases accepted
        intro other member
        rcases mem_cons.mp member with rfl | inside
        · exact ⟨now, job, first⟩
        · exact ih later other inside

/-- The store changes as some script changes it, or not at all. -/
def Runs (serde : SerdeJson) (input : Input) (store next : Store) : Prop :=
  next = store ∨ ∃ script : Script, script.Accepted serde ∧
    script.minted.Sublist input.minted ∧ next = (store.exec script).1

theorem runs_plain {input : Input} {store : Store} (script : Script)
    (noJobs : script.jobs = []) (noReceipt : script.minted = []) :
    Runs serde input store (store.exec script).1 := by
  refine Or.inr ⟨script, ?_, ?_, rfl⟩
  · intro args brought
    rw [noJobs] at brought
    cases brought
  · rw [noReceipt]
    exact nil_sublist _

theorem runs_jobs {input : Input} {store : Store} (script : Script)
    (accepted : script.Accepted serde) (noReceipt : script.minted = []) :
    Runs serde input store (store.exec script).1 := by
  refine Or.inr ⟨script, accepted, ?_, rfl⟩
  rw [noReceipt]
  exact nil_sublist _

theorem perform_runs (store : Store) (input : Input) :
    Runs serde input store (perform serde config store input).1 := by
  obtain ⟨now, mint, call⟩ := input
  cases call with
  | enqueue job =>
    simp only [perform, enqueue]
    cases accepted : jobArgs serde now job with
    | error failure => exact Or.inl rfl
    | ok args =>
      refine runs_jobs (.enqueue args) ?_ rfl
      intro other brought
      rw [mem_singleton.mp brought]
      exact ⟨now, job, accepted⟩
  | enqueueBatch jobs =>
    simp only [perform, enqueueBatch]
    split
    · exact Or.inl rfl
    · cases accepted : jobs.mapM (jobArgs serde now) with
      | error failure => exact Or.inl rfl
      | ok batch =>
        exact runs_jobs (.enqueueBatch batch) (mapM_jobArgs_accepted accepted) rfl
  | reserve lane =>
    simp only [perform, reserve]
    cases laneKeySegment lane with
    | error failure => exact Or.inl rfl
    | ok value =>
      refine Or.inr ⟨.reserve (reserveArgs config now mint lane), ?_, List.Sublist.refl _, rfl⟩
      exact fun _ brought => absurd brought not_mem_nil
  | ack receipt => exact runs_plain (.ack receipt _) rfl rfl
  | retry receipt delay => exact runs_plain (.retry receipt _ _) rfl rfl
  | defer receipt delay => exact runs_plain (.defer receipt _ _) rfl rfl
  | fail receipt error => exact runs_plain (.fail receipt _ _ _) rfl rfl
  | extend receipt => exact runs_plain (.extend receipt _ _) rfl rfl
  | requeue id => exact runs_plain (.requeue id _) rfl rfl
  | purgeDeadLetters lane =>
    simp only [perform, purgeDeadLetters]
    cases laneKeySegment lane with
    | error failure => exact Or.inl rfl
    | ok value => exact runs_plain (.purgeDead lane) rfl rfl
  | enqueueScheduled scheduleId occurrence job =>
    simp only [perform, enqueueScheduled]
    cases laneKeySegment job.lane with
    | error failure => exact Or.inl rfl
    | ok value =>
      cases checkedKeySegment scheduleId "schedule id" with
      | error failure => exact Or.inl rfl
      | ok value =>
        cases accepted : jobArgs serde now job with
        | error failure => exact Or.inl rfl
        | ok args =>
          refine runs_jobs (.enqueueScheduled scheduleId (occurrenceText occurrence) args) ?_ rfl
          intro other brought
          rw [mem_singleton.mp brought]
          exact ⟨now, job, accepted⟩
  | removeSchedule scheduleId =>
    simp only [perform, removeSchedule]
    cases checkedKeySegment scheduleId "schedule id" with
    | error failure => exact Or.inl rfl
    | ok value => exact runs_plain (.delSchedule scheduleId) rfl rfl
  | _ => exact Or.inl rfl

/-- A run of calls with fresh receipts is a run of scripts with fresh
receipts. -/
theorem run_scripts (inputs : List Input) :
    ∃ scripts, (machine serde config).run inputs = server.run scripts ∧
      (receipts scripts).Sublist (mints inputs) ∧
      ∀ script ∈ scripts, script.Accepted serde := by
  induction inputs using List.reverseRecOn with
  | nil =>
    exact ⟨[], rfl, List.Sublist.refl _, fun _ member => absurd member not_mem_nil⟩
  | append_singleton past input ih =>
    obtain ⟨scripts, same, fresh, accepted⟩ := ih
    rw [Lib.Machine.run_concat, mints_concat, same]
    have ran : Runs serde input (server.run scripts)
        (perform serde config (server.run scripts) input).1 :=
      perform_runs (server.run scripts) input
    rcases ran with kept | ⟨script, own, minted, next⟩
    · exact ⟨scripts, kept, fresh.trans (sublist_append_left ..), accepted⟩
    · refine ⟨scripts ++ [script], ?_, ?_, ?_⟩
      · rw [Lib.Machine.run_concat]
        exact next
      · rw [receipts_concat]
        exact fresh.append minted
      · intro other member
        rcases mem_append.mp member with old | new
        · exact accepted other old
        · rw [mem_singleton.mp new]
          exact own

end Calls

end Worklane.Redis
