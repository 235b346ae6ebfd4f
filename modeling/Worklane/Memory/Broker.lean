import Worklane.Core.Broker
import Worklane.Lib.Index
import Worklane.Lib.Select

/-!
# `InMemoryBroker`

The broker of `worklane-memory`, one function of the source at a time.  Every
method holds the mutex for its whole body, so a method is one step on `Inner`.

Two things are added to what the source computes.  The records that retention
or a purge removes, which the source throws away, are returned as well
(`dropped`).  And the way an expired lease is cleared is a parameter
(`release`), because the Redis broker is compared with a variant that differs
there and nowhere else; the broker of the source uses `releaseLease`.
-/

namespace Worklane.Memory

structure StoredJob where
  envelope : JobEnvelope
  availableAt : Nat
  leasedUntil : Option Nat
  receipt : Option ReservationReceipt
  uniqueKey : Option String
  deliveries : Nat
  deriving DecidableEq, Repr

structure DeadEntry where
  letter : DeadLetter
  uniqueKey : Option String
  deadAt : Nat
  deriving DecidableEq, Repr

/-- `unique` and `schedules` are hash maps: a key is present or absent. -/
structure Inner where
  jobs : List StoredJob
  dead : List DeadEntry
  unique : String → Option JobId
  schedules : String → Option Int64

def Inner.empty : Inner where
  jobs := []
  dead := []
  unique := fun _ => none
  schedules := fun _ => none

def StoredJob.id (job : StoredJob) : JobId := job.envelope.id

def DeadEntry.id (entry : DeadEntry) : JobId := entry.letter.envelope.id

def DeadEntry.lane (entry : DeadEntry) : Lane := entry.letter.envelope.lane

/-! ## Retention -/

/-- The `retain` pass that drops the first `toDrop` records of `lane`.
Returns the records kept and the records dropped. -/
def dropOldest (lane : Lane) : Nat → List DeadEntry → List DeadEntry × List DeadEntry
  | _, [] => ([], [])
  | toDrop, entry :: rest =>
    if entry.lane = lane ∧ 0 < toDrop then
      let later := dropOldest lane (toDrop - 1) rest
      (later.1, entry :: later.2)
    else
      let later := dropOldest lane toDrop rest
      (entry :: later.1, later.2)

/-- The `max_age` half of `prune_dead`. -/
def pruneByAge (lane : Lane) (now : Nat) (maxAge : Option Nat)
    (dead : List DeadEntry) : List DeadEntry × List DeadEntry :=
  match maxAge with
  | some age =>
    dead.partition fun entry =>
      decide (entry.lane ≠ lane ∨ now - age ≤ entry.deadAt)
  | none => (dead, [])

/-- The `max_count` half of `prune_dead`. -/
def pruneByCount (lane : Lane) (maxCount : Option Nat)
    (dead : List DeadEntry) : List DeadEntry × List DeadEntry :=
  match maxCount with
  | some count =>
    let total := (dead.filter fun entry => entry.lane = lane).length
    if total > count then
      dropOldest lane (total - count) dead
    else
      (dead, [])
  | none => (dead, [])

/-- `prune_dead`, with the records it drops. -/
def pruneDead (policy : RetentionPolicy) (lane : Lane) (now : Nat)
    (dead : List DeadEntry) : List DeadEntry × List DeadEntry :=
  if policy.isUnbounded then
    (dead, [])
  else
    let young := pruneByAge lane now policy.maxAge dead
    let kept := pruneByCount lane policy.maxCount young.1
    (kept.1, young.2 ++ kept.2)

/-! ## Live jobs -/

/-- The visibility test of `pick_best`. -/
def visible (lane : Lane) (now : Nat) (job : StoredJob) : Bool :=
  decide (job.envelope.lane = lane) && job.leasedUntil.isNone && decide (job.availableAt ≤ now)

/-- When `pick_best` replaces the best job so far. -/
def outranks (job best : StoredJob) : Bool :=
  decide (best.envelope.priority < job.envelope.priority) ||
    (decide (job.envelope.priority = best.envelope.priority) &&
      decide (job.availableAt < best.availableAt))

/-- `pick_best`. -/
def pickBest (jobs : List StoredJob) (lane : Lane) (now : Nat) :
    Option Nat :=
  Lib.bestIndex (visible lane now) outranks jobs

/-- `HashMap::insert` for an optional key. -/
def claimKey (unique : String → Option JobId) (key : Option String)
    (id : JobId) : String → Option JobId :=
  Lib.assign unique key (some id)

/-- `HashMap::remove` for an optional key. -/
def freeKey (unique : String → Option JobId) (key : Option String) : String → Option JobId :=
  Lib.assign unique key none

/-- `check_payload_size`. -/
def checkPayloadSize (job : NewJob) : Except Error Unit :=
  if job.payload.length > maxEnvelopeBytes then
    .error (.serialization
      s!"job payload is {job.payload.length} bytes, over the {maxEnvelopeBytes}-byte limit")
  else
    .ok ()

/-- A live job with this id. -/
def Inner.isLive (inner : Inner) (id : JobId) : Bool :=
  inner.jobs.any fun job => decide (job.id = id)

/-- The live job a key is mapped to. -/
def Inner.keyHolder (inner : Inner) (key : Option String) : Option JobId :=
  key.bind inner.unique

def storedJob (job : NewJob) (now : Nat) : StoredJob where
  envelope := job.intoEnvelope
  availableAt := saturatingAdd now job.delay
  leasedUntil := none
  receipt := none
  uniqueKey := job.uniqueKey
  deliveries := 0

/-- `insert_one`: the id is looked up first, then the unique key. -/
def insertOne (inner : Inner) (job : NewJob) (now : Nat) : Inner × JobId :=
  if inner.isLive job.id then
    (inner, job.id)
  else
    match inner.keyHolder job.uniqueKey with
    | some existing => (inner, existing)
    | none =>
      ({ inner with
          unique := claimKey inner.unique job.uniqueKey job.id
          jobs := inner.jobs ++ [storedJob job now] },
        job.id)

/-- The loop of `enqueue_batch`. -/
def insertAll (now : Nat) : Inner → List NewJob → Inner × List JobId
  | inner, [] => (inner, [])
  | inner, job :: rest =>
    let first := insertOne inner job now
    let later := insertAll now first.1 rest
    (later.1, first.2 :: later.2)

def deadEntry (job : StoredJob) (error : String) (now : Nat) : DeadEntry where
  letter := { envelope := job.envelope, error := error }
  uniqueKey := job.uniqueKey
  deadAt := now

/-- `dead_letter_at`, with the records retention drops. -/
def deadLetterAt (retention : RetentionPolicy) (inner : Inner)
    (index : Nat) (error : String) (now : Nat) :
    Inner × List DeadEntry :=
  match inner.jobs[index]? with
  | none => (inner, [])
  | some job =>
    let pruned := pruneDead retention job.envelope.lane now
      (inner.dead ++ [deadEntry job error now])
    ({ inner with
        jobs := inner.jobs.eraseIdx index
        unique := freeKey inner.unique job.uniqueKey
        dead := pruned.1 },
      pruned.2)

/-- Whether a job's lease is over: `leased_until` is set and has passed. -/
def expired (now : Nat) (job : StoredJob) : Bool :=
  job.leasedUntil.any fun endsAt => decide (endsAt ≤ now)

/-- How the source clears an expired lease. -/
def releaseLease (job : StoredJob) : StoredJob :=
  { job with leasedUntil := none, receipt := none }

section Operations

variable (release : StoredJob → StoredJob) (config : Config)

/-- `find_current_receipt`: an expired lease is cleared on the way to the
stale error. -/
def findCurrentReceipt (inner : Inner) (receipt : ReservationReceipt)
    (now : Nat) : Inner × Except Error Nat :=
  match inner.jobs.findIdx? fun job => job.receipt = some receipt with
  | none => (inner, .error (stale receipt))
  | some position =>
    if inner.jobs[position]?.any (expired now) then
      ({ inner with jobs := inner.jobs.modify position release }, .error (stale receipt))
    else
      (inner, .ok position)

structure Outcome where
  inner : Inner
  reply : Reply
  dropped : List DeadEntry

/-- The frame of `ack`, `retry`, `defer`, `fail` and `extend`: find the job
of the receipt, then change it. -/
def resolve (inner : Inner) (receipt : ReservationReceipt) (now : Nat)
    (change : Inner → Nat → Inner × List DeadEntry) : Outcome :=
  match findCurrentReceipt release inner receipt now with
  | (found, .error failure) => ⟨found, .error failure, []⟩
  | (found, .ok position) =>
    let changed := change found position
    ⟨changed.1, .ok .done, changed.2⟩

/-- The job at `position` leaves the store and gives up its key. -/
def removeAt (inner : Inner) (position : Nat) : Inner :=
  match inner.jobs[position]? with
  | none => inner
  | some job =>
    { inner with
      jobs := inner.jobs.eraseIdx position
      unique := freeKey inner.unique job.uniqueKey }

def modifyAt (inner : Inner) (position : Nat) (change : StoredJob → StoredJob) : Inner :=
  { inner with jobs := inner.jobs.modify position change }

/-- The lease is given up and the job scheduled for `now + delay`. -/
def reschedule (now delay : Nat) (job : StoredJob) : StoredJob :=
  { job with
    availableAt := saturatingAdd now delay
    leasedUntil := none
    receipt := none }

/-- `reschedule` with one more attempt. -/
def retryJob (now delay : Nat) (job : StoredJob) : StoredJob :=
  { reschedule now delay job with envelope := job.envelope.bump }

def leaseJob (leaseUntil : Nat) (receipt : ReservationReceipt) (job : StoredJob) : StoredJob :=
  { job with
    deliveries := saturatingSucc job.deliveries
    leasedUntil := some leaseUntil
    receipt := some receipt }

def extendJob (leaseUntil : Nat) (job : StoredJob) : StoredJob :=
  { job with leasedUntil := some leaseUntil }

def ack (inner : Inner) (now : Nat) (receipt : ReservationReceipt) :
    Outcome :=
  resolve release inner receipt now fun found position =>
    (removeAt found position, [])

def retry (inner : Inner) (now : Nat) (receipt : ReservationReceipt) (delay : Nat) : Outcome :=
  resolve release inner receipt now fun found position =>
    (modifyAt found position (retryJob now delay), [])

def defer (inner : Inner) (now : Nat) (receipt : ReservationReceipt) (delay : Nat) : Outcome :=
  resolve release inner receipt now fun found position =>
    (modifyAt found position (reschedule now delay), [])

def fail (inner : Inner) (now : Nat) (receipt : ReservationReceipt) (error : String) : Outcome :=
  resolve release inner receipt now fun found position =>
    deadLetterAt config.retention found position error now

def extend (inner : Inner) (now : Nat) (receipt : ReservationReceipt) :
    Outcome :=
  resolve release inner receipt now fun found position =>
    (modifyAt found position (extendJob (saturatingAdd now config.lease)), [])

/-- The first loop of `reserve`: every expired lease of every lane. -/
def releaseExpired (now : Nat) (jobs : List StoredJob) : List StoredJob :=
  jobs.map fun job => if expired now job then release job else job

/-- The delivery bound: `deliveries.saturating_add(1) > max`. -/
def overDelivered (job : StoredJob) (max : Nat) : Prop :=
  max < saturatingSucc job.deliveries

instance (job : StoredJob) (max : Nat) : Decidable (overDelivered job max) :=
  inferInstanceAs (Decidable (max < saturatingSucc job.deliveries))

/-- Lease the job at `index` and hand it out. -/
def leaseAt (inner : Inner) (index now : Nat)
    (mint : ReservationReceipt) : Inner × Option Reservation :=
  match inner.jobs[index]? with
  | none => (inner, none)
  | some job =>
    (modifyAt inner index (leaseJob (saturatingAdd now config.lease) mint), some
        { envelope := job.envelope
          receipt := mint
          lease := config.lease })

/-- The second loop of `reserve`.  The first argument is how many jobs may
still be swept: the source counts `swept` up to `MAX_DEAD_LETTER_SWEEP` and
gives up when it is reached. -/
def reserveLoop (lane : Lane) (now : Nat) (mint : ReservationReceipt) :
    Nat → Inner → Inner × Option Reservation × List DeadEntry
  | 0, inner => (inner, none, [])
  | left + 1, inner =>
    match pickBest inner.jobs lane now with
    | none => (inner, none, [])
    | some index =>
      match config.maxDeliveries with
      | some max =>
        if inner.jobs[index]?.any fun job => overDelivered job max then
          let moved := deadLetterAt config.retention inner index (overDeliveredText max) now
          let rest := reserveLoop lane now mint left moved.1
          (rest.1, rest.2.1, moved.2 ++ rest.2.2)
        else
          let leased := leaseAt config inner index now mint
          (leased.1, leased.2, [])
      | none =>
        let leased := leaseAt config inner index now mint
        (leased.1, leased.2, [])

def reserve (inner : Inner) (now : Nat) (mint : ReservationReceipt) (lane : Lane) : Outcome :=
  let released := { inner with jobs := releaseExpired release now inner.jobs }
  let result := reserveLoop config lane now mint maxDeadLetterSweep released
  ⟨result.1, .ok (.reserved result.2.1), result.2.2⟩

end Operations

def enqueue (inner : Inner) (now : Nat) (job : NewJob) : Outcome :=
  match checkPayloadSize job with
  | .error failure => ⟨inner, .error failure, []⟩
  | .ok _ =>
    let inserted := insertOne inner job now
    ⟨inserted.1, .ok (.jobId inserted.2), []⟩

/-- Every job is checked before the first is inserted. -/
def enqueueBatch (inner : Inner) (now : Nat) (jobs : List NewJob) :
    Outcome :=
  match jobs.forM checkPayloadSize with
  | .error failure => ⟨inner, .error failure, []⟩
  | .ok _ =>
    let inserted := insertAll now inner jobs
    ⟨inserted.1, .ok (.jobIds inserted.2), []⟩

def classify (inner : Inner) (id : JobId) : JobState :=
  if inner.isLive id then
    .live
  else if inner.dead.any fun entry => decide (entry.id = id) then
    .deadLettered
  else
    .completedOrUnknown

def deadOfLane (inner : Inner) (lane : Lane) : List DeadEntry :=
  inner.dead.filter fun entry => entry.lane = lane

def requeuedJob (entry : DeadEntry) (now : Nat) : StoredJob where
  envelope := entry.letter.envelope
  availableAt := now
  leasedUntil := none
  receipt := none
  uniqueKey := entry.uniqueKey
  deliveries := 0

/-- `requeue`: the record, the live id and the key are checked in turn. -/
def requeue (inner : Inner) (now : Nat) (id : JobId) : Outcome :=
  match inner.dead.findIdx? fun entry => entry.id = id with
  | none => ⟨inner, .error (.broker (noDeadLetterText id)), []⟩
  | some position =>
    if inner.isLive id then
      ⟨inner, .error (.liveJobIdConflict (liveIdText id)), []⟩
    else
      match inner.dead[position]? with
      | none => ⟨inner, .error (.broker (noDeadLetterText id)), []⟩
      | some entry =>
        match entry.uniqueKey with
        | some key =>
          if (inner.unique key).isSome then
            ⟨inner, .error (.uniqueKeyHeld (keyHeldText id key)), []⟩
          else
            ⟨{ inner with
                dead := inner.dead.eraseIdx position
                unique := claimKey inner.unique (some key) id
                jobs := inner.jobs ++ [requeuedJob entry now] },
              .ok .done, []⟩
        | none =>
          ⟨{ inner with
              dead := inner.dead.eraseIdx position
              jobs := inner.jobs ++ [requeuedJob entry now] },
            .ok .done, []⟩

def purgeDeadLetters (inner : Inner) (lane : Lane) : Outcome :=
  let kept := inner.dead.partition fun entry =>
    decide (entry.lane ≠ lane)
  ⟨{ inner with dead := kept.1 }, .ok (.count (inner.dead.length - kept.1.length)), kept.2⟩

/-- Whether an occurrence is later than the last one claimed. -/
def wins (last : Option Int64) (occurrence : Int64) : Bool :=
  match last with
  | none => true
  | some claimed => decide (claimed < occurrence)

/-- `enqueue_scheduled`: no payload check, and the claim is recorded whether
or not the job is new. -/
def enqueueScheduled (inner : Inner) (now : Nat) (scheduleId : String)
    (occurrence : Int64) (job : NewJob) : Outcome :=
  if wins (inner.schedules scheduleId) occurrence then
    let claimed :=
      { inner with
        schedules := Function.update inner.schedules scheduleId (some occurrence) }
    ⟨(insertOne claimed job now).1, .ok (.claimed true), []⟩
  else
    ⟨inner, .ok (.claimed false), []⟩

def removeSchedule (inner : Inner) (scheduleId : String) : Outcome :=
  ⟨{ inner with
      schedules := Function.update inner.schedules scheduleId none },
    .ok .done, []⟩

/-- One call, with what retention or a purge dropped. -/
def perform (release : StoredJob → StoredJob) (config : Config)
    (inner : Inner) (input : Input) : Outcome :=
  match input.call with
  | .enqueue job => enqueue inner input.now job
  | .enqueueBatch jobs => enqueueBatch inner input.now jobs
  | .reserve lane => reserve release config inner input.now input.mint lane
  | .ack receipt => ack release inner input.now receipt
  | .retry receipt delay => retry release inner input.now receipt delay
  | .defer receipt delay => defer release inner input.now receipt delay
  | .fail receipt error => fail release config inner input.now receipt error
  | .extend receipt => extend release config inner input.now receipt
  | .classify id => ⟨inner, .ok (.state (classify inner id)), []⟩
  | .readDeadLetters lane limit =>
    ⟨inner, .ok (.deadLetters (((deadOfLane inner lane).take limit).map DeadEntry.letter)), []⟩
  | .countDeadLetters lane =>
    ⟨inner, .ok (.count (deadOfLane inner lane).length), []⟩
  | .requeue id => requeue inner input.now id
  | .purgeDeadLetters lane => purgeDeadLetters inner lane
  | .pendingCount lane =>
    ⟨inner, .ok (.count (inner.jobs.filter fun job => job.envelope.lane = lane).length), []⟩
  | .enqueueScheduled scheduleId occurrence job =>
    enqueueScheduled inner input.now scheduleId occurrence job
  | .removeSchedule scheduleId => removeSchedule inner scheduleId

/-- The broker as a machine, for a way of clearing expired leases. -/
def machineWith (release : StoredJob → StoredJob) (config : Config) :
    Lib.Machine Inner Input Reply where
  initial := Inner.empty
  step := fun inner input =>
    ((perform release config inner input).inner, (perform release config inner input).reply)

/-- `InMemoryBroker`. -/
def machine (config : Config) : Lib.Machine Inner Input Reply :=
  machineWith releaseLease config

end Worklane.Memory
