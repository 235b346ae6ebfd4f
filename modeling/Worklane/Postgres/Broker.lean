import Mathlib.Data.List.Destutter
import Mathlib.Data.List.Sort
import Worklane.Sql.Tables

/-!
# `PostgresBroker`

The broker of `worklane-postgres`, one transaction at a time.  The row numbers
come from the two `BIGSERIAL` sequences: drawing a number is never undone, so
a transaction that fails rolls the tables back and leaves the sequences where
they are.

A `text` value cannot hold a NUL, so a lane, a unique key, an error text or a
schedule id with one cannot be sent.  The lane and the key of a stored row were
sent when it was stored.  The size limit of an index entry is not modelled:
what is proved about calls concerns lanes, keys and schedule ids of at most
`maxIndexedBytes`.
-/

namespace Worklane.Postgres

open Worklane.Sql

/-- What the server or the client library reports. -/
inductive PgFailure where
  | uniqueViolation
  | invalidText
  | rowCount
  | deadlock
  deriving DecidableEq, Repr

/-- `pg_err`.  The texts are the client library's. -/
def pgErr : PgFailure → Error
  | .uniqueViolation | .invalidText | .deadlock => .broker "db error"
  | .rowCount => .broker "query returned an unexpected number of rows"

/-- A text parameter. -/
def checkText (text : String) : Except Error Unit :=
  if '\x00' ∈ text.toList then .error (pgErr .invalidText) else .ok ()

/-- With this many bytes a text fits into an entry of any B-tree of the schema,
whether or not it can be compressed. -/
def maxIndexedBytes : Nat := 2600

/-- A statement about a lane. -/
def onLane {α : Type} (lane : Lane) (db : α) (result : α × Reply) : α × Reply :=
  match checkText lane.name with
  | .error failure => (db, .error failure)
  | .ok _ => result

/-- The tables and the last number each sequence gave out. -/
structure Database where
  tables : Tables
  jobsSeq : Nat
  deadSeq : Nat

def Database.empty : Database where
  tables := Tables.empty
  jobsSeq := 0
  deadSeq := 0

/-- A transaction is committed, or its tables are rolled back. -/
def transaction {α : Type} (db : Database) (value : α → Value)
    (result : Database × Except Error α) : Database × Reply :=
  match result.2 with
  | .ok returned => (result.1, .ok (value returned))
  | .error failure =>
    ({ result.1 with tables := db.tables }, .error failure)

/-- `query_opt`: at most one row. -/
def queryOpt {α : Type} : List α → Except Error (Option α)
  | [] => .ok none
  | [row] => .ok (some row)
  | _ => .error (pgErr .rowCount)

def maxClaimAttempts : Nat := 16

def claimText : String :=
  s!"unique_key claim did not converge after {maxClaimAttempts} attempts (sustained contention on the key); retry the enqueue"

section Operations

variable (serde : SerdeJson) (config : Config)

/-! ## Insertions -/

/-- The loop that claims the key of row `seq`.  The first argument is how
many attempts are left. -/
def claimKey (id : JobId) (key : String) (seq : Nat) : Nat → Tables → Except Error (JobId × Tables)
  | 0, _ => .error (.broker claimText)
  | left + 1, tables =>
    if tables.hasKey key then
      match tables.keyHolder key with
      | some holder => do
          let existing ← decodeEnvelope serde holder.envelope
          .ok (existing.id, tables.deleteJob seq)
      | none => claimKey id key seq left tables
    else
      .ok (id, tables.insertKey key seq)

/-- `INSERT INTO jobs ... ON CONFLICT (id) DO NOTHING RETURNING seq`.  The
number is drawn whether or not the row is new. -/
def insertRow (db : Database) (job : NewJob) (availableAt : Nat)
    (blob : Blob) : Database × Option Nat :=
  let seq := db.jobsSeq + 1
  if db.tables.hasJob job.id then
    ({ db with jobsSeq := seq }, none)
  else
    ({ db with
        tables := db.tables.insertJob (newRow seq job.intoEnvelope job.lane availableAt blob)
        jobsSeq := seq },
      some seq)

/-- The envelope is encoded, then the lane is sent with the insertion. -/
def encodeRow (job : NewJob) : Except Error Blob :=
  match encodeEnvelope serde job.intoEnvelope with
  | .error failure => .error failure
  | .ok blob => (checkText job.lane.name).map fun _ => blob

/-- The second half of `insert_job`. -/
def insertNew (db : Database) (job : NewJob) (availableAt : Nat) : Database × Except Error JobId :=
  match encodeRow serde job with
  | .error failure => (db, .error failure)
  | .ok blob =>
    match insertRow db job availableAt blob with
    | (grown, none) => (grown, .ok job.id)
    | (grown, some seq) =>
      match job.uniqueKey with
      | none => (grown, .ok job.id)
      | some key =>
        match claimKey serde job.id key seq maxClaimAttempts grown.tables with
        | .error failure => (grown, .error failure)
        | .ok (id, claimed) =>
          ({ grown with tables := claimed }, .ok id)

/-- `insert_job`: the unique key is looked up first. -/
def insertJob (db : Database) (job : NewJob) (availableAt : Nat) : Database × Except Error JobId :=
  match job.uniqueKey with
  | none => insertNew serde db job availableAt
  | some key =>
    match checkText key with
    | .error failure => (db, .error failure)
    | .ok _ =>
      match db.tables.keyHolder key with
      | some holder =>
        (db, (decodeEnvelope serde holder.envelope).map JobEnvelope.id)
      | none => insertNew serde db job availableAt

/-- The insert loop of `enqueue_batch`. -/
def insertAll (now : Nat) : Database → List NewJob → Database × Except Error (List JobId)
  | db, [] => (db, .ok [])
  | db, job :: rest =>
    match insertJob serde db job (nanos (saturatingAdd now job.delay)) with
    | (failed, .error failure) => (failed, .error failure)
    | (grown, .ok id) =>
      let later := insertAll now grown rest
      (later.1, later.2.map (id :: ·))

/-- The rows of the `UNNEST` insert, one after the other. -/
def insertRows (now : Nat) : Database → List (NewJob × Blob) → Database
  | db, [] => db
  | db, (job, blob) :: rest =>
    insertRows now (insertRow db job (nanos (saturatingAdd now job.delay)) blob).1 rest

/-- The array of lanes, as a parameter. -/
def checkLanes (lanes : List Lane) : Except Error Unit :=
  lanes.forM fun lane => checkText lane.name

/-- `insert_batch_unnest`: every envelope is encoded before the insert. -/
def insertBatchUnnest (db : Database) (now : Nat) (jobs : List NewJob) :
    Database × Except Error (List JobId) :=
  match jobs.mapM fun job =>
    (encodeEnvelope serde job.intoEnvelope).map (job, ·) with
  | .error failure => (db, .error failure)
  | .ok rows =>
    match checkLanes (jobs.map NewJob.lane) with
    | .error failure => (db, .error failure)
    | .ok _ => (insertRows now db rows, .ok (jobs.map NewJob.id))

/-- The keys of a batch in the order they are locked: sorted, without
repetitions. -/
def lockKeys (jobs : List NewJob) : List String :=
  ((jobs.filterMap NewJob.uniqueKey).insertionSort (· ≤ ·)).destutter (· ≠ ·)

def enqueue (db : Database) (now : Nat) (job : NewJob) : Database × Reply :=
  transaction db .jobId (insertJob serde db job (nanos (saturatingAdd now job.delay)))

/-- `enqueue_batch`.  One transaction alone never waits for a lock, but a key
with a NUL cannot be sent. -/
def enqueueBatch (db : Database) (now : Nat) (jobs : List NewJob) : Database × Reply :=
  transaction db .jobIds <| if jobs.all fun job => job.uniqueKey.isNone then
      insertBatchUnnest serde db now jobs
    else
      match (lockKeys jobs).forM checkText with
      | .error failure => (db, .error failure)
      | .ok _ => insertAll serde now db jobs

/-! ## Reserving and resolving -/

/-- `dead_letter_seq` of this broker.  The error text is sent with the
insertion, after the envelope is decoded; the number of the record is drawn
before its id is found taken. -/
def deadLetterSeq (db : Database) (row : JobRow) (error : String)
    (now : Nat) : Database × Except Error Unit :=
  match (decodeEnvelope serde row.envelope).bind fun _ =>
    checkText error with
  | .error failure => (db, .error failure)
  | .ok _ =>
    let seq := db.deadSeq + 1
    match Sql.deadLetterSeq serde config.retention
        (pgErr .uniqueViolation) seq db.tables row.seq row.envelope error
        now with
    | .error failure => ({ db with deadSeq := seq }, .error failure)
    | .ok moved =>
      ({ db with tables := moved, deadSeq := seq }, .ok ())

/-- The unbounded path of `reserve`: the update is committed before the
envelope it returns is decoded. -/
def reserveUnbounded (db : Database) (now : Nat)
    (mint : ReservationReceipt) (lane : Lane) : Database × Reply :=
  match db.tables.nextVisible lane (nanos now) with
  | none => (db, .ok (.reserved none))
  | some row =>
    ({ db with
        tables := db.tables.updateJob row.seq
          (leaseRow mint (nanos (saturatingAdd now config.lease))) },
      (decodeEnvelope serde row.envelope).map fun envelope =>
        .reserved (some
          { envelope := envelope
            receipt := mint
            lease := config.lease }))

/-- The loop of the bounded path.  The first argument is how many jobs may
still be swept. -/
def reserveLoop (now : Nat) (mint : ReservationReceipt) (lane : Lane) (max : Nat) : Nat → Database →
    Database × Except Error (Option Reservation)
  | 0, db => (db, .ok none)
  | left + 1, db =>
    match db.tables.nextVisible lane (nanos now) with
    | none => (db, .ok none)
    | some row =>
      if row.deliveries + 1 > max then
        match deadLetterSeq serde config db row (overDeliveredText max) (nanos now) with
        | (failed, .error failure) => (failed, .error failure)
        | (swept, .ok _) => reserveLoop now mint lane max left swept
      else
        ({ db with
            tables := db.tables.updateJob row.seq
              (leaseRow mint (nanos (saturatingAdd now config.lease))) },
          (decodeEnvelope serde row.envelope).map fun envelope =>
            some
              { envelope := envelope
                receipt := mint
                lease := config.lease })

def reserve (db : Database) (now : Nat) (mint : ReservationReceipt)
    (lane : Lane) : Database × Reply :=
  match config.maxDeliveries with
  | none => reserveUnbounded serde config db now mint lane
  | some max =>
    transaction db .reserved (reserveLoop serde config now mint lane max maxDeadLetterSweep db)

/-- `receipt = $1 AND leased_until > $2`. -/
def unexpired (receipt : ReservationReceipt) (now : Nat) (row : JobRow) :
    Bool :=
  decide (row.receipt = some receipt) && row.leasedUntil.any fun endsAt => decide (now < endsAt)

/-- `find_valid_row_locked`. -/
def findValidRowLocked (tables : Tables) (receipt : ReservationReceipt)
    (now : Nat) : Except Error JobRow :=
  match queryOpt (tables.jobs.filter fun row =>
    decide (row.receipt = some receipt)) with
  | .error failure => .error failure
  | .ok none => .error (stale receipt)
  | .ok (some row) =>
    if row.leasedUntil.any fun endsAt => decide (now < endsAt) then
      .ok row
    else
      .error (stale receipt)

/-- The frame of `retry`, `defer` and `fail`. -/
def resolve (db : Database) (receipt : ReservationReceipt) (now : Nat)
    (change : JobRow → Database × Except Error Unit) : Database × Reply :=
  transaction db (fun _ : Unit => .done) <|
    match findValidRowLocked db.tables receipt (nanos now) with
    | .error failure => (db, .error failure)
    | .ok row => change row

/-- `ack`: one guarded delete returns the row number its key is freed by. -/
def ack (db : Database) (now : Nat) (receipt : ReservationReceipt) : Database × Reply :=
  transaction db (fun _ : Unit => .done) <| match queryOpt (db.tables.jobs.filter
        (unexpired receipt (nanos now))) with
    | .error failure => (db, .error failure)
    | .ok none => (db, .error (stale receipt))
    | .ok (some row) =>
      ({ db with
          tables :=
            { db.tables with
              jobs := db.tables.jobs.filter fun other =>
                !unexpired receipt (nanos now) other }.freeUniqueKey
              row.seq },
        .ok ())

def retry (db : Database) (now : Nat) (receipt : ReservationReceipt)
    (delay : Nat) : Database × Reply :=
  resolve db receipt now fun row =>
    match (decodeEnvelope serde row.envelope).bind fun envelope =>
      encodeEnvelope serde envelope.bump with
    | .error failure => (db, .error failure)
    | .ok blob =>
      ({ db with
          tables := db.tables.updateJob row.seq (retryRow blob (nanos (saturatingAdd now delay))) },
        .ok ())

def defer (db : Database) (now : Nat) (receipt : ReservationReceipt)
    (delay : Nat) : Database × Reply :=
  resolve db receipt now fun row =>
    ({ db with
        tables := db.tables.updateJob row.seq (rescheduleRow (nanos (saturatingAdd now delay))) },
      .ok ())

def fail (db : Database) (now : Nat) (receipt : ReservationReceipt)
    (error : String) : Database × Reply :=
  resolve db receipt now fun row =>
    deadLetterSeq serde config db row error (nanos now)

/-- One guarded update, stale when it changes no row. -/
def extend (db : Database) (now : Nat) (receipt : ReservationReceipt) : Database × Reply :=
  let leaseUntil := nanos (saturatingAdd now config.lease)
  if db.tables.jobs.any (unexpired receipt (nanos now)) then
    ({ db with
        tables :=
          { db.tables with
            jobs := db.tables.jobs.map fun row =>
              if unexpired receipt (nanos now) row then
                { row with leasedUntil := some leaseUntil }
              else
                row } },
      .ok .done)
  else
    (db, .error (stale receipt))

/-! ## Dead letters and schedules -/

def readDeadLetters (db : Database) (lane : Lane) (limit : Nat) : Reply :=
  (readRows serde ((db.tables.deadOfLane lane).take (min limit i64Max))).map .deadLetters

/-- The writes of `requeue`: a plain insert for the job, `ON CONFLICT DO
NOTHING` for its key. -/
def requeueRow (db : Database) (now : Nat) (id : JobId) (row : DeadRow) :
    Database × Except Error Unit :=
  match decodeEnvelope serde row.envelope with
  | .error failure => (db, .error failure)
  | .ok envelope =>
    let seq := db.jobsSeq + 1
    let drawn := { db with jobsSeq := seq }
    if db.tables.hasJob envelope.id then
      (drawn, .error (pgErr .uniqueViolation))
    else
      let grown := db.tables.insertJob (newRow seq envelope row.lane now row.envelope)
      match row.uniqueKey with
      | none =>
        ({ drawn with tables := grown.deleteDead id }, .ok ())
      | some key =>
        if grown.hasKey key then
          (drawn, .error (.uniqueKeyHeld (keyHeldText id key)))
        else
          ({ drawn with
              tables := (grown.insertKey key seq).deleteDead id },
            .ok ())

/-- `requeue`: the record, the live id and the key are checked in turn. -/
def requeue (db : Database) (now : Nat) (id : JobId) : Database × Reply :=
  transaction db (fun _ : Unit => .done) <| match db.tables.deadById id with
    | none => (db, .error (.broker (noDeadLetterText id)))
    | some row =>
      if db.tables.hasJob id then
        (db, .error (.liveJobIdConflict (liveIdText id)))
      else
        match row.uniqueKey with
        | some key =>
          if db.tables.hasKey key then
            (db, .error (.uniqueKeyHeld (keyHeldText id key)))
          else
            requeueRow serde db (nanos now) id row
        | none => requeueRow serde db (nanos now) id row

def purgeDeadLetters (db : Database) (lane : Lane) : Database × Reply :=
  let kept := db.tables.dead.filter fun row => decide (row.lane ≠ lane)
  ({ db with tables := { db.tables with dead := kept } },
    .ok (.count (db.tables.dead.length - kept.length)))

def enqueueScheduled (db : Database) (now : Nat) (scheduleId : String)
    (occurrence : Int64) (job : NewJob) : Database × Reply :=
  transaction db .claimed <| match checkText scheduleId with
    | .error failure => (db, .error failure)
    | .ok _ =>
      match db.tables.claimOccurrence scheduleId occurrence with
      | none => (db, .ok false)
      | some claimed =>
        let inserted := insertJob serde { db with tables := claimed } job
          (nanos (saturatingAdd now job.delay))
        (inserted.1, inserted.2.map fun _ => true)

def removeSchedule (db : Database) (scheduleId : String) : Database × Reply :=
  match checkText scheduleId with
  | .error failure => (db, .error failure)
  | .ok _ =>
    ({ db with
        tables :=
          { db.tables with
            schedules := Function.update db.tables.schedules scheduleId none } },
      .ok .done)

/-- One call. -/
def perform (db : Database) (input : Input) : Database × Reply :=
  match input.call with
  | .enqueue job => enqueue serde db input.now job
  | .enqueueBatch jobs => enqueueBatch serde db input.now jobs
  | .reserve lane => onLane lane db (reserve serde config db input.now input.mint lane)
  | .ack receipt => ack db input.now receipt
  | .retry receipt delay => retry serde db input.now receipt delay
  | .defer receipt delay => defer db input.now receipt delay
  | .fail receipt error => fail serde config db input.now receipt error
  | .extend receipt => extend config db input.now receipt
  | .classify id =>
    (db, .ok (.state (classifyState (db.tables.stateColumn id))))
  | .readDeadLetters lane limit =>
    onLane lane db (db, readDeadLetters serde db lane limit)
  | .countDeadLetters lane =>
    onLane lane db (db, .ok (.count (db.tables.deadOfLane lane).length))
  | .requeue id => requeue serde db input.now id
  | .purgeDeadLetters lane => onLane lane db (purgeDeadLetters db lane)
  | .pendingCount lane => onLane lane db (db, .ok (.count (db.tables.pendingCount lane)))
  | .enqueueScheduled scheduleId occurrence job =>
    enqueueScheduled serde db input.now scheduleId occurrence job
  | .removeSchedule scheduleId => removeSchedule db scheduleId

/-- `PostgresBroker`. -/
def machine : Lib.Machine Database Input Reply where
  initial := Database.empty
  step := perform serde config

end Operations

end Worklane.Postgres
