import Worklane.Sql.Tables

/-!
# `SqliteBroker`

The broker of `worklane-sqlite`.  Every operation is one atomic step on the
tables: a transaction that fails changes nothing.  `INTEGER PRIMARY KEY`
gives a new row the number after the largest one in the table.
-/

namespace Worklane.Sqlite

open Worklane.Sql

/-- The error `sql_err` makes of a violated unique index. -/
def uniqueFailed (column : String) : Error :=
  .broker ("UNIQUE constraint failed: " ++ column)

/-- The row number after the largest one. -/
def nextSeq (seqs : List Nat) : Nat := seqs.foldl max 0 + 1

def nextJobSeq (tables : Tables) : Nat :=
  nextSeq (tables.jobs.map JobRow.seq)

def nextDeadSeq (tables : Tables) : Nat :=
  nextSeq (tables.dead.map DeadRow.seq)

section Operations

variable (serde : SerdeJson) (config : Config)

/-- `INSERT INTO unique_keys`, which fails when the key is there. -/
def insertKey (tables : Tables) (key : String) (seq : Nat) :
    Except Error Tables :=
  if tables.hasKey key then
    .error (uniqueFailed "unique_keys.unique_key")
  else
    .ok (tables.insertKey key seq)

/-- `INSERT INTO jobs ... ON CONFLICT(id) DO NOTHING` and, for a new row, its
unique key: the second half of `insert_job`. -/
def insertNew (tables : Tables) (job : NewJob) (availableAt : Nat) :
    Except Error (JobId × Tables) := do
  let blob ← encodeEnvelope serde job.intoEnvelope
  if tables.hasJob job.id then
    .ok (job.id, tables)
  else
    let seq := nextJobSeq tables
    let grown := tables.insertJob (newRow seq job.intoEnvelope job.lane availableAt blob)
    match job.uniqueKey with
    | none => .ok (job.id, grown)
    | some key => do
        let claimed ← insertKey grown key seq
        .ok (job.id, claimed)

/-- `insert_job`: the unique key is looked up first. -/
def insertJob (tables : Tables) (job : NewJob) (availableAt : Nat) :
    Except Error (JobId × Tables) :=
  match job.uniqueKey.bind tables.keyHolder with
  | some holder => do
      let existing ← decodeEnvelope serde holder.envelope
      .ok (existing.id, tables)
  | none => insertNew serde tables job availableAt

/-- The loop of `enqueue_batch`. -/
def insertAll (now : Nat) : Tables → List NewJob → Except Error (List JobId × Tables)
  | tables, [] => .ok ([], tables)
  | tables, job :: rest => do
      let first ← insertJob serde tables job (nanos (saturatingAdd now job.delay))
      let later ← insertAll now first.2 rest
      .ok (first.1 :: later.1, later.2)

/-- A transaction is committed, or nothing has changed. -/
def commit {α : Type} (tables : Tables) (value : α → Value)
    (result : Except Error (α × Tables)) : Tables × Reply :=
  match result with
  | .ok (returned, written) => (written, .ok (value returned))
  | .error failure => (tables, .error failure)

def enqueue (tables : Tables) (now : Nat) (job : NewJob) : Tables × Reply :=
  commit tables .jobId (insertJob serde tables job (nanos (saturatingAdd now job.delay)))

def enqueueBatch (tables : Tables) (now : Nat) (jobs : List NewJob) : Tables × Reply :=
  commit tables .jobIds (insertAll serde now tables jobs)

/-- `dead_letter_seq` of this broker. -/
def deadLetterSeq (tables : Tables) (row : JobRow) (error : String)
    (now : Nat) : Except Error Tables :=
  Sql.deadLetterSeq serde config.retention (uniqueFailed "dead.id")
    (nextDeadSeq tables) tables row.seq row.envelope error now

/-- The unbounded path of `reserve`: the update is committed before the
envelope it returns is decoded. -/
def reserveUnbounded (tables : Tables) (now : Nat)
    (mint : ReservationReceipt) (lane : Lane) : Tables × Reply :=
  match tables.nextVisible lane (nanos now) with
  | none => (tables, .ok (.reserved none))
  | some row =>
    let leased := tables.updateJob row.seq (leaseRow mint (nanos (saturatingAdd now config.lease)))
    match decodeEnvelope serde row.envelope with
    | .error failure => (leased, .error failure)
    | .ok envelope =>
      (leased, .ok (.reserved (some
        { envelope := envelope
          receipt := mint
          lease := config.lease })))

/-- The loop of the bounded path.  The first argument is how many jobs may
still be swept. -/
def reserveLoop (now : Nat) (mint : ReservationReceipt) (lane : Lane) (max : Nat) : Nat → Tables →
    Except Error (Option Reservation × Tables)
  | 0, tables => .ok (none, tables)
  | left + 1, tables =>
    match tables.nextVisible lane (nanos now) with
    | none => .ok (none, tables)
    | some row =>
      if row.deliveries + 1 > max then do
        let swept ← deadLetterSeq serde config tables row (overDeliveredText max) (nanos now)
        reserveLoop now mint lane max left swept
      else do
        let leased := tables.updateJob row.seq
          (leaseRow mint (nanos (saturatingAdd now config.lease)))
        let envelope ← decodeEnvelope serde row.envelope
        .ok (some
          { envelope := envelope
            receipt := mint
            lease := config.lease }, leased)

def reserve (tables : Tables) (now : Nat) (mint : ReservationReceipt)
    (lane : Lane) : Tables × Reply :=
  match config.maxDeliveries with
  | none => reserveUnbounded serde config tables now mint lane
  | some max =>
    commit tables .reserved (reserveLoop serde config now mint lane max maxDeadLetterSweep tables)

/-- The frame of `ack`, `retry`, `defer` and `fail`: find the row of the
receipt, then change the tables, in one transaction. -/
def resolve (tables : Tables) (receipt : ReservationReceipt) (now : Nat)
    (change : JobRow → Except Error Tables) : Tables × Reply :=
  commit tables (fun _ : Unit => .done) (do
    let row ← tables.findValidRow receipt (nanos now)
    let changed ← change row
    .ok ((), changed))

def ack (tables : Tables) (now : Nat) (receipt : ReservationReceipt) : Tables × Reply :=
  resolve tables receipt now fun row =>
    .ok ((tables.freeUniqueKey row.seq).deleteJob row.seq)

def retry (tables : Tables) (now : Nat) (receipt : ReservationReceipt)
    (delay : Nat) : Tables × Reply :=
  resolve tables receipt now fun row => do
    let envelope ← decodeEnvelope serde row.envelope
    let blob ← encodeEnvelope serde envelope.bump
    .ok (tables.updateJob row.seq (retryRow blob (nanos (saturatingAdd now delay))))

def defer (tables : Tables) (now : Nat) (receipt : ReservationReceipt)
    (delay : Nat) : Tables × Reply :=
  resolve tables receipt now fun row =>
    .ok (tables.updateJob row.seq (rescheduleRow (nanos (saturatingAdd now delay))))

def fail (tables : Tables) (now : Nat) (receipt : ReservationReceipt)
    (error : String) : Tables × Reply :=
  resolve tables receipt now fun row =>
    deadLetterSeq serde config tables row error (nanos now)

/-- Whether `extend` updates a row: `receipt = ? AND leased_until > ?`. -/
def extendable (receipt : ReservationReceipt) (now : Nat) (row : JobRow) :
    Bool :=
  decide (row.receipt = some receipt) && row.leasedUntil.any fun endsAt => decide (now < endsAt)

/-- One guarded update, stale when it changes no row. -/
def extend (tables : Tables) (now : Nat) (receipt : ReservationReceipt) : Tables × Reply :=
  let leaseUntil := nanos (saturatingAdd now config.lease)
  if tables.jobs.any (extendable receipt (nanos now)) then
    ({ tables with
        jobs := tables.jobs.map fun row =>
          if extendable receipt (nanos now) row then
            { row with leasedUntil := some leaseUntil }
          else
            row },
      .ok .done)
  else
    (tables, .error (stale receipt))

def readDeadLetters (tables : Tables) (lane : Lane) (limit : Nat) : Reply :=
  (readRows serde ((tables.deadOfLane lane).take (min limit i64Max))).map .deadLetters

/-- The insertions of `requeue`: `INSERT OR IGNORE` for the job and for its
key. -/
def requeueRow (tables : Tables) (now : Nat) (id : JobId) (row : DeadRow) :
    Except Error Tables := do
  let envelope ← decodeEnvelope serde row.envelope
  if tables.hasJob envelope.id then
    .error (.liveJobIdConflict (liveIdText id))
  else
    let seq := nextJobSeq tables
    let grown := tables.insertJob (newRow seq envelope row.lane now row.envelope)
    match row.uniqueKey with
    | none => .ok (grown.deleteDead id)
    | some key =>
      if tables.hasKey key then
        .error (.uniqueKeyHeld (keyHeldText id key))
      else
        .ok ((grown.insertKey key seq).deleteDead id)

/-- `requeue`: the record, the live id and the key are checked in turn. -/
def requeue (tables : Tables) (now : Nat) (id : JobId) : Tables × Reply :=
  commit tables (fun _ : Unit => .done) (match tables.deadById id with
    | none => .error (.broker (noDeadLetterText id))
    | some row =>
      if tables.hasJob id then
        .error (.liveJobIdConflict (liveIdText id))
      else
        match row.uniqueKey with
        | some key =>
          if tables.hasKey key then
            .error (.uniqueKeyHeld (keyHeldText id key))
          else
            (requeueRow serde tables (nanos now) id row).map ((), ·)
        | none => (requeueRow serde tables (nanos now) id row).map ((), ·))

def purgeDeadLetters (tables : Tables) (lane : Lane) : Tables × Reply :=
  let kept := tables.dead.filter fun row => decide (row.lane ≠ lane)
  ({ tables with dead := kept }, .ok (.count (tables.dead.length - kept.length)))

def enqueueScheduled (tables : Tables) (now : Nat) (scheduleId : String)
    (occurrence : Int64) (job : NewJob) : Tables × Reply :=
  commit tables .claimed (match tables.claimOccurrence scheduleId occurrence with
    | some claimed => do
        let inserted ← insertJob serde claimed job (nanos (saturatingAdd now job.delay))
        .ok (true, inserted.2)
    | none => .ok (false, tables))

def removeSchedule (tables : Tables) (scheduleId : String) : Tables × Reply :=
  ({ tables with
      schedules := Function.update tables.schedules scheduleId none },
    .ok .done)

/-- One call. -/
def perform (tables : Tables) (input : Input) : Tables × Reply :=
  match input.call with
  | .enqueue job => enqueue serde tables input.now job
  | .enqueueBatch jobs => enqueueBatch serde tables input.now jobs
  | .reserve lane => reserve serde config tables input.now input.mint lane
  | .ack receipt => ack tables input.now receipt
  | .retry receipt delay => retry serde tables input.now receipt delay
  | .defer receipt delay => defer tables input.now receipt delay
  | .fail receipt error => fail serde config tables input.now receipt error
  | .extend receipt => extend config tables input.now receipt
  | .classify id =>
    (tables, .ok (.state (classifyState (tables.stateColumn id))))
  | .readDeadLetters lane limit =>
    (tables, readDeadLetters serde tables lane limit)
  | .countDeadLetters lane =>
    (tables, .ok (.count (tables.deadOfLane lane).length))
  | .requeue id => requeue serde tables input.now id
  | .purgeDeadLetters lane => purgeDeadLetters tables lane
  | .pendingCount lane => (tables, .ok (.count (tables.pendingCount lane)))
  | .enqueueScheduled scheduleId occurrence job =>
    enqueueScheduled serde tables input.now scheduleId occurrence job
  | .removeSchedule scheduleId => removeSchedule tables scheduleId

/-- `SqliteBroker`. -/
def machine : Lib.Machine Tables Input Reply where
  initial := Tables.empty
  step := perform serde config

end Operations

end Worklane.Sqlite
