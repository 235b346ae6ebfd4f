import Worklane.Core.Broker
import Worklane.Lib.Select

/-!
# The SQL tables

The tables the SQLite and Postgres brokers share, and the statements both run
on them.  A table is the list of its rows in `seq` order: a new row gets a
larger `seq` than the rows that are there, so inserting appends.  A text
column that holds a job id, a receipt or a lane is that value.

A transaction takes the tables and either fails, which rolls it back, or
returns its result with the tables it leaves.
-/

namespace Worklane.Sql

structure JobRow where
  seq : Nat
  id : JobId
  receipt : Option ReservationReceipt
  lane : Lane
  priority : Nat
  availableAt : Nat
  leasedUntil : Option Nat
  envelope : Blob
  deliveries : Nat
  deriving DecidableEq, Repr

structure DeadRow where
  seq : Nat
  id : JobId
  lane : Lane
  envelope : Blob
  error : String
  uniqueKey : Option String
  deadAt : Nat
  deriving DecidableEq, Repr

/-- A row of `unique_keys`. -/
structure KeyRow where
  key : String
  seq : Nat
  deriving DecidableEq, Repr

/-- `schedules` has its id as primary key: a row is present or absent. -/
structure Tables where
  jobs : List JobRow
  dead : List DeadRow
  uniqueKeys : List KeyRow
  schedules : String → Option Int64

def Tables.empty : Tables where
  jobs := []
  dead := []
  uniqueKeys := []
  schedules := fun _ => none

/-! ## Live jobs -/

/-- `lane = ? AND available_at <= ? AND (leased_until IS NULL OR
leased_until <= ?)`. -/
def visible (lane : Lane) (now : Nat) (row : JobRow) : Bool :=
  decide (row.lane = lane) && decide (row.availableAt ≤ now) &&
    row.leasedUntil.all fun endsAt => decide (endsAt ≤ now)

/-- `ORDER BY priority DESC, available_at ASC, seq ASC`. -/
def ordersBefore (row other : JobRow) : Bool :=
  decide (other.priority < row.priority) || (decide (row.priority = other.priority) &&
      (decide (row.availableAt < other.availableAt) ||
        (decide (row.availableAt = other.availableAt) && decide (row.seq < other.seq))))

/-- The visible row of `lane` that orders first. -/
def Tables.nextVisible (tables : Tables) (lane : Lane) (now : Nat) :
    Option JobRow :=
  (Lib.bestIndex (visible lane now) ordersBefore tables.jobs).bind fun index => tables.jobs[index]?

/-- `SELECT 1 FROM jobs WHERE id = ?`. -/
def Tables.hasJob (tables : Tables) (id : JobId) : Bool :=
  tables.jobs.any fun row => decide (row.id = id)

/-- `SELECT ... FROM jobs WHERE receipt = ?`. -/
def Tables.byReceipt (tables : Tables) (receipt : ReservationReceipt) :
    Option JobRow :=
  tables.jobs.find? fun row => row.receipt = some receipt

/-- `find_valid_row`, `find_valid_row_locked`. -/
def Tables.findValidRow (tables : Tables) (receipt : ReservationReceipt)
    (now : Nat) : Except Error JobRow :=
  match tables.byReceipt receipt with
  | none => .error (stale receipt)
  | some row =>
    if row.leasedUntil.any fun endsAt => decide (now < endsAt) then
      .ok row
    else
      .error (stale receipt)

/-- `UPDATE jobs SET ... WHERE seq = ?`. -/
def Tables.updateJob (tables : Tables) (seq : Nat) (change : JobRow → JobRow) : Tables :=
  { tables with
    jobs := tables.jobs.map fun row =>
      if row.seq = seq then change row else row }

/-- `DELETE FROM jobs WHERE seq = ?`. -/
def Tables.deleteJob (tables : Tables) (seq : Nat) : Tables :=
  { tables with
    jobs := tables.jobs.filter fun row => decide (row.seq ≠ seq) }

/-- The row an insertion writes: no receipt, no lease, no delivery. -/
def newRow (seq : Nat) (envelope : JobEnvelope) (lane : Lane)
    (availableAt : Nat) (blob : Blob) : JobRow where
  seq := seq
  id := envelope.id
  receipt := none
  lane := lane
  priority := envelope.priority
  availableAt := availableAt
  leasedUntil := none
  envelope := blob
  deliveries := 0

@[simp]
theorem newRow_seq (seq : Nat) (envelope : JobEnvelope) (lane : Lane)
    (availableAt : Nat) (blob : Blob) :
    (newRow seq envelope lane availableAt blob).seq = seq := rfl

def Tables.insertJob (tables : Tables) (row : JobRow) : Tables :=
  { tables with jobs := tables.jobs ++ [row] }

/-- `SET receipt = ?, leased_until = ?, deliveries = deliveries + 1`. -/
def leaseRow (receipt : ReservationReceipt) (leaseUntil : Nat) (row : JobRow) : JobRow :=
  { row with
    receipt := some receipt
    leasedUntil := some leaseUntil
    deliveries := row.deliveries + 1 }

/-- `SET available_at = ?, leased_until = NULL, receipt = NULL`. -/
def rescheduleRow (availableAt : Nat) (row : JobRow) : JobRow :=
  { row with
    availableAt := availableAt
    leasedUntil := none
    receipt := none }

/-- `rescheduleRow` with a new envelope. -/
def retryRow (blob : Blob) (availableAt : Nat) (row : JobRow) : JobRow :=
  { rescheduleRow availableAt row with envelope := blob }

/-! ## Unique keys -/

/-- `SELECT ... FROM unique_keys u JOIN jobs j ON j.seq = u.seq WHERE
u.unique_key = ?`. -/
def Tables.keyHolder (tables : Tables) (key : String) : Option JobRow :=
  (tables.uniqueKeys.find? fun row => row.key = key).bind fun found =>
    tables.jobs.find? fun row => row.seq = found.seq

/-- `SELECT 1 FROM unique_keys WHERE unique_key = ?`. -/
def Tables.hasKey (tables : Tables) (key : String) : Bool :=
  tables.uniqueKeys.any fun row => decide (row.key = key)

/-- `SELECT unique_key FROM unique_keys WHERE seq = ?`. -/
def Tables.keyOf (tables : Tables) (seq : Nat) : Option String :=
  (tables.uniqueKeys.find? fun row => row.seq = seq).map KeyRow.key

/-- `INSERT INTO unique_keys`, where the key is not there yet. -/
def Tables.insertKey (tables : Tables) (key : String) (seq : Nat) :
    Tables :=
  { tables with uniqueKeys := tables.uniqueKeys ++ [⟨key, seq⟩] }

/-- `free_unique_key`: `DELETE FROM unique_keys WHERE seq = ?`. -/
def Tables.freeUniqueKey (tables : Tables) (seq : Nat) : Tables :=
  { tables with
    uniqueKeys := tables.uniqueKeys.filter fun row =>
      decide (row.seq ≠ seq) }

/-! ## Dead letters -/

def Tables.hasDead (tables : Tables) (id : JobId) : Bool :=
  tables.dead.any fun row => decide (row.id = id)

/-- `DELETE FROM dead WHERE lane = ? AND dead_at < ?`. -/
def pruneByAge (lane : Lane) (cutoff : Int) (dead : List DeadRow) :
    List DeadRow :=
  dead.filter fun row =>
    decide (¬ (row.lane = lane ∧ (row.deadAt : Int) < cutoff))

/-- `DELETE FROM dead WHERE lane = ? AND seq NOT IN (SELECT seq FROM dead
WHERE lane = ? ORDER BY seq DESC LIMIT ?)`. -/
def pruneByCount (lane : Lane) (keep : Nat) (dead : List DeadRow) :
    List DeadRow :=
  let kept := ((dead.filter fun row => row.lane = lane).reverse.take keep).map DeadRow.seq
  dead.filter fun row => decide (¬ (row.lane = lane ∧ row.seq ∉ kept))

/-- `prune_dead_letters`. -/
def pruneDeadLetters (policy : RetentionPolicy) (lane : Lane) (now : Nat)
    (dead : List DeadRow) : List DeadRow :=
  if policy.isUnbounded then
    dead
  else
    let young :=
      match policy.ageCutoffNanos now with
      | some cutoff => pruneByAge lane cutoff dead
      | none => dead
    match policy.keepCount with
    | some keep => pruneByCount lane keep young
    | none => young

/-- `dead_letter_seq`.  `deadSeq` is the row number the insertion gets and
`taken` the error of the unique index on `dead.id`. -/
def deadLetterSeq (serde : SerdeJson) (policy : RetentionPolicy)
    (taken : Error) (deadSeq : Nat) (tables : Tables) (seq : Nat)
    (blob : Blob) (error : String) (now : Nat) : Except Error Tables := do
  let envelope ← decodeEnvelope serde blob
  if tables.hasDead envelope.id then
    .error taken
  else
    let row : DeadRow :=
      { seq := deadSeq
        id := envelope.id
        lane := envelope.lane
        envelope := blob
        error := error
        uniqueKey := tables.keyOf seq
        deadAt := now }
    let moved := (tables.freeUniqueKey seq).deleteJob seq
    .ok { moved with
      dead := pruneDeadLetters policy envelope.lane now (tables.dead ++ [row]) }

/-- `SELECT envelope, lane, unique_key FROM dead WHERE id = ?`. -/
def Tables.deadById (tables : Tables) (id : JobId) : Option DeadRow :=
  tables.dead.find? fun row => row.id = id

/-- `DELETE FROM dead WHERE id = ?`. -/
def Tables.deleteDead (tables : Tables) (id : JobId) : Tables :=
  { tables with
    dead := tables.dead.filter fun row => decide (row.id ≠ id) }

/-- `SELECT ... FROM dead WHERE lane = ? ORDER BY seq`. -/
def Tables.deadOfLane (tables : Tables) (lane : Lane) : List DeadRow :=
  tables.dead.filter fun row => row.lane = lane

/-- The rows of a dead-letter read, decoded one by one. -/
def readRows (serde : SerdeJson) : List DeadRow → Except Error (List DeadLetter)
  | [] => .ok []
  | row :: rest => do
      let envelope ← decodeEnvelope serde row.envelope
      let later ← readRows serde rest
      .ok ({ envelope := envelope, error := row.error } :: later)

/-! ## Schedules and counts -/

/-- `INSERT INTO schedules ... ON CONFLICT(schedule_id) DO UPDATE ... WHERE
schedules.occurrence < excluded.occurrence`: the tables and whether a row was
written. -/
def Tables.claimOccurrence (tables : Tables) (scheduleId : String)
    (occurrence : Int64) : Option Tables :=
  let written :=
    { tables with
      schedules := Function.update tables.schedules scheduleId (some occurrence) }
  match tables.schedules scheduleId with
  | none => some written
  | some last => if last < occurrence then some written else none

/-- `SELECT 1 FROM jobs WHERE id = ? UNION ALL SELECT 2 FROM dead WHERE
id = ? LIMIT 1`. -/
def Tables.stateColumn (tables : Tables) (id : JobId) : Option Int :=
  let live := tables.jobs.filter fun row => row.id = id
  let dead := tables.dead.filter fun row => row.id = id
  (live.map (fun _ => (1 : Int)) ++ dead.map fun _ => 2).head?

/-- `SELECT COUNT(*) FROM jobs WHERE lane = ?`. -/
def Tables.pendingCount (tables : Tables) (lane : Lane) : Nat :=
  (tables.jobs.filter fun row => row.lane = lane).length

end Worklane.Sql
