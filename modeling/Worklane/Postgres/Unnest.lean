import Mathlib.Data.List.Sort
import Worklane.Core.Json
import Worklane.Lib.Select
import Worklane.Postgres.Broker

/-!
# The batch insert as one statement

`insert_batch_unnest` sends five parallel arrays and lets one statement unnest
them, number the rows, order them and insert those that do not conflict.  The
statement looks at the whole batch at once: a row is kept when its id is
neither in the table nor in an earlier row of the batch, and every row draws
its number in the order of the batch, kept or not.  This is shown to be the
insert row by row of the broker, and the fast path to be the insert loop of
the batches with unique keys.
-/

namespace Worklane.Postgres.Unnest

open List
open Worklane.Sql

/-! ## The arrays -/

/-- The parameters of the statement.  The arrays are pushed together. -/
structure Columns where
  idStrs : List JobId
  lanes : List Lane
  priorities : List Nat
  availableAts : List Nat
  envelopes : List Blob
  lanesEven : lanes.length = idStrs.length
  prioritiesEven : priorities.length = idStrs.length
  availableAtsEven : availableAts.length = idStrs.length
  envelopesEven : envelopes.length = idStrs.length

def Columns.empty : Columns :=
  ⟨[], [], [], [], [], rfl, rfl, rfl, rfl⟩

def Columns.push (columns : Columns) (envelope : JobEnvelope)
    (availableAt : Nat) (blob : Blob) : Columns where
  idStrs := columns.idStrs ++ [envelope.id]
  lanes := columns.lanes ++ [envelope.lane]
  priorities := columns.priorities ++ [envelope.priority]
  availableAts := columns.availableAts ++ [availableAt]
  envelopes := columns.envelopes ++ [blob]
  lanesEven := by simp [columns.lanesEven]
  prioritiesEven := by simp [columns.prioritiesEven]
  availableAtsEven := by simp [columns.availableAtsEven]
  envelopesEven := by simp [columns.envelopesEven]

/-- A row of `t(id, lane, priority, available_at, envelope, ord)`. -/
structure Proposed where
  id : JobId
  lane : Lane
  priority : Nat
  availableAt : Nat
  envelope : Blob
  ord : Nat

/-- `UNNEST($1, $2, $3, $4, $5)`: arrays of one length are read in step. -/
def Columns.entries (columns : Columns) : List (JobId × Lane × Nat × Nat × Blob) :=
  columns.idStrs.zip (columns.lanes.zip (columns.priorities.zip
    (columns.availableAts.zip columns.envelopes)))

/-- `WITH ORDINALITY`: the rows are numbered from one. -/
def Columns.unnest (columns : Columns) : List Proposed :=
  (columns.entries.zipIdx 1).map fun entry =>
    { id := entry.1.1
      lane := entry.1.2.1
      priority := entry.1.2.2.1
      availableAt := entry.1.2.2.2.1
      envelope := entry.1.2.2.2.2
      ord := entry.2 }

/-! ## The statement -/

/-- `ORDER BY t.ord`. -/
def orderByOrd (rows : List Proposed) : List Proposed :=
  rows.insertionSort fun row other => row.ord ≤ other.ord

/-- `ON CONFLICT (id) DO NOTHING`: the row in this place of the statement is
inserted when the table has no job with its id and it is the first of the
statement with its id. -/
def kept (tables : Tables) (rows : List Proposed) (entry : Proposed × Nat) :
    Bool :=
  !tables.hasJob entry.1.id &&
    (rows.take entry.2).all fun earlier => decide (earlier.id ≠ entry.1.id)

/-- The row as it is stored under its number. -/
def Proposed.stored (row : Proposed) (seq : Nat) : JobRow where
  seq := seq
  id := row.id
  receipt := none
  lane := row.lane
  priority := row.priority
  availableAt := row.availableAt
  leasedUntil := none
  envelope := row.envelope
  deliveries := 0

/-- `INSERT INTO jobs ... ON CONFLICT (id) DO NOTHING` of rows in order: the
default of `seq` is drawn for each of them, before its id is found taken. -/
def insertOnConflict (db : Database) (rows : List Proposed) : Database :=
  { db with
    tables :=
      { db.tables with
        jobs := db.tables.jobs ++ (rows.zipIdx.filter (kept db.tables rows)).map fun entry =>
          entry.1.stored (db.jobsSeq + entry.2 + 1) }
    jobsSeq := db.jobsSeq + rows.length }

section

variable (serde : SerdeJson)

/-- The loop of `insert_batch_unnest`. -/
def collect (now : Nat) : Columns → List JobId → List NewJob → Except Error (Columns × List JobId)
  | columns, ids, [] => .ok (columns, ids)
  | columns, ids, job :: rest => do
      let availableAt := nanos (saturatingAdd now job.delay)
      let envelope := job.intoEnvelope
      let blob ← encodeEnvelope serde envelope
      collect now (columns.push envelope availableAt blob) (ids ++ [envelope.id]) rest

/-- `insert_batch_unnest`. -/
def insertBatchUnnest (db : Database) (now : Nat) (jobs : List NewJob) :
    Database × Except Error (List JobId) :=
  match collect serde now Columns.empty [] jobs with
  | .error failure => (db, .error failure)
  | .ok (columns, ids) =>
    match checkLanes columns.lanes with
    | .error failure => (db, .error failure)
    | .ok _ => (insertOnConflict db (orderByOrd columns.unnest), .ok ids)

end

/-! ## One row after the other -/

/-- The database after the insertion of one row. -/
def insertProposed (db : Database) (row : Proposed) : Database :=
  if db.tables.hasJob row.id then
    { db with jobsSeq := db.jobsSeq + 1 }
  else
    { db with
      tables := db.tables.insertJob (row.stored (db.jobsSeq + 1))
      jobsSeq := db.jobsSeq + 1 }

@[simp]
theorem insertProposed_jobsSeq (db : Database) (row : Proposed) :
    (insertProposed db row).jobsSeq = db.jobsSeq + 1 := by
  unfold insertProposed
  split <;> rfl

@[simp]
theorem insertProposed_deadSeq (db : Database) (row : Proposed) :
    (insertProposed db row).deadSeq = db.deadSeq := by
  unfold insertProposed
  split <;> rfl

theorem hasJob_insertProposed (db : Database) (row : Proposed) (id : JobId) :
    (insertProposed db row).tables.hasJob id = (db.tables.hasJob id || decide (row.id = id)) := by
  unfold insertProposed
  split
  · next taken =>
    by_cases same : row.id = id
    · rw [← same, taken, Bool.true_or]
    · rw [decide_eq_false same, Bool.or_false]
  · simp [Tables.hasJob, Tables.insertJob, Proposed.stored]

theorem kept_cons (db : Database) (row : Proposed) (rest : List Proposed)
    (later : Proposed) (place : Nat) :
    kept db.tables (row :: rest) (later, place + 1) =
      kept (insertProposed db row).tables rest (later, place) := by
  unfold kept
  rw [hasJob_insertProposed, take_succ_cons, all_cons, Bool.not_or, Bool.and_assoc, decide_not]

theorem insertProposed_jobs (db : Database) (row : Proposed) (rest : List Proposed) :
    (insertProposed db row).tables.jobs = db.tables.jobs ++
      ([(row, 0)].filter (kept db.tables (row :: rest))).map fun entry =>
        entry.1.stored (db.jobsSeq + entry.2 + 1) := by
  unfold insertProposed
  cases taken : db.tables.hasJob row.id with
  | true => simp [kept, taken]
  | false => simp [kept, taken, Tables.insertJob]

theorem insertProposed_tables (db : Database) (row : Proposed) (jobs : List JobRow) :
    { (insertProposed db row).tables with jobs := jobs } = { db.tables with jobs := jobs } := by
  unfold insertProposed
  split <;> rfl

theorem insertOnConflict_cons (db : Database) (row : Proposed) (rest : List Proposed) :
    insertOnConflict db (row :: rest) = insertOnConflict (insertProposed db row) rest := by
  have shifted : (rest.zipIdx 1).filter (kept db.tables (row :: rest)) =
      (rest.zipIdx.filter (kept (insertProposed db row).tables rest)).map
        (Prod.map id (· + 1)) := by
    rw [zipIdx_succ, filter_map]
    congr 1
    apply filter_congr
    intro entry _
    exact kept_cons db row rest entry.1 entry.2
  have numbered : ((rest.zipIdx 1).filter (kept db.tables (row :: rest))).map (fun entry =>
        entry.1.stored (db.jobsSeq + entry.2 + 1)) =
    (rest.zipIdx.filter (kept (insertProposed db row).tables rest)).map
      fun entry => entry.1.stored (db.jobsSeq + 1 + entry.2 + 1) := by
    rw [shifted, map_map]
    apply map_congr_left
    intro entry _
    simp only [Function.comp_apply, Prod.map_fst, Prod.map_snd, id_eq]
    congr 1
    omega
  unfold insertOnConflict
  rw [insertProposed_jobsSeq, insertProposed_deadSeq, insertProposed_tables,
    insertProposed_jobs db row rest, zipIdx_cons, append_assoc,
    ← numbered, ← map_append, ← filter_append,
    singleton_append, length_cons]
  congr 1
  omega

/-- The statement is the insertion of its rows one after the other. -/
theorem insertOnConflict_eq (db : Database) (rows : List Proposed) :
    insertOnConflict db rows = rows.foldl insertProposed db := by
  induction rows generalizing db with
  | nil => simp [insertOnConflict]
  | cons row rest ih =>
    rw [insertOnConflict_cons, ih, foldl_cons]

/-! ## The arrays are the batch -/

/-- What the loop pushes for a job with its encoded envelope. -/
def entryOf (now : Nat) (row : NewJob × Blob) : JobId × Lane × Nat × Nat × Blob :=
  (row.1.id, row.1.lane, row.1.priority, nanos (saturatingAdd now row.1.delay), row.2)

theorem entries_push (columns : Columns) (now : Nat) (job : NewJob) (blob : Blob) :
    (columns.push job.intoEnvelope (nanos (saturatingAdd now job.delay))
      blob).entries = columns.entries ++ [entryOf now (job, blob)] := by
  have lanes := columns.lanesEven
  have priorities := columns.prioritiesEven
  have availableAts := columns.availableAtsEven
  have envelopes := columns.envelopesEven
  unfold Columns.entries Columns.push
  rw [zip_append (by omega), zip_append (by simp; omega),
    zip_append (by simp; omega), zip_append (by simp; omega)]
  rfl

section

variable (serde : SerdeJson)

/-- The jobs of a batch with their encoded envelopes. -/
def encodeAll (jobs : List NewJob) : Except Error (List (NewJob × Blob)) :=
  jobs.mapM fun job => (encodeEnvelope serde job.intoEnvelope).map (job, ·)

theorem encodeAll_cons (job : NewJob) (rest : List NewJob) : encodeAll serde (job :: rest) =
      match encodeEnvelope serde job.intoEnvelope with
      | .error failure => .error failure
      | .ok blob => (encodeAll serde rest).map ((job, blob) :: ·) := by
  unfold encodeAll
  rw [mapM_cons]
  cases encodeEnvelope serde job.intoEnvelope with
  | error failure => rfl
  | ok blob =>
    cases rest.mapM fun job =>
      (encodeEnvelope serde job.intoEnvelope).map (job, ·) <;> rfl

theorem collect_cons (now : Nat) (columns : Columns) (ids : List JobId)
    (job : NewJob) (rest : List NewJob) :
    collect serde now columns ids (job :: rest) = match encodeEnvelope serde job.intoEnvelope with
      | .error failure => .error failure
      | .ok blob =>
        collect serde now (columns.push job.intoEnvelope (nanos (saturatingAdd now job.delay)) blob)
          (ids ++ [job.id]) rest := by
  rw [collect]
  cases encodeEnvelope serde job.intoEnvelope <;> rfl

theorem collect_eq (now : Nat) (columns : Columns) (ids : List JobId) (jobs : List NewJob) :
    match encodeAll serde jobs with
    | .error failure =>
      collect serde now columns ids jobs = .error failure
    | .ok rows =>
      ∃ filled : Columns, filled.entries = columns.entries ++ rows.map (entryOf now) ∧
        filled.lanes = columns.lanes ++ jobs.map NewJob.lane ∧
        collect serde now columns ids jobs = .ok (filled, ids ++ jobs.map NewJob.id) := by
  induction jobs generalizing columns ids with
  | nil => exact ⟨columns, by simp, by simp, by simp [collect]⟩
  | cons job rest ih =>
    rw [encodeAll_cons]
    simp only [collect_cons]
    cases encoded : encodeEnvelope serde job.intoEnvelope with
    | error failure => rfl
    | ok blob =>
      have later := ih (columns.push job.intoEnvelope
          (nanos (saturatingAdd now job.delay)) blob) (ids ++ [job.id])
      cases others : encodeAll serde rest with
      | error failure =>
        rw [others] at later
        exact later
      | ok rows =>
        rw [others] at later
        obtain ⟨filled, entries, lanes, collected⟩ := later
        refine ⟨filled, ?_, ?_, ?_⟩
        · rw [entries, entries_push, append_assoc]
          rfl
        · rw [lanes, Columns.push, append_assoc]
          rfl
        · simp only [collected, map_cons, append_assoc, singleton_append]

theorem orderByOrd_unnest (columns : Columns) : orderByOrd columns.unnest = columns.unnest := by
  apply List.Pairwise.insertionSort_eq
  unfold Columns.unnest
  rw [pairwise_map]
  have ascending : (columns.entries.zipIdx 1).Pairwise fun entry other => entry.2 < other.2 := by
    have numbers : (List.range' 1 columns.entries.length).Pairwise (· < ·) := pairwise_lt_range'
    rw [← zipIdx_map_snd 1 columns.entries, pairwise_map] at numbers
    exact numbers
  exact ascending.imp fun before => Nat.le_of_lt before

theorem insertProposed_entry (db : Database) (now ord : Nat) (job : NewJob) (blob : Blob) :
    insertProposed db ⟨job.id, job.lane, job.priority,
          nanos (saturatingAdd now job.delay), blob, ord⟩ =
      (insertRow db job (nanos (saturatingAdd now job.delay)) blob).1 := by
  unfold insertProposed insertRow
  split <;> rfl

theorem insertRows_eq (db : Database) (now start : Nat) (rows : List (NewJob × Blob)) :
    (((rows.map (entryOf now)).zipIdx start).map fun entry =>
      (⟨entry.1.1, entry.1.2.1, entry.1.2.2.1, entry.1.2.2.2.1,
        entry.1.2.2.2.2, entry.2⟩ : Proposed)).foldl insertProposed db =
      insertRows now db rows := by
  induction rows generalizing db start with
  | nil => rfl
  | cons row rest ih =>
    rw [map_cons, zipIdx_cons, map_cons, foldl_cons, ih]
    unfold entryOf
    rw [insertProposed_entry]
    rfl

theorem rowByRow_eq (db : Database) (now : Nat) (jobs : List NewJob) :
    Postgres.insertBatchUnnest serde db now jobs = match encodeAll serde jobs with
      | .error failure => (db, .error failure)
      | .ok rows =>
        match checkLanes (jobs.map NewJob.lane) with
        | .error failure => (db, .error failure)
        | .ok _ => (insertRows now db rows, .ok (jobs.map NewJob.id)) := rfl

/-- The statement is the broker's insert row by row. -/
theorem insertBatchUnnest_eq (db : Database) (now : Nat) (jobs : List NewJob) :
    insertBatchUnnest serde db now jobs =
      Postgres.insertBatchUnnest serde db now jobs := by
  have collected := collect_eq serde now Columns.empty [] jobs
  rw [rowByRow_eq]
  unfold insertBatchUnnest
  cases encoded : encodeAll serde jobs with
  | error failure =>
    rw [encoded] at collected
    rw [collected]
  | ok rows =>
    rw [encoded] at collected
    obtain ⟨filled, entries, lanes, result⟩ := collected
    rw [result]
    have rowByRow : insertOnConflict db (orderByOrd filled.unnest) =
        insertRows now db rows := by
      rw [orderByOrd_unnest, insertOnConflict_eq, Columns.unnest, entries]
      exact insertRows_eq db now 1 rows
    rw [Columns.empty, nil_append] at lanes
    simp only [rowByRow, nil_append, lanes]

end

/-! ## The fast path and the insert loop -/

section

variable {serde : SerdeJson}

theorem insertJob_keyless (db : Database) {job : NewJob}
    (keyless : job.uniqueKey = none) (availableAt : Nat) :
    insertJob serde db job availableAt = match encodeRow serde job with
      | .error failure => (db, .error failure)
      | .ok blob => ((insertRow db job availableAt blob).1, .ok job.id) := by
  unfold insertJob insertNew
  rw [keyless]
  cases encodeRow serde job with
  | error failure => rfl
  | ok blob =>
    simp only
    split
    · next stored => rw [stored]
    · next stored => rw [stored]

theorem checkLanes_cons (lane : Lane) (rest : List Lane) : checkLanes (lane :: rest) =
      match checkText lane.name with
      | .error failure => .error failure
      | .ok _ => checkLanes rest := by
  unfold checkLanes
  rw [List.forM]
  cases checkText lane.name <;> rfl

theorem checkLanes_ok {jobs : List NewJob}
    (sendable : ∀ job ∈ jobs, checkText job.lane.name = .ok ()) :
    checkLanes (jobs.map NewJob.lane) = .ok () := by
  induction jobs with
  | nil => rfl
  | cons job rest ih =>
    rw [map_cons, checkLanes_cons, sendable job (mem_cons_self ..)]
    exact ih fun other member => sendable other (mem_cons_of_mem _ member)

theorem encodeAll_ok {jobs : List NewJob}
    (encodable : ∀ job ∈ jobs, ∃ blob, encodeEnvelope serde job.intoEnvelope = .ok blob) :
    ∃ rows, encodeAll serde jobs = .ok rows := by
  induction jobs with
  | nil => exact ⟨[], rfl⟩
  | cons job rest ih =>
    obtain ⟨blob, encoded⟩ := encodable job (mem_cons_self ..)
    obtain ⟨rows, others⟩ := ih fun other member => encodable other (mem_cons_of_mem _ member)
    exact ⟨(job, blob) :: rows, by rw [encodeAll_cons, encoded, others]; rfl⟩

/-- The loop over jobs without unique keys inserts the rows of the batch, or it
stops at the first job that cannot be encoded or whose lane cannot be sent.  The
statement encodes all jobs before it sends a lane, so with jobs of both kinds it
may find another one at fault. -/
theorem insertAll_keyless (now : Nat) (db : Database) (jobs : List NewJob)
    (keyless : ∀ job ∈ jobs, job.uniqueKey = none) :
    match encodeAll serde jobs, checkLanes (jobs.map NewJob.lane) with
    | .ok rows, .ok _ => insertAll serde now db jobs =
        (insertRows now db rows, .ok (jobs.map NewJob.id))
    | .error failure, .ok _ => (insertAll serde now db jobs).2 = .error failure
    | .ok _, .error failure => (insertAll serde now db jobs).2 = .error failure
    | .error _, .error _ => ∃ failure, (insertAll serde now db jobs).2 = .error failure := by
  induction jobs generalizing db with
  | nil => rfl
  | cons job rest ih =>
    have head := @insertJob_keyless serde db job (keyless job (mem_cons_self ..))
      (nanos (saturatingAdd now job.delay))
    unfold encodeRow at head
    rw [encodeAll_cons, map_cons, checkLanes_cons]
    unfold insertAll
    cases encoded : encodeEnvelope serde job.intoEnvelope with
    | error failure =>
      -- the first job is the one at fault on both paths, if the lanes are fine
      rw [encoded] at head
      simp only [head]
      cases checkText job.lane.name with
      | error _ => exact ⟨failure, rfl⟩
      | ok _ =>
        cases checkLanes (rest.map NewJob.lane) with
        | error _ => exact ⟨failure, rfl⟩
        | ok _ => rfl
    | ok blob =>
      rw [encoded] at head
      cases sent : checkText job.lane.name with
      | error failure =>
        rw [sent] at head
        simp only [head, Except.map]
        cases encodeAll serde rest with
        | error _ => exact ⟨failure, rfl⟩
        | ok _ => rfl
      | ok _ =>
        rw [sent] at head
        have later := ih (insertRow db job (nanos (saturatingAdd now job.delay)) blob).1
          fun other member => keyless other (mem_cons_of_mem _ member)
        simp only [head, Except.map]
        cases others : encodeAll serde rest with
        | error failure =>
          cases lanes : checkLanes (rest.map NewJob.lane) with
          | error _ =>
            rw [others, lanes] at later
            obtain ⟨first, failed⟩ := later
            exact ⟨first, by simp only [failed]⟩
          | ok _ =>
            rw [others, lanes] at later
            simp only at later
            simp only [later]
        | ok rows =>
          cases lanes : checkLanes (rest.map NewJob.lane) with
          | error failure =>
            rw [others, lanes] at later
            simp only at later
            simp only [later]
          | ok _ =>
            rw [others, lanes] at later
            simp only at later
            simp only [later, insertRows, map_cons]

/-- A batch without unique keys goes to the one statement, and that statement
does what the insert loop does: it returns the ids of the batch in order and
leaves the same rows under the same numbers, or it reports an error and stores
nothing.  The error is the same one, but for a batch with both a job that cannot
be encoded and a lane that cannot be sent, where either may be reported. -/
theorem fastPath_eq_insertAll (db : Database) (now : Nat)
    (jobs : List NewJob) (keyless : ∀ job ∈ jobs, job.uniqueKey = none) :
    enqueueBatch serde db now jobs = transaction db .jobIds (insertBatchUnnest serde db now jobs) ∧
      ((transaction db .jobIds (insertBatchUnnest serde db now jobs) =
            transaction db .jobIds (insertAll serde now db jobs) ∧
          (transaction db .jobIds (insertAll serde now db jobs)).2 =
            .ok (.jobIds (jobs.map NewJob.id))) ∨
        ∃ failure first, (transaction db .jobIds (insertBatchUnnest serde db now jobs)).2 =
              .error failure ∧
            (transaction db .jobIds (insertAll serde now db jobs)).2 = .error first ∧
            (((∀ job ∈ jobs, checkText job.lane.name = .ok ()) ∨
                ∀ job ∈ jobs, ∃ blob, encodeEnvelope serde job.intoEnvelope = .ok blob) →
              first = failure) ∧
            (transaction db .jobIds (insertBatchUnnest serde db now jobs)).1.tables = db.tables ∧
            (transaction db .jobIds (insertAll serde now db jobs)).1.tables = db.tables) := by
  have loop := @insertAll_keyless serde now db jobs keyless
  have fast : (jobs.all fun job => job.uniqueKey.isNone) = true := by
    rw [all_eq_true]
    intro job member
    rw [keyless job member]
    rfl
  refine ⟨?_, ?_⟩
  · unfold enqueueBatch
    rw [if_pos fast, insertBatchUnnest_eq]
  rw [insertBatchUnnest_eq, rowByRow_eq]
  cases encoded : encodeAll serde jobs with
  | error failure =>
    right
    cases lanes : checkLanes (jobs.map NewJob.lane) with
    | error refused =>
      rw [encoded, lanes] at loop
      obtain ⟨first, failed⟩ := loop
      refine ⟨failure, first, rfl, by simp only [transaction, failed], ?_, rfl,
        by simp only [transaction, failed]⟩
      rintro (sendable | encodable)
      · rw [checkLanes_ok sendable] at lanes
        cases lanes
      · obtain ⟨rows, all⟩ := encodeAll_ok encodable
        rw [all] at encoded
        cases encoded
    | ok _ =>
      rw [encoded, lanes] at loop
      simp only at loop
      exact ⟨failure, failure, rfl, by simp only [transaction, loop], fun _ => rfl, rfl,
        by simp only [transaction, loop]⟩
  | ok rows =>
    cases lanes : checkLanes (jobs.map NewJob.lane) with
    | error failure =>
      rw [encoded, lanes] at loop
      simp only at loop
      exact .inr ⟨failure, failure, rfl, by simp only [transaction, loop], fun _ => rfl, rfl,
        by simp only [transaction, loop]⟩
    | ok _ =>
      rw [encoded, lanes] at loop
      simp only at loop
      left
      rw [loop]
      exact ⟨rfl, rfl⟩

end

/-- A batch that repeats an id and names a live one. -/
def repeated : List NewJob :=
  [⟨⟨⟨1⟩⟩, ⟨"mail"⟩, "send", [], 3, 0, none, 4, none⟩,
    ⟨⟨⟨2⟩⟩, ⟨"mail"⟩, "send", [], 3, 9, none, 4, none⟩,
    ⟨⟨⟨2⟩⟩, ⟨"default"⟩, "send", [], 3, 0, none, 1, none⟩,
    ⟨⟨⟨3⟩⟩, ⟨"mail"⟩, "send", [], 3, 0, none, 4, none⟩]

/-- A database in which the job of the first entry is live. -/
def firstLive : Database :=
  (insertAll Json.serde 0 Database.empty (repeated.take 1)).1

theorem repeated_inserted : (∀ job ∈ repeated, job.uniqueKey = none) ∧
      ((enqueueBatch Json.serde firstLive 5 repeated).1.tables.jobs.map
          fun row => (row.seq, row.id)) =
        [(1, ⟨⟨1⟩⟩), (3, ⟨⟨2⟩⟩), (5, ⟨⟨3⟩⟩)] ∧
      transaction firstLive .jobIds (insertBatchUnnest Json.serde firstLive 5 repeated) =
        transaction firstLive .jobIds (insertAll Json.serde 5 firstLive repeated) := by
  have keyless : ∀ job ∈ repeated, job.uniqueKey = none := by decide
  obtain ⟨same, outcome⟩ := @fastPath_eq_insertAll Json.serde firstLive 5 repeated keyless
  have accepted : (transaction firstLive Value.jobIds
      (insertAll Json.serde 5 firstLive repeated)).2.toOption.isSome =
        true := by
    decide +kernel
  rcases outcome with ⟨equal, _⟩ | ⟨failure, first, _, refused, _⟩
  · refine ⟨keyless, ?_, equal⟩
    rw [same, equal]
    decide +kernel
  · rw [refused] at accepted
    cases accepted

end Worklane.Postgres.Unnest
