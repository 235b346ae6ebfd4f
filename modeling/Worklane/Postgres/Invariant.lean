import Worklane.Sql.Changes
import Worklane.Postgres.Broker

/-!
# The tables of the Postgres broker

As for SQLite, every call is a list of elementary changes of the tables.  The
numbers the sequences give out stay ahead of the rows, whether or not the
transaction that drew them was committed.
-/

namespace Worklane.Postgres

open List
open Worklane.Sql
open Lib.Lease (Action)

/-- The rows are numbered up to where the sequences are. -/
structure Numbered (db : Database) : Prop where
  jobs : ∀ row ∈ db.tables.jobs, row.seq ≤ db.jobsSeq
  dead : ∀ row ∈ db.tables.dead, row.seq ≤ db.deadSeq

/-- The invariant of the database. -/
structure Ready (serde : SerdeJson) (db : Database) : Prop where
  tidy : Tidy serde db.tables
  numbered : Numbered db

theorem ready_empty (serde : SerdeJson) : Ready serde Database.empty where
  tidy := tidy_empty serde
  numbered := by
    constructor <;> simp [Database.empty, Tables.empty]

/-- Sequences are never set back. -/
structure Grows (db next : Database) : Prop where
  jobs : db.jobsSeq ≤ next.jobsSeq
  dead : db.deadSeq ≤ next.deadSeq

theorem Grows.refl (db : Database) : Grows db db :=
  ⟨le_refl _, le_refl _⟩

theorem Grows.trans {db middle next : Database} (left : Grows db middle)
    (right : Grows middle next) : Grows db next :=
  ⟨left.jobs.trans right.jobs, left.dead.trans right.dead⟩

section Numbers

variable {db : Database} {before after : List JobRow} {row row' : JobRow}

theorem Numbered.rollback (numbered : Numbered db) {next : Database} (grows : Grows db next) :
    Numbered { next with tables := db.tables } where
  jobs := fun row member => (numbered.jobs row member).trans grows.jobs
  dead := fun row member => (numbered.dead row member).trans grows.dead

theorem Numbered.replace (numbered : Numbered db) (split : db.tables.jobs = before ++ row :: after)
    (seq : row'.seq = row.seq) :
    Numbered
      { db with
        tables := { db.tables with jobs := before ++ row' :: after } } where
  jobs := by
    have bound := numbered.jobs
    rw [split] at bound
    intro other member
    simp only [mem_append, mem_cons] at bound member
    rcases member with early | rfl | late
    · exact bound other (Or.inl early)
    · rw [seq]
      exact bound row (Or.inr (Or.inl rfl))
    · exact bound other (Or.inr (Or.inr late))
  dead := numbered.dead

theorem Numbered.remove (numbered : Numbered db) (split : db.tables.jobs = before ++ row :: after)
    {keys : List KeyRow} {dead : List DeadRow} {deadSeq : Nat}
    (below : ∀ record ∈ dead, record.seq ≤ deadSeq) :
    Numbered
      { db with
        tables :=
          { db.tables with
            jobs := before ++ after, uniqueKeys := keys, dead := dead }
        deadSeq := deadSeq } where
  jobs := by
    intro other member
    apply numbered.jobs other
    rw [split]
    simp only [mem_append, mem_cons] at member ⊢
    tauto
  dead := below

theorem Numbered.insert (numbered : Numbered db) {key : Option String}
    (seq : row.seq = db.jobsSeq + 1) :
    Numbered
      { db with
        tables := db.tables.withRow row key, jobsSeq := db.jobsSeq + 1 }
    where
  jobs := by
    intro other member
    rcases mem_append.mp member with old | new
    · exact (numbered.jobs other old).trans (Nat.le_succ _)
    · rw [mem_singleton.mp new, seq]
  dead := numbered.dead

theorem Numbered.drawn (numbered : Numbered db) :
    Numbered { db with jobsSeq := db.jobsSeq + 1 } where
  jobs := fun row member =>
    (numbered.jobs row member).trans (Nat.le_succ _)
  dead := numbered.dead

theorem Numbered.nextJob (numbered : Numbered db) :
    ∀ other ∈ db.tables.jobs, other.seq < db.jobsSeq + 1 :=
  fun other member => Nat.lt_succ_of_le (numbered.jobs other member)

theorem Numbered.nextDead (numbered : Numbered db) :
    ∀ other ∈ db.tables.dead, other.seq < db.deadSeq + 1 :=
  fun other member => Nat.lt_succ_of_le (numbered.dead other member)

theorem Numbered.buried (numbered : Numbered db) (policy : RetentionPolicy)
    (lane : Lane) (now : Nat) (error : String) :
    ∀ record ∈ pruneDeadLetters policy lane now (db.tables.dead ++
        [deadRecord (db.deadSeq + 1) db.tables row error now]),
      record.seq ≤ db.deadSeq + 1 := by
  intro record member
  have inside := (pruneDeadLetters_sublist ..).subset member
  rcases mem_append.mp inside with old | new
  · exact (numbered.dead record old).trans (Nat.le_succ _)
  · rw [mem_singleton.mp new]
    exact le_refl _

end Numbers

/-! ## Calls as changes -/

section Calls

variable {serde : SerdeJson} {config : Config} {db : Database}
variable {now : Nat} {mint : ReservationReceipt} {brought : List JobId}

/-- A committed transaction. -/
structure Advances (serde : SerdeJson) (config : Config) (now : Nat)
    (mint : ReservationReceipt) (brought : List JobId) (db : Database)
    (actions : List (Action JobId ReservationReceipt)) (next : Database) :
    Prop where
  changes : CallChanges serde config now mint brought db.tables actions next.tables
  numbered : Numbered next

theorem Advances.refl (numbered : Numbered db) : Advances serde config now mint brought db [] db :=
  ⟨.refl _, numbered⟩

variable {next : Database}

theorem Advances.trans {middle : Database} {first rest : List (Action JobId ReservationReceipt)}
    (left : Advances serde config now mint brought db first middle)
    (right : Advances serde config now mint brought middle rest next) :
    Advances serde config now mint brought db (first ++ rest) next :=
  ⟨left.changes.trans right.changes, right.numbered⟩

variable {actions : List (Action JobId ReservationReceipt)}

theorem Advances.ready (advances : Advances serde config now mint brought db actions next)
    (ready : Ready serde db) : Ready serde next :=
  ⟨advances.changes.tidy ready.tidy, advances.numbered⟩

/-- The body of a transaction: what it does if it is committed. -/
structure Transacts {α : Type} (serde : SerdeJson) (config : Config)
    (now : Nat) (mint : ReservationReceipt) (brought : List JobId) (db : Database)
    (actions : α → List (Action JobId ReservationReceipt))
    (result : Database × Except Error α) : Prop where
  grows : Grows db result.1
  commits : ∀ returned, result.2 = .ok returned →
    Advances serde config now mint brought db (actions returned) result.1

theorem Transacts.failed {α : Type} (grows : Grows db next) (failure : Error)
    (actions : α → List (Action JobId ReservationReceipt)) :
    Transacts serde config now mint brought db actions (next, (.error failure : Except Error α)) :=
  ⟨grows, fun _ impossible => nomatch impossible⟩

theorem Transacts.done {α : Type} {returned : α}
    {actions : α → List (Action JobId ReservationReceipt)}
    (grows : Grows db next)
    (advances : Advances serde config now mint brought db (actions returned) next) :
    Transacts serde config now mint brought db actions (next, .ok returned) := by
  refine ⟨grows, ?_⟩
  rintro _ ⟨⟩
  exact advances

/-- A call is a list of changes, and the rows stay numbered. -/
structure Performs (serde : SerdeJson) (config : Config) (db : Database)
    (input : Input) (outcome : Database × Reply) : Prop where
  changes : IsChanges serde config db.tables input (outcome.1.tables, outcome.2)
  numbered : Numbered outcome.1

theorem Performs.rejected (numbered : Numbered db) (input : Input) (failure : Error) :
    Performs serde config db input (db, .error failure) :=
  ⟨rejected_isChanges .., numbered⟩

theorem Performs.onLane (numbered : Numbered db) {input : Input} (lane : Lane)
    {outcome : Database × Reply} (performs : Performs serde config db input outcome) :
    Performs serde config db input (onLane lane db outcome) := by
  unfold Postgres.onLane
  split
  · exact .rejected numbered ..
  · exact performs

theorem transaction_performs {α : Type} {input : Input}
    {value : α → Value} {result : Database × Except Error α}
    (numbered : Numbered db)
    (transacts : Transacts serde config input.now input.mint (Sql.brought input) db
      (fun returned => (leaseAction (input, .ok (value returned))).active)
      result) :
    Performs serde config db input (transaction db value result) := by
  unfold transaction
  split
  · next returned ok =>
    have advances := transacts.commits returned ok
    exact ⟨advances.changes, advances.numbered⟩
  · exact ⟨rejected_isChanges .., numbered.rollback transacts.grows⟩

/-! ### Insertions -/

/-- The key of a new job, as a parameter. -/
def checkKey (job : NewJob) : Except Error Unit :=
  match job.uniqueKey with
  | none => .ok ()
  | some key => checkText key

theorem encodeRow_ok_iff {job : NewJob} {blob : Blob} : encodeRow serde job = .ok blob ↔
      encodeEnvelope serde job.intoEnvelope = .ok blob ∧ checkText job.lane.name = .ok () := by
  unfold encodeRow
  cases encodeEnvelope serde job.intoEnvelope with
  | error failure => simp
  | ok other => cases checkText job.lane.name <;> simp [Except.map]

theorem insertRow_live {job : NewJob} (live : db.tables.hasJob job.id = true)
    (availableAt : Nat) (blob : Blob) :
    insertRow db job availableAt blob = ({ db with jobsSeq := db.jobsSeq + 1 }, none) := by
  unfold insertRow
  rw [if_pos live]

theorem insertRow_new {job : NewJob} (absent : ¬ db.tables.hasJob job.id = true)
    (availableAt : Nat) (blob : Blob) :
    insertRow db job availableAt blob =
      ({ db with
          tables := db.tables.withRow (newRow (db.jobsSeq + 1) job.intoEnvelope job.lane availableAt
              blob) none
          jobsSeq := db.jobsSeq + 1 },
        some (db.jobsSeq + 1)) := by
  unfold insertRow
  rw [if_neg absent]
  simp [Tables.withRow, Tables.insertJob]

/-- `insert_job` on tidy tables: a key that is free is claimed at the first
attempt. -/
theorem insertJob_eq (tidy : Tidy serde db.tables) (job : NewJob) (availableAt : Nat) :
    insertJob serde db job availableAt = match checkKey job, job.uniqueKey.bind db.tables.keyHolder,
        encodeRow serde job with
      | .error failure, _, _ => (db, .error failure)
      | .ok _, some holder, _ => (db, .ok holder.id)
      | .ok _, none, .error failure => (db, .error failure)
      | .ok _, none, .ok blob =>
        if db.tables.hasJob job.id = true then
          ({ db with jobsSeq := db.jobsSeq + 1 }, .ok job.id)
        else
          ({ db with
              tables := db.tables.withRow (newRow (db.jobsSeq + 1) job.intoEnvelope job.lane
                  availableAt blob) job.uniqueKey
              jobsSeq := db.jobsSeq + 1 },
            .ok job.id) := by
  unfold insertJob checkKey
  cases key : job.uniqueKey with
  | none =>
    simp only [Option.bind_none, insertNew]
    cases encodeRow serde job with
    | error failure => rfl
    | ok blob =>
      by_cases live : db.tables.hasJob job.id = true
      · simp only [insertRow_live live, if_pos live]
      · simp only [insertRow_new live, if_neg live, key]
  | some name =>
    simp only [Option.bind_some]
    cases checkText name with
    | error failure => rfl
    | ok _ =>
      simp only
      cases holds : db.tables.keyHolder name with
      | some holder =>
        obtain ⟨envelope, decoded, stored⟩ := tidy.decode (keyHolder_mem holds)
        simp only [decoded, Except.map, stored.id]
      | none =>
        have free : ∀ row, (db.tables.withRow row none).hasKey name = false := by
          intro row
          have absent := (tidy.keyHolder_eq_none name).mp holds
          simpa [Tables.hasKey, Tables.withRow] using absent
        simp only [insertNew]
        cases encodeRow serde job with
        | error failure => rfl
        | ok blob =>
          by_cases live : db.tables.hasJob job.id = true
          · simp only [insertRow_live live, if_pos live]
          · simp only [insertRow_new live, if_neg live, key, maxClaimAttempts, claimKey, free]
            simp [Tables.insertKey, Tables.withRow]

theorem insertRow_advances (ready : Ready serde db) {job : NewJob}
    {blob : Blob} (encoded : encodeEnvelope serde job.intoEnvelope = .ok blob)
    (absent : ¬ db.tables.hasJob job.id = true) (new : job.id ∈ brought) (availableAt : Nat)
    {key : Option String}
    (keyFree : ∀ name ∈ key, db.tables.hasKey name = false) :
    Advances serde config now mint brought db []
      { db with
        tables := db.tables.withRow (newRow (db.jobsSeq + 1) job.intoEnvelope job.lane availableAt
            blob) key
        jobsSeq := db.jobsSeq + 1 } := by
  have stored : StoredRow serde (newRow (db.jobsSeq + 1) job.intoEnvelope job.lane availableAt blob)
      job.intoEnvelope := ⟨encoded, rfl, rfl, rfl⟩
  have notLive : db.tables.hasJob job.id = false := by simpa using absent
  exact ⟨Changes.single (.insert key stored rfl rfl notLive (.inl new)
    ready.numbered.nextJob keyFree), ready.numbered.insert rfl⟩

theorem grows_drawn (tables : Tables) :
    Grows db { db with tables := tables, jobsSeq := db.jobsSeq + 1 } :=
  ⟨Nat.le_succ _, le_refl _⟩

theorem insertJob_transacts (ready : Ready serde db) {job : NewJob} (new : job.id ∈ brought)
    (availableAt : Nat) :
    Transacts serde config now mint brought db (fun _ => [])
      (insertJob serde db job availableAt) := by
  have same := Grows.refl db
  have unchanged : Advances serde config now mint brought db [] db := .refl ready.numbered
  rw [insertJob_eq ready.tidy]
  cases checkKey job with
  | error failure => exact .failed same failure _
  | ok _ =>
    cases holds : job.uniqueKey.bind db.tables.keyHolder with
    | some holder => exact .done same unchanged
    | none =>
      cases made : encodeRow serde job with
      | error failure => exact .failed same failure _
      | ok blob =>
        simp only
        split
        · exact .done (grows_drawn _) ⟨.refl _, ready.numbered.drawn⟩
        · next absent =>
          have encoded := (encodeRow_ok_iff.mp made).1
          refine .done (grows_drawn _) (insertRow_advances ready encoded absent new _ ?_)
          intro name held
          apply (ready.tidy.keyHolder_eq_none name).mp
          rw [Option.mem_def] at held
          simpa [held] using holds

theorem insertAll_transacts (ready : Ready serde db) {jobs : List NewJob}
    (new : ∀ job ∈ jobs, job.id ∈ brought) :
    Transacts serde config now mint brought db (fun _ => []) (insertAll serde now db jobs) := by
  induction jobs generalizing db with
  | nil => exact .done (Grows.refl db) (.refl ready.numbered)
  | cons job rest ih =>
    have head : Transacts serde config now mint brought db (fun _ => [])
        (insertJob serde db job (nanos (saturatingAdd now job.delay))) :=
      insertJob_transacts ready (new job (mem_cons_self ..)) _
    unfold insertAll
    split
    · next failed failure equal =>
      rw [equal] at head
      exact .failed head.grows failure _
    · next grown id equal =>
      rw [equal] at head
      have first := head.commits id rfl
      have later := ih (first.ready ready) fun other member => new other (mem_cons_of_mem _ member)
      refine ⟨head.grows.trans later.grows, ?_⟩
      intro returned ok
      simp only at ok
      cases reply : (insertAll serde now grown rest).2 with
      | error failure =>
        rw [reply] at ok
        cases ok
      | ok ids => exact first.trans (later.commits ids reply)

theorem insertRows_advances (ready : Ready serde db) {rows : List (NewJob × Blob)}
    (encoded : ∀ entry ∈ rows, entry.1.id ∈ brought ∧
      encodeEnvelope serde entry.1.intoEnvelope = .ok entry.2) :
    Grows db (insertRows now db rows) ∧
      Advances serde config now mint brought db [] (insertRows now db rows) := by
  induction rows generalizing db with
  | nil => exact ⟨Grows.refl db, .refl ready.numbered⟩
  | cons entry rest ih =>
    obtain ⟨job, blob⟩ := entry
    have head : Grows db (insertRow db job (nanos (saturatingAdd now job.delay)) blob).1 ∧
        Advances serde config now mint brought db []
          (insertRow db job (nanos (saturatingAdd now job.delay)) blob).1 := by
      by_cases live : db.tables.hasJob job.id = true
      · rw [insertRow_live live]
        exact ⟨grows_drawn _, .refl _, ready.numbered.drawn⟩
      · obtain ⟨new, own⟩ := encoded (job, blob) (mem_cons_self ..)
        rw [insertRow_new live]
        exact ⟨grows_drawn _, insertRow_advances ready own live new _ (by simp)⟩
    have later := ih (head.2.ready ready)
      fun entry member => encoded entry (mem_cons_of_mem _ member)
    exact ⟨head.1.trans later.1, head.2.trans later.2⟩

theorem encodeAll_spec {jobs : List NewJob} {rows : List (NewJob × Blob)}
    (collected : (jobs.mapM fun job =>
      (encodeEnvelope serde job.intoEnvelope).map (job, ·)) = .ok rows) :
    ∀ entry ∈ rows, entry.1 ∈ jobs ∧ encodeEnvelope serde entry.1.intoEnvelope = .ok entry.2 := by
  induction jobs generalizing rows with
  | nil =>
    cases collected
    exact fun _ member => nomatch member
  | cons job rest ih =>
    obtain ⟨first, others, head, later, rfl⟩ := Lib.of_mapM_cons collected
    cases encoded : encodeEnvelope serde job.intoEnvelope with
    | error failure =>
      rw [encoded] at head
      cases head
    | ok blob =>
      rw [encoded] at head
      cases head
      intro entry member
      rcases mem_cons.mp member with rfl | inside
      · exact ⟨mem_cons_self .., encoded⟩
      · obtain ⟨own, blob⟩ := ih later entry inside
        exact ⟨mem_cons_of_mem _ own, blob⟩

theorem enqueueBatch_performs (ready : Ready serde db) (now : Nat)
    (mint : ReservationReceipt) (jobs : List NewJob) :
    Performs serde config db ⟨now, mint, .enqueueBatch jobs⟩ (enqueueBatch serde db now jobs) := by
  refine @transaction_performs _ _ _ _ ⟨now, mint, .enqueueBatch jobs⟩ .jobIds _ ready.numbered ?_
  change Transacts serde config now mint (jobs.map NewJob.id) db (fun _ => []) _
  split
  · unfold insertBatchUnnest
    split
    · exact .failed (Grows.refl db) _ _
    · next rows collected =>
      have encoded : ∀ entry ∈ rows, entry.1.id ∈ jobs.map NewJob.id ∧
          encodeEnvelope serde entry.1.intoEnvelope = .ok entry.2 := by
        intro entry member
        obtain ⟨inside, blob⟩ := encodeAll_spec collected entry member
        exact ⟨mem_map_of_mem inside, blob⟩
      obtain ⟨grows, advances⟩ := insertRows_advances ready encoded
      split
      · exact .failed (Grows.refl db) _ _
      · exact .done grows advances
  · split
    · exact .failed (Grows.refl db) _ _
    · exact insertAll_transacts ready fun _ member => mem_map_of_mem member

/-! ### Dead letters -/

variable {before : List JobRow} {after : List JobRow} {row : JobRow}

theorem deadLetterSeq_eq (tidy : Tidy serde db.tables)
    (split : db.tables.jobs = before ++ row :: after) (error : String)
    (now : Nat) :
    deadLetterSeq serde config db row error now = match checkText error with
      | .error failure => (db, .error failure)
      | .ok _ =>
        if db.tables.hasDead row.id = true then
          ({ db with deadSeq := db.deadSeq + 1 }, .error (pgErr .uniqueViolation))
        else
          ({ db with
              tables :=
                { db.tables with
                  jobs := before ++ after
                  uniqueKeys := db.tables.uniqueKeys.filter fun key =>
                    decide (key.seq ≠ row.seq)
                  dead := pruneDeadLetters config.retention row.lane now
                    (db.tables.dead ++ [deadRecord (db.deadSeq + 1) db.tables row error now]) }
              deadSeq := db.deadSeq + 1 },
            .ok ()) := by
  obtain ⟨envelope, decoded, _⟩ := @Tidy.decode _ _ tidy row (by simp [split])
  unfold deadLetterSeq
  simp only [decoded, Except.bind, tidy.deadLetterSeq_split split]
  cases checkText error with
  | error failure => rfl
  | ok _ =>
    by_cases taken : db.tables.hasDead row.id = true
    · simp only [if_pos taken]
    · simp only [if_neg taken]

theorem grows_buried (tables : Tables) :
    Grows db { db with tables := tables, deadSeq := db.deadSeq + 1 } :=
  ⟨le_refl _, Nat.le_succ _⟩

theorem deadLetterSeq_transacts (ready : Ready serde db)
    (split : db.tables.jobs = before ++ row :: after) (error : String)
    (moves : ∀ dead, DeadMove serde db.tables.dead row.id dead →
      CallChanges serde config now mint brought db.tables actions
        { db.tables with
          jobs := before ++ after
          uniqueKeys := db.tables.uniqueKeys.filter fun key =>
            decide (key.seq ≠ row.seq)
          dead := dead }) :
    Transacts serde config now mint brought db (fun _ => actions)
      (deadLetterSeq serde config db row error (nanos now)) := by
  rw [deadLetterSeq_eq ready.tidy split]
  cases checkText error with
  | error failure => exact .failed (Grows.refl db) failure _
  | ok _ =>
    simp only
    split
    · exact .failed (grows_buried _) _ _
    · next free =>
      have notDead : db.tables.hasDead row.id = false := by
        simpa using free
      have burial := ready.tidy.deadMove split notDead
        ready.numbered.nextDead config.retention error (nanos now)
      have below := @Numbered.buried _ row ready.numbered
        config.retention row.lane (nanos now) error
      exact .done (grows_buried _) ⟨moves _ burial, ready.numbered.remove split below⟩

/-! ### Reserving -/

theorem reserveUnbounded_performs (ready : Ready serde db) (now : Nat)
    (mint : ReservationReceipt) (lane : Lane) :
    Performs serde config db ⟨now, mint, .reserve lane⟩
      (reserveUnbounded serde config db now mint lane) := by
  unfold reserveUnbounded
  rcases nextVisible_cases db.tables lane (nanos now) with
    ⟨none, _⟩ | ⟨before, row, after, picked, best⟩
  · rw [none]
    exact ⟨.refl _, ready.numbered⟩
  · have member : row ∈ db.tables.jobs := by simp [best.split]
    obtain ⟨envelope, decoded, stored⟩ := ready.tidy.decode member
    obtain ⟨_, _, free⟩ := visible_iff.mp best.chosenEligible
    rw [picked]
    simp only [decoded, Except.map]
    rw [ready.tidy.updateJob_split best.split]
    refine ⟨?_, ready.numbered.replace best.split rfl⟩
    unfold IsChanges
    simp only [leaseAction, Action.active, stored.id]
    exact Changes.single (.lease best.split free)

theorem reserveLoop_transacts (ready : Ready serde db) (lane : Lane) (max left : Nat) :
    Transacts serde config now mint [] db grantOf
      (reserveLoop serde config now mint lane max left db) := by
  induction left generalizing db with
  | zero => exact .done (Grows.refl db) (.refl ready.numbered)
  | succ left ih =>
    unfold reserveLoop
    rcases nextVisible_cases db.tables lane (nanos now) with
      ⟨none, _⟩ | ⟨before, row, after, picked, best⟩
    · rw [none]
      exact .done (Grows.refl db) (.refl ready.numbered)
    · have member : row ∈ db.tables.jobs := by simp [best.split]
      obtain ⟨envelope, decoded, stored⟩ := ready.tidy.decode member
      obtain ⟨_, _, free⟩ := visible_iff.mp best.chosenEligible
      rw [picked]
      simp only
      split
      · have sweeps : Transacts serde config now mint [] db (fun _ => [])
            (deadLetterSeq serde config db row (overDeliveredText max) (nanos now)) :=
          deadLetterSeq_transacts ready best.split _
            fun dead burial => Changes.single (.sweep best.split free rfl burial)
        split
        · next failed failure equal =>
          rw [equal] at sweeps
          exact .failed sweeps.grows failure _
        · next swept _ equal =>
          -- The row is swept and the loop goes on.
          rw [equal] at sweeps
          have first := sweeps.commits () rfl
          have later := ih (first.ready ready)
          exact ⟨sweeps.grows.trans later.grows,
            fun returned ok => first.trans (later.commits returned ok)⟩
      · rw [decoded, ready.tidy.updateJob_split best.split]
        refine .done ⟨le_refl _, le_refl _⟩ ⟨?_, ready.numbered.replace best.split rfl⟩
        have leased : CallChanges serde config now mint [] db.tables _ _ :=
          Changes.single (.lease best.split free)
        simpa [grantOf, stored.id] using leased

theorem reserve_performs (ready : Ready serde db) (now : Nat)
    (mint : ReservationReceipt) (lane : Lane) :
    Performs serde config db ⟨now, mint, .reserve lane⟩
      (reserve serde config db now mint lane) := by
  unfold reserve
  split
  · exact reserveUnbounded_performs ready now mint lane
  · refine @transaction_performs _ _ _ _ ⟨now, mint, .reserve lane⟩ .reserved _ ready.numbered ?_
    simp only [leaseAction_reserve]
    exact reserveLoop_transacts ready lane _ _

/-! ### Resolving a receipt -/

variable {receipt : ReservationReceipt}

theorem unexpired_iff {now : Nat} : unexpired receipt now row = true ↔ Current now row receipt := by
  unfold unexpired
  rw [Bool.and_eq_true, decide_eq_true_eq, Option.any_eq_true]
  simp only [decide_eq_true_eq]
  exact ⟨fun ⟨held, unexpired⟩ => ⟨held, unexpired⟩,
    fun current => ⟨current.held, current.unexpired⟩⟩

theorem receipt_ne_of_split (tidy : Tidy serde db.tables)
    (distinct : DistinctReceipts (holders db.tables))
    (split : db.tables.jobs = before ++ row :: after) (held : row.receipt = some receipt) :
    ∀ other, other ∈ before ∨ other ∈ after → other.receipt ≠ some receipt := by
  intro other side otherHeld
  have live : row ∈ db.tables.jobs := by simp [split]
  have inside : other ∈ db.tables.jobs := by
    rw [split]
    simp only [mem_append, mem_cons]
    tauto
  have same := tidy.row_of_receipt distinct live inside held otherHeld
  have ids := tidy.ids
  rw [split] at ids
  exact Lib.key_ne_of_split ids other side (congrArg JobRow.id same.symm)

theorem unexpired_of_split (tidy : Tidy serde db.tables)
    (distinct : DistinctReceipts (holders db.tables)) {now : Nat}
    (split : db.tables.jobs = before ++ row :: after) (current : Current now row receipt) :
    ∀ other, other ∈ before ∨ other ∈ after → unexpired receipt now other = false := by
  intro other side
  by_contra also
  have held := (unexpired_iff.mp (by simpa using also)).held
  exact receipt_ne_of_split tidy distinct split current.held other side held

theorem queryOpt_split {test : JobRow → Bool} {jobs : List JobRow}
    (split : jobs = before ++ row :: after) (hit : test row = true)
    (others : ∀ other, other ∈ before ∨ other ∈ after → test other = false) :
    queryOpt (jobs.filter test) = .ok (some row) := by
  rw [split, Lib.filter_where_split test hit others]
  rfl

/-- With distinct receipts the select of `find_valid_row_locked` has one row
at most. -/
theorem findValidRowLocked_eq (tidy : Tidy serde db.tables)
    (distinct : DistinctReceipts (holders db.tables))
    (receipt : ReservationReceipt) (now : Nat) :
    findValidRowLocked db.tables receipt now =
      db.tables.findValidRow receipt now := by
  unfold findValidRowLocked Tables.findValidRow Tables.byReceipt
  cases found : db.tables.jobs.find? fun row =>
    decide (row.receipt = some receipt) with
  | none =>
    have nothing : (db.tables.jobs.filter fun row =>
      decide (row.receipt = some receipt)) = [] :=
      filter_eq_nil_iff.mpr (find?_eq_none.mp found)
    rw [nothing]
    rfl
  | some row =>
    have held : row.receipt = some receipt := by
      simpa using find?_some found
    obtain ⟨before, after, split⟩ := append_of_mem (mem_of_find?_eq_some found)
    have others := receipt_ne_of_split tidy distinct split held
    rw [queryOpt_split split (by simp [held]) fun other side => by simpa using others other side]

theorem resolve_performs (ready : Ready serde db)
    (distinct : DistinctReceipts (holders db.tables)) {input : Input}
    {change : JobRow → Database × Except Error Unit}
    (settles : leaseAction (input, .ok .done) = .settle receipt)
    (transacts : ∀ before row after, db.tables.jobs = before ++ row :: after →
      Current (nanos input.now) row receipt →
      Transacts serde config input.now input.mint (Sql.brought input) db
        (fun _ => [.settle receipt]) (change row)) :
    Performs serde config db input (resolve db receipt input.now change) := by
  apply transaction_performs ready.numbered
  rw [findValidRowLocked_eq ready.tidy distinct, settles]
  rcases findValidRow_cases db.tables receipt (nanos input.now) with
    rejected | ⟨before, row, after, split, current, found⟩
  · rw [rejected]
    exact .failed (Grows.refl db) _ _
  · rw [found]
    exact transacts before row after split current

theorem ack_split (tidy : Tidy serde db.tables)
    (distinct : DistinctReceipts (holders db.tables)) {now : Nat}
    (split : db.tables.jobs = before ++ row :: after) (current : Current (nanos now) row receipt) :
    ack db now receipt =
      ({ db with
          tables :=
            { db.tables with
              jobs := before ++ after
              uniqueKeys := db.tables.uniqueKeys.filter fun key =>
                decide (key.seq ≠ row.seq) } },
        .ok .done) := by
  have hit := unexpired_iff.mpr current
  have others := unexpired_of_split tidy distinct split current
  unfold ack
  rw [queryOpt_split split hit others]
  simp only [transaction, Tables.freeUniqueKey]
  rw [split, Lib.filter_not_where_split _ hit others]

theorem ack_stale {now : Nat} (absent : ¬ ∃ row ∈ db.tables.jobs, Current (nanos now) row receipt) :
    ack db now receipt = (db, .error (stale receipt)) := by
  have nothing : db.tables.jobs.filter (unexpired receipt (nanos now)) = [] := by
    apply filter_eq_nil_iff.mpr
    intro row member hit
    exact absent ⟨row, member, unexpired_iff.mp hit⟩
  unfold ack
  rw [nothing]
  rfl

theorem ack_performs (ready : Ready serde db)
    (distinct : DistinctReceipts (holders db.tables)) (now : Nat)
    (mint receipt : ReservationReceipt) :
    Performs serde config db ⟨now, mint, .ack receipt⟩ (ack db now receipt) := by
  by_cases found : ∃ row ∈ db.tables.jobs, Current (nanos now) row receipt
  · obtain ⟨row, member, current⟩ := found
    obtain ⟨before, after, split⟩ := append_of_mem member
    rw [ack_split ready.tidy distinct split current]
    exact ⟨Changes.single (.remove split current rfl .none),
      ready.numbered.remove split ready.numbered.dead⟩
  · rw [ack_stale found]
    exact .rejected ready.numbered _ _

theorem retry_performs (ready : Ready serde db)
    (distinct : DistinctReceipts (holders db.tables)) (now : Nat)
    (mint receipt : ReservationReceipt) (delay : Nat) :
    Performs serde config db ⟨now, mint, .retry receipt delay⟩
      (retry serde db now receipt delay) := by
  apply resolve_performs ready distinct rfl
  intro before row after split current
  have member : row ∈ db.tables.jobs := by simp [split]
  obtain ⟨envelope, decoded, stored⟩ := ready.tidy.decode member
  simp only [decoded, Except.bind]
  cases encoded : encodeEnvelope serde envelope.bump with
  | error failure => exact .failed (Grows.refl db) failure _
  | ok blob =>
    have kept : StoredRow serde (retryRow blob (nanos (saturatingAdd now delay)) row)
        envelope.bump :=
      ⟨encoded, stored.id, stored.lane, stored.priority⟩
    simp only
    rw [ready.tidy.updateJob_split split]
    exact .done ⟨le_refl _, le_refl _⟩ ⟨Changes.single (.settle split current kept rfl rfl rfl rfl),
        ready.numbered.replace split rfl⟩

theorem defer_performs (ready : Ready serde db)
    (distinct : DistinctReceipts (holders db.tables)) (now : Nat)
    (mint receipt : ReservationReceipt) (delay : Nat) :
    Performs serde config db ⟨now, mint, .defer receipt delay⟩ (defer db now receipt delay) := by
  apply resolve_performs ready distinct rfl
  intro before row after split current
  obtain ⟨envelope, stored⟩ := ready.tidy.stored row (by simp [split])
  have kept : StoredRow serde (rescheduleRow (nanos (saturatingAdd now delay)) row) envelope :=
    ⟨stored.encodes, stored.id, stored.lane, stored.priority⟩
  rw [ready.tidy.updateJob_split split]
  exact .done ⟨le_refl _, le_refl _⟩ ⟨Changes.single (.settle split current kept rfl rfl rfl rfl),
      ready.numbered.replace split rfl⟩

theorem fail_performs (ready : Ready serde db)
    (distinct : DistinctReceipts (holders db.tables)) (now : Nat)
    (mint receipt : ReservationReceipt) (error : String) :
    Performs serde config db ⟨now, mint, .fail receipt error⟩
      (fail serde config db now receipt error) := by
  apply resolve_performs ready distinct rfl
  intro before row after split current
  exact deadLetterSeq_transacts ready split error
    fun dead burial => Changes.single (.remove split current rfl burial)

theorem extend_split (tidy : Tidy serde db.tables)
    (distinct : DistinctReceipts (holders db.tables)) {now : Nat}
    (split : db.tables.jobs = before ++ row :: after) (current : Current (nanos now) row receipt) :
    extend config db now receipt =
      ({ db with
          tables :=
            { db.tables with
              jobs := before ++
                { row with
                  leasedUntil := some (nanos (saturatingAdd now config.lease)) } ::
                after } },
        .ok .done) := by
  have hit := unexpired_iff.mpr current
  have others := unexpired_of_split tidy distinct split current
  have live : row ∈ db.tables.jobs := by simp [split]
  have found : db.tables.jobs.any (unexpired receipt (nanos now)) = true :=
    any_eq_true.mpr ⟨row, live, hit⟩
  unfold extend
  simp only [if_pos found]
  rw [split, Lib.map_where_split _ hit others]

theorem extend_stale {now : Nat}
    (absent : ¬ ∃ row ∈ db.tables.jobs, Current (nanos now) row receipt) :
    extend config db now receipt = (db, .error (stale receipt)) := by
  unfold extend
  rw [if_neg]
  intro found
  obtain ⟨row, member, hit⟩ := any_eq_true.mp found
  exact absent ⟨row, member, unexpired_iff.mp hit⟩

theorem extend_performs (ready : Ready serde db)
    (distinct : DistinctReceipts (holders db.tables)) (now : Nat)
    (mint receipt : ReservationReceipt) :
    Performs serde config db ⟨now, mint, .extend receipt⟩ (extend config db now receipt) := by
  by_cases found : ∃ row ∈ db.tables.jobs, Current (nanos now) row receipt
  · obtain ⟨row, member, current⟩ := found
    obtain ⟨before, after, split⟩ := append_of_mem member
    rw [extend_split ready.tidy distinct split current]
    exact ⟨Changes.single (.renew split current), ready.numbered.replace split rfl⟩
  · rw [extend_stale found]
    exact .rejected ready.numbered _ _

/-! ### Requeueing and schedules -/

theorem requeueRow_ok {now : Nat} {id : JobId} {row : DeadRow} {envelope : JobEnvelope}
    (decoded : decodeEnvelope serde row.envelope = .ok envelope)
    (notLive : db.tables.hasJob envelope.id = false)
    (keyFree : ∀ name ∈ row.uniqueKey, db.tables.hasKey name = false) :
    requeueRow serde db now id row =
      ({ db with
          tables := (db.tables.withRow (newRow (db.jobsSeq + 1) envelope
            row.lane now row.envelope) row.uniqueKey).deleteDead id
          jobsSeq := db.jobsSeq + 1 },
        .ok ()) := by
  unfold requeueRow
  simp only [decoded, notLive]
  cases key : row.uniqueKey with
  | none => simp [Tables.withRow, Tables.insertJob]
  | some name =>
    have free : ∀ row, (db.tables.insertJob row).hasKey name = false := fun _ => keyFree name key
    simp only [free]
    simp [Tables.withRow, Tables.insertJob, Tables.insertKey]

theorem requeueRow_transacts (ready : Ready serde db) {id : JobId}
    {row : DeadRow} (member : row ∈ db.tables.dead) (own : row.id = id)
    (keyFree : ∀ name ∈ row.uniqueKey, db.tables.hasKey name = false) :
    Transacts serde config now mint [] db (fun _ => [])
      (requeueRow serde db (nanos now) id row) := by
  obtain ⟨envelope, stored⟩ := ready.tidy.deadStored row member
  have decoded := decode_of_encode stored.encodes
  by_cases live : db.tables.hasJob envelope.id = true
  · unfold requeueRow
    simp only [decoded, if_pos live]
    exact .failed (grows_drawn _) _ _
  · have absent : db.tables.hasJob envelope.id = false := by
      simpa using live
    rw [requeueRow_ok decoded absent keyFree]
    have storedRow : StoredRow serde (newRow (db.jobsSeq + 1) envelope row.lane (nanos now)
          row.envelope) envelope :=
      ⟨stored.encodes, rfl, stored.lane, rfl⟩
    have grown := @Numbered.insert db (newRow (db.jobsSeq + 1) envelope
      row.lane (nanos now) row.envelope) ready.numbered row.uniqueKey rfl
    have dropped : (db.tables.deleteDead id).hasDead envelope.id = false :=
      hasDead_deleteDead (stored.id.trans own)
    refine .done (grows_drawn _) ⟨?_, grown.jobs, ?_⟩
    · exact .head (.drop filter_sublist) (Changes.single (.insert row.uniqueKey storedRow rfl rfl
        absent (.inr dropped) ready.numbered.nextJob keyFree))
    · exact fun record inside =>
      grown.dead record (mem_of_mem_filter inside)

theorem requeue_performs (ready : Ready serde db) (now : Nat)
    (mint : ReservationReceipt) (id : JobId) :
    Performs serde config db ⟨now, mint, .requeue id⟩ (requeue serde db now id) := by
  refine @transaction_performs _ _ _ _ ⟨now, mint, .requeue id⟩
    (fun _ : Unit => .done) _ ready.numbered ?_
  change Transacts serde config now mint [] db (fun _ => []) _
  cases found : db.tables.deadById id with
  | none => exact .failed (Grows.refl db) _ _
  | some row =>
    have member := mem_of_find?_eq_some found
    have own : row.id = id := by simpa using find?_some found
    simp only
    split
    · exact .failed (Grows.refl db) _ _
    · split
      · next key held =>
        split
        · exact .failed (Grows.refl db) _ _
        · next free =>
          refine requeueRow_transacts ready member own ?_
          intro name inside
          rw [held, Option.mem_some_iff] at inside
          subst inside
          simpa using free
      · next none =>
        refine requeueRow_transacts ready member own ?_
        intro name inside
        rw [none] at inside
        cases inside

theorem enqueueScheduled_performs (ready : Ready serde db) (now : Nat)
    (mint : ReservationReceipt) (scheduleId : String) (occurrence : Int64)
    (job : NewJob) :
    Performs serde config db ⟨now, mint, .enqueueScheduled scheduleId occurrence job⟩
      (enqueueScheduled serde db now scheduleId occurrence job) := by
  refine @transaction_performs _ _ _ _
    ⟨now, mint, .enqueueScheduled scheduleId occurrence job⟩ .claimed _
    ready.numbered ?_
  change Transacts serde config now mint [job.id] db (fun _ => []) _
  split
  · exact .failed (Grows.refl db) _ _
  · split
    · exact .done (Grows.refl db) (.refl ready.numbered)
    · next claimed claims =>
      obtain ⟨schedules, rfl⟩ := claimOccurrence_schedules claims
      have scheduled : Advances serde config now mint [job.id] db []
          { db with
            tables := { db.tables with schedules := schedules } } :=
        ⟨Changes.single (.schedule schedules), ready.numbered.jobs, ready.numbered.dead⟩
      have inserts : Transacts serde config now mint [job.id] _ (fun _ => []) (insertJob serde
            { db with
              tables := { db.tables with schedules := schedules } }
            job (nanos (saturatingAdd now job.delay))) :=
        insertJob_transacts (scheduled.ready ready) (mem_singleton_self _) _
      refine ⟨⟨inserts.grows.jobs, inserts.grows.dead⟩, ?_⟩
      intro returned ok
      simp only at ok
      cases reply : (insertJob serde
          { db with
            tables := { db.tables with schedules := schedules } }
          job (nanos (saturatingAdd now job.delay))).2 with
      | error failure =>
        rw [reply] at ok
        cases ok
      | ok id => exact scheduled.trans (inserts.commits id reply)

/-- Every call is a list of elementary changes. -/
theorem perform_performs (config : Config) (ready : Ready serde db)
    (distinct : DistinctReceipts (holders db.tables)) (input : Input) :
    Performs serde config db input (perform serde config db input) := by
  obtain ⟨now, mint, call⟩ := input
  cases call with
  | enqueue job =>
    exact @transaction_performs _ _ _ _ ⟨now, mint, .enqueue job⟩ .jobId
      _ ready.numbered (insertJob_transacts ready (mem_singleton_self _) _)
  | enqueueBatch jobs => exact enqueueBatch_performs ready now mint jobs
  | reserve lane => exact .onLane ready.numbered lane (reserve_performs ready now mint lane)
  | ack receipt => exact ack_performs ready distinct now mint receipt
  | retry receipt delay =>
    exact retry_performs ready distinct now mint receipt delay
  | defer receipt delay =>
    exact defer_performs ready distinct now mint receipt delay
  | fail receipt error =>
    exact fail_performs ready distinct now mint receipt error
  | extend receipt => exact extend_performs ready distinct now mint receipt
  | requeue id => exact requeue_performs ready now mint id
  | purgeDeadLetters lane =>
    exact .onLane ready.numbered lane ⟨Changes.single (.drop filter_sublist), ready.numbered.jobs,
      fun record inside => ready.numbered.dead record (mem_of_mem_filter inside)⟩
  | enqueueScheduled scheduleId occurrence job =>
    exact enqueueScheduled_performs ready now mint scheduleId occurrence job
  | removeSchedule scheduleId =>
    simp only [perform, removeSchedule]
    split
    · exact .rejected ready.numbered _ _
    · exact ⟨Changes.single (.schedule _), ready.numbered.jobs, ready.numbered.dead⟩
  | readDeadLetters lane limit =>
    refine .onLane ready.numbered lane ⟨?_, ready.numbered⟩
    simp only [IsChanges, readDeadLetters]
    cases readRows serde ((db.tables.deadOfLane lane).take (min limit i64Max)) <;>
      exact .refl db.tables
  | classify id => exact ⟨.refl db.tables, ready.numbered⟩
  | countDeadLetters lane =>
    exact .onLane ready.numbered lane ⟨.refl db.tables, ready.numbered⟩
  | pendingCount lane => exact .onLane ready.numbered lane ⟨.refl db.tables, ready.numbered⟩

end Calls

/-! ## Runs -/

theorem reserveLoop_mint {serde : SerdeJson} {config : Config}
    {db : Database} {now : Nat} {mint : ReservationReceipt}
    {lane : Lane} {max left : Nat} {reservation : Reservation}
    (looped : (reserveLoop serde config now mint lane max left db).2 =
      .ok (some reservation)) : reservation.receipt = mint := by
  induction left generalizing db with
  | zero => cases looped
  | succ left ih =>
    unfold reserveLoop at looped
    split at looped
    · cases looped
    · next row _ =>
      split at looped
      · split at looped
        · cases looped
        · exact ih looped
      · cases decoded : decodeEnvelope serde row.envelope with
        | error failure =>
          rw [decoded] at looped
          cases looped
        | ok envelope =>
          rw [decoded] at looped
          cases looped
          rfl

theorem handsOutMinted (serde : SerdeJson) (config : Config) :
    HandsOutMinted (machine serde config) := by
  intro db input id receipt grants
  obtain ⟨lane, reservation, reserves, reply, _, rfl⟩ := leaseAction_grant grants
  obtain ⟨now, mint, call⟩ := input
  cases reserves
  simp only [machine, perform, onLane, reserve] at reply
  split at reply
  · cases reply
  split at reply
  · unfold reserveUnbounded at reply
    split at reply
    · cases reply
    · next row _ =>
      cases decoded : decodeEnvelope serde row.envelope with
      | error failure =>
        rw [decoded] at reply
        cases reply
      | ok envelope =>
        rw [decoded] at reply
        cases reply
        rfl
  · unfold transaction at reply
    split at reply
    · next handed looped =>
      cases reply
      exact reserveLoop_mint looped
    · cases reply

theorem run_ready_and_leases (serde : SerdeJson) (config : Config)
    (inputs : List Input) (fresh : FreshMints inputs) :
    Ready serde ((machine serde config).run inputs) ∧ Lib.Lease.Runs (nanosClock config).deadline
        (leaseLog nanos ((machine serde config).trace inputs))
        (holders ((machine serde config).run inputs).tables) := by
  apply leaseRun_of_steps (nanosClock config) (Ready serde)
    (fun db => holders db.tables) (handsOutMinted serde config)
    (ready_empty serde) rfl ?_ inputs fresh
  intro past input _ ready distinct
  have performs := perform_performs config ready distinct input
  exact ⟨⟨performs.changes.tidy ready.tidy, performs.numbered⟩, performs.changes.leaseStep
      ((nanosClock config).deadline_round input.now) ready.tidy rfl⟩

end Worklane.Postgres
