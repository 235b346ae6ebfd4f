import Worklane.Sql.Changes
import Worklane.Sqlite.Broker

/-!
# The tables of the SQLite broker

Every call is a list of elementary changes of the tables, so the tables stay
tidy and every call is one step of the lease table.
-/

namespace Worklane.Sqlite

open List
open Worklane.Sql
open Lib.Lease (Action)

/-! ## Row numbers -/

theorem foldl_max_le (seqs : List Nat) (start : Nat) : start ≤ seqs.foldl max start ∧
      ∀ seq ∈ seqs, seq ≤ seqs.foldl max start := by
  induction seqs generalizing start with
  | nil => simp
  | cons seq rest ih =>
    obtain ⟨above, bound⟩ := ih (max start seq)
    refine ⟨le_trans (le_max_left ..) above, ?_⟩
    intro other member
    rcases mem_cons.mp member with rfl | later
    · exact le_trans (le_max_right ..) above
    · exact bound other later

theorem lt_nextSeq {seqs : List Nat} {seq : Nat} (member : seq ∈ seqs) : seq < nextSeq seqs :=
  Nat.lt_succ_of_le ((foldl_max_le seqs 0).2 seq member)

theorem lt_nextJobSeq (tables : Tables) : ∀ row ∈ tables.jobs, row.seq < nextJobSeq tables :=
  fun _ member => lt_nextSeq (mem_map_of_mem member)

theorem lt_nextDeadSeq (tables : Tables) : ∀ row ∈ tables.dead, row.seq < nextDeadSeq tables :=
  fun _ member => lt_nextSeq (mem_map_of_mem member)

/-! ## Calls as changes -/

section Calls

variable {serde : SerdeJson} {config : Config} {tables : Tables}

/-- `insert_job` on tidy tables. -/
theorem insertJob_eq (tidy : Tidy serde tables) (job : NewJob) (availableAt : Nat) :
    insertJob serde tables job availableAt = match job.uniqueKey.bind tables.keyHolder,
        encodeEnvelope serde job.intoEnvelope with
      | some holder, _ => .ok (holder.id, tables)
      | none, .error failure => .error failure
      | none, .ok blob =>
        if tables.hasJob job.id = true then
          .ok (job.id, tables)
        else
          .ok (job.id, tables.withRow (newRow (nextJobSeq tables) job.intoEnvelope job.lane
              availableAt blob) job.uniqueKey) := by
  unfold insertJob
  cases holds : job.uniqueKey.bind tables.keyHolder with
  | some holder =>
    obtain ⟨key, _, found⟩ := Option.bind_eq_some_iff.mp holds
    obtain ⟨envelope, decoded, stored⟩ := tidy.decode (keyHolder_mem found)
    simp only [decoded, Bind.bind, Except.bind, stored.id]
  | none =>
    simp only [insertNew]
    cases encodeEnvelope serde job.intoEnvelope with
    | error failure => rfl
    | ok blob =>
      simp only [Bind.bind, Except.bind]
      split
      · rfl
      · cases key : job.uniqueKey with
        | none => simp [Tables.insertJob, Tables.withRow]
        | some name =>
          have free : ∀ row, (tables.insertJob row).hasKey name = false := by
            intro row
            apply (tidy.keyHolder_eq_none name).mp
            simpa [key] using holds
          simp only [insertKey, free]
          rfl

theorem insertJob_changes (tidy : Tidy serde tables) {job : NewJob}
    {brought : List JobId} (new : job.id ∈ brought) {availableAt : Nat}
    {result : JobId × Tables}
    (inserted : insertJob serde tables job availableAt = .ok result)
    (now : Nat) (mint : ReservationReceipt) :
    CallChanges serde config now mint brought tables [] result.2 := by
  rw [insertJob_eq tidy] at inserted
  cases holds : job.uniqueKey.bind tables.keyHolder with
  | some holder =>
    rw [holds] at inserted
    cases inserted
    exact .refl tables
  | none =>
    cases encoded : encodeEnvelope serde job.intoEnvelope with
    | error failure =>
      rw [holds, encoded] at inserted
      cases inserted
    | ok blob =>
      simp only [holds, encoded] at inserted
      split at inserted
      · cases inserted
        exact .refl tables
      · next notLive =>
        cases inserted
        have stored : StoredRow serde (newRow (nextJobSeq tables) job.intoEnvelope job.lane
              availableAt blob) job.intoEnvelope :=
          ⟨encoded, rfl, rfl, rfl⟩
        have absent : tables.hasJob job.id = false := by
          simpa using notLive
        refine Changes.single (.insert job.uniqueKey stored rfl rfl
          absent (.inl new) (lt_nextJobSeq tables) ?_)
        intro name held
        apply (tidy.keyHolder_eq_none name).mp
        rw [Option.mem_def] at held
        simpa [held] using holds

variable {now : Nat}

theorem insertAll_changes (tidy : Tidy serde tables)
    {jobs : List NewJob} {brought : List JobId} (new : ∀ job ∈ jobs, job.id ∈ brought)
    {result : List JobId × Tables}
    (inserted : insertAll serde now tables jobs = .ok result)
    (mint : ReservationReceipt) :
    CallChanges serde config now mint brought tables [] result.2 := by
  induction jobs generalizing tables result with
  | nil =>
    cases inserted
    exact .refl tables
  | cons job rest ih =>
    unfold insertAll at inserted
    cases first : insertJob serde tables job (nanos (saturatingAdd now job.delay)) with
    | error failure =>
      rw [first] at inserted
      cases inserted
    | ok grown =>
      have changes : CallChanges serde config now mint brought tables [] grown.2 :=
        insertJob_changes tidy (new job (mem_cons_self ..)) first now mint
      simp only [first, Bind.bind, Except.bind] at inserted
      cases later : insertAll serde now grown.2 rest with
      | error failure =>
        rw [later] at inserted
        cases inserted
      | ok final =>
        rw [later] at inserted
        cases inserted
        have others := ih (changes.tidy tidy)
          (fun other member => new other (mem_cons_of_mem _ member)) later
        exact changes.trans others

theorem deadLetterSeq_eq (tidy : Tidy serde tables) {before after : List JobRow} {row : JobRow}
    (split : tables.jobs = before ++ row :: after) (error : String)
    (now : Nat) :
    deadLetterSeq serde config tables row error now = if tables.hasDead row.id then
        .error (uniqueFailed "dead.id")
      else
        .ok
          { tables with
            jobs := before ++ after
            uniqueKeys := tables.uniqueKeys.filter fun key =>
              decide (key.seq ≠ row.seq)
            dead := pruneDeadLetters config.retention row.lane now
              (tables.dead ++ [deadRecord (nextDeadSeq tables) tables row error now]) } :=
  tidy.deadLetterSeq_split split ..

variable {receipt : ReservationReceipt}

theorem resolve_isChanges {input : Input} {change : JobRow → Except Error Tables}
    (settles : leaseAction (input, .ok .done) = .settle receipt)
    (changes : ∀ before row after changed, tables.jobs = before ++ row :: after →
      Current (nanos input.now) row receipt →
      change row = .ok changed →
      CallChanges serde config input.now input.mint (brought input) tables [.settle receipt]
        changed) :
    IsChanges serde config tables input (resolve tables receipt input.now change) := by
  unfold resolve
  rcases findValidRow_cases tables receipt (nanos input.now) with
    rejected | ⟨before, row, after, split, current, found⟩
  · rw [rejected]
    exact rejected_isChanges ..
  · rw [found]
    simp only [Bind.bind, Except.bind]
    cases changed : change row with
    | error failure => exact rejected_isChanges ..
    | ok next =>
      have moved := changes before row after next split current changed
      unfold IsChanges
      simp only [commit, settles]
      exact moved

theorem ack_isChanges (tidy : Tidy serde tables) (now : Nat) (mint receipt : ReservationReceipt) :
    IsChanges serde config tables ⟨now, mint, .ack receipt⟩ (ack tables now receipt) := by
  apply resolve_isChanges rfl
  rintro before row after _ split current ⟨⟩
  rw [tidy.deleteJob_split split]
  exact Changes.single (.remove split current rfl .none)

theorem retry_isChanges (tidy : Tidy serde tables) (now : Nat)
    (mint receipt : ReservationReceipt) (delay : Nat) :
    IsChanges serde config tables ⟨now, mint, .retry receipt delay⟩
      (retry serde tables now receipt delay) := by
  apply resolve_isChanges rfl
  intro before row after changed split current bumped
  have member : row ∈ tables.jobs := by simp [split]
  obtain ⟨envelope, decoded, stored⟩ := tidy.decode member
  rw [decoded] at bumped
  simp only [Bind.bind, Except.bind] at bumped
  cases encoded : encodeEnvelope serde envelope.bump with
  | error failure =>
    rw [encoded] at bumped
    cases bumped
  | ok blob =>
    rw [encoded] at bumped
    cases bumped
    rw [tidy.updateJob_split split]
    have kept : StoredRow serde (retryRow blob (nanos (saturatingAdd now delay)) row)
        envelope.bump :=
      ⟨encoded, stored.id, stored.lane, stored.priority⟩
    exact Changes.single (.settle split current kept rfl rfl rfl rfl)

theorem defer_isChanges (tidy : Tidy serde tables) (now : Nat)
    (mint receipt : ReservationReceipt) (delay : Nat) :
    IsChanges serde config tables ⟨now, mint, .defer receipt delay⟩
      (defer tables now receipt delay) := by
  apply resolve_isChanges rfl
  rintro before row after _ split current ⟨⟩
  obtain ⟨envelope, stored⟩ := tidy.stored row (by simp [split])
  rw [tidy.updateJob_split split]
  have kept : StoredRow serde (rescheduleRow (nanos (saturatingAdd now delay)) row) envelope :=
    ⟨stored.encodes, stored.id, stored.lane, stored.priority⟩
  exact Changes.single (.settle split current kept rfl rfl rfl rfl)

theorem fail_isChanges (tidy : Tidy serde tables) (now : Nat)
    (mint receipt : ReservationReceipt) (error : String) :
    IsChanges serde config tables ⟨now, mint, .fail receipt error⟩
      (fail serde config tables now receipt error) := by
  apply resolve_isChanges rfl
  intro before row after changed split current moved
  rw [deadLetterSeq_eq tidy split] at moved
  split at moved
  · cases moved
  · next notDead =>
    cases moved
    exact Changes.single (.remove split current rfl (tidy.deadMove split
      (by simpa using notDead) (lt_nextDeadSeq tables) ..))

theorem extendable_iff {row : JobRow} :
    extendable receipt now row = true ↔ Current now row receipt := by
  unfold extendable
  rw [Bool.and_eq_true, decide_eq_true_eq, Option.any_eq_true]
  simp only [decide_eq_true_eq]
  exact ⟨fun ⟨held, unexpired⟩ => ⟨held, unexpired⟩,
    fun current => ⟨current.held, current.unexpired⟩⟩

/-- With distinct receipts, `extend` updates one row. -/
theorem extend_split (tidy : Tidy serde tables)
    (distinct : DistinctReceipts (holders tables)) {before after : List JobRow}
    {row : JobRow} (split : tables.jobs = before ++ row :: after)
    (current : Current (nanos now) row receipt) :
    extend config tables now receipt =
      ({ tables with
          jobs := before ++
            { row with
              leasedUntil := some (nanos (saturatingAdd now config.lease)) } :: after },
        .ok .done) := by
  have extended := extendable_iff.mpr current
  have live : row ∈ tables.jobs := by simp [split]
  have found : tables.jobs.any (extendable receipt (nanos now)) = true :=
    any_eq_true.mpr ⟨row, live, extended⟩
  -- Another row under the receipt would be the same job.
  have others : ∀ other, other ∈ before ∨ other ∈ after →
      extendable receipt (nanos now) other = false := by
    intro other side
    by_contra renewable
    have held := (extendable_iff.mp (by simpa using renewable)).held
    have inside : other ∈ tables.jobs := by
      rw [split]
      simp only [mem_append, mem_cons]
      tauto
    have same := tidy.row_of_receipt distinct live inside current.held held
    have ids := tidy.ids
    rw [split] at ids
    exact Lib.key_ne_of_split ids other side (congrArg JobRow.id same.symm)
  unfold extend
  rw [if_pos found, split, Lib.map_where_split _ extended others]

theorem extend_isChanges (tidy : Tidy serde tables)
    (distinct : DistinctReceipts (holders tables)) (now : Nat)
    (mint receipt : ReservationReceipt) :
    IsChanges serde config tables ⟨now, mint, .extend receipt⟩
      (extend config tables now receipt) := by
  by_cases found : tables.jobs.any (extendable receipt (nanos now)) = true
  · obtain ⟨row, member, extended⟩ := any_eq_true.mp found
    have current := extendable_iff.mp extended
    obtain ⟨before, after, split⟩ := append_of_mem member
    rw [extend_split tidy distinct split current]
    exact Changes.single (.renew split current)
  · unfold extend
    rw [if_neg found]
    exact rejected_isChanges ..

theorem reserveUnbounded_isChanges (tidy : Tidy serde tables) (now : Nat)
    (mint : ReservationReceipt) (lane : Lane) :
    IsChanges serde config tables ⟨now, mint, .reserve lane⟩
      (reserveUnbounded serde config tables now mint lane) := by
  unfold reserveUnbounded
  rcases nextVisible_cases tables lane (nanos now) with
    ⟨none, _⟩ | ⟨before, row, after, picked, best⟩
  · rw [none]
    exact .refl tables
  · have member : row ∈ tables.jobs := by simp [best.split]
    obtain ⟨envelope, decoded, stored⟩ := tidy.decode member
    obtain ⟨_, _, free⟩ := visible_iff.mp best.chosenEligible
    rw [picked]
    simp only [decoded]
    rw [tidy.updateJob_split best.split]
    unfold IsChanges
    simp only [leaseAction, Action.active, stored.id]
    exact Changes.single (.lease best.split free)

theorem reserveLoop_changes (tidy : Tidy serde tables)
    {mint : ReservationReceipt} {lane : Lane} {max left : Nat}
    {result : Option Reservation × Tables}
    (looped : reserveLoop serde config now mint lane max left tables = .ok result) :
    CallChanges serde config now mint [] tables (grantOf result.1) result.2 := by
  induction left generalizing tables with
  | zero =>
    cases looped
    exact .refl tables
  | succ left ih =>
    unfold reserveLoop at looped
    rcases nextVisible_cases tables lane (nanos now) with
      ⟨none, _⟩ | ⟨before, row, after, picked, best⟩
    · rw [none] at looped
      cases looped
      exact .refl tables
    · have member : row ∈ tables.jobs := by simp [best.split]
      obtain ⟨envelope, decoded, stored⟩ := tidy.decode member
      obtain ⟨_, _, free⟩ := visible_iff.mp best.chosenEligible
      rw [picked] at looped
      simp only at looped
      split at looped
      · rw [deadLetterSeq_eq tidy best.split] at looped
        split at looped
        · cases looped
        · next notDead =>
          -- The row is swept and the loop goes on.
          have swept : CallChanges serde config now mint [] tables [] _ :=
            Changes.single (.sweep best.split free rfl
              (tidy.deadMove best.split (by simpa using notDead)
                (lt_nextDeadSeq tables) config.retention
                (overDeliveredText max) (nanos now)))
          exact swept.trans (ih (swept.tidy tidy) looped)
      · rw [decoded] at looped
        cases looped
        rw [tidy.updateJob_split best.split]
        have leased : CallChanges serde config now mint [] tables _ _ :=
          Changes.single (.lease best.split free)
        simpa [grantOf, stored.id] using leased

theorem reserve_isChanges (tidy : Tidy serde tables) (now : Nat)
    (mint : ReservationReceipt) (lane : Lane) :
    IsChanges serde config tables ⟨now, mint, .reserve lane⟩
      (reserve serde config tables now mint lane) := by
  unfold reserve
  split
  · exact reserveUnbounded_isChanges tidy now mint lane
  · next max _ =>
    cases looped : reserveLoop serde config now mint lane max maxDeadLetterSweep tables with
    | error failure => exact rejected_isChanges ..
    | ok result =>
      unfold IsChanges
      simp only [commit]
      rw [leaseAction_reserve]
      exact reserveLoop_changes tidy looped

theorem requeueRow_ok {id : JobId} {row : DeadRow} {envelope : JobEnvelope}
    (decoded : decodeEnvelope serde row.envelope = .ok envelope)
    (notLive : tables.hasJob envelope.id = false)
    (keyFree : ∀ name ∈ row.uniqueKey, tables.hasKey name = false) :
    requeueRow serde tables now id row =
      .ok ((tables.withRow (newRow (nextJobSeq tables) envelope row.lane now
        row.envelope) row.uniqueKey).deleteDead id) := by
  unfold requeueRow
  simp only [decoded, Bind.bind, Except.bind, notLive]
  cases key : row.uniqueKey with
  | none => simp [Tables.withRow, Tables.insertJob]
  | some name =>
    have free := keyFree name key
    simp [free, Tables.withRow, Tables.insertJob, Tables.insertKey]

theorem requeueRow_changes (tidy : Tidy serde tables)
    {id : JobId} {row : DeadRow} {changed : Tables}
    (member : row ∈ tables.dead) (own : row.id = id)
    (requeued : requeueRow serde tables (nanos now) id row = .ok changed)
    (mint : ReservationReceipt) :
    CallChanges serde config now mint [] tables [] changed := by
  obtain ⟨envelope, stored⟩ := tidy.deadStored row member
  have decoded := decode_of_encode stored.encodes
  have absent : tables.hasJob envelope.id = false := by
    apply Bool.eq_false_iff.mpr
    intro live
    simp [requeueRow, decoded, Bind.bind, Except.bind, live] at requeued
  have keyFree : ∀ name ∈ row.uniqueKey, tables.hasKey name = false := by
    intro name held
    rw [Option.mem_def] at held
    apply Bool.eq_false_iff.mpr
    intro taken
    simp [requeueRow, decoded, Bind.bind, Except.bind, absent, held, taken] at requeued
  rw [requeueRow_ok decoded absent keyFree] at requeued
  cases requeued
  have storedRow : StoredRow serde (newRow (nextJobSeq tables) envelope row.lane (nanos now)
        row.envelope) envelope :=
    ⟨stored.encodes, rfl, stored.lane, rfl⟩
  have dropped : (tables.deleteDead id).hasDead envelope.id = false :=
    hasDead_deleteDead (stored.id.trans own)
  exact .head (.drop filter_sublist) (Changes.single (.insert row.uniqueKey storedRow rfl rfl absent
    (.inr dropped) (lt_nextJobSeq tables) keyFree))

theorem requeue_isChanges (tidy : Tidy serde tables) (now : Nat)
    (mint : ReservationReceipt) (id : JobId) :
    IsChanges serde config tables ⟨now, mint, .requeue id⟩ (requeue serde tables now id) := by
  have moved : ∀ row ∈ tables.dead, row.id = id →
      IsChanges serde config tables ⟨now, mint, .requeue id⟩
      (commit tables (fun _ : Unit => .done)
        ((requeueRow serde tables (nanos now) id row).map ((), ·))) := by
    intro row member own
    cases requeued : requeueRow serde tables (nanos now) id row with
    | error failure => exact rejected_isChanges ..
    | ok changed => exact requeueRow_changes tidy member own requeued mint
  unfold requeue
  cases found : tables.deadById id with
  | none => exact rejected_isChanges ..
  | some row =>
    have member := mem_of_find?_eq_some found
    have own : row.id = id := by simpa using find?_some found
    simp only
    split
    · exact rejected_isChanges ..
    · split
      · split
        · exact rejected_isChanges ..
        · exact moved row member own
      · exact moved row member own

theorem enqueueScheduled_isChanges (tidy : Tidy serde tables) (now : Nat)
    (mint : ReservationReceipt) (scheduleId : String) (occurrence : Int64)
    (job : NewJob) :
    IsChanges serde config tables ⟨now, mint, .enqueueScheduled scheduleId occurrence job⟩
      (enqueueScheduled serde tables now scheduleId occurrence job) := by
  unfold enqueueScheduled
  cases claims : tables.claimOccurrence scheduleId occurrence with
  | none => exact .refl tables
  | some claimed =>
    have scheduled : CallChanges serde config now mint [job.id] tables [] claimed := by
      unfold Tables.claimOccurrence at claims
      split at claims
      · cases claims
        exact Changes.single (.schedule _)
      · split at claims
        · cases claims
          exact Changes.single (.schedule _)
        · cases claims
    simp only
    cases inserted : insertJob serde claimed job (nanos (saturatingAdd now job.delay)) with
    | error failure => exact rejected_isChanges ..
    | ok result =>
      exact scheduled.trans (insertJob_changes (scheduled.tidy tidy) (mem_singleton_self _) inserted
        now mint)

theorem perform_isChanges (config : Config) (tidy : Tidy serde tables)
    (distinct : DistinctReceipts (holders tables)) (input : Input) :
    IsChanges serde config tables input (perform serde config tables input) := by
  obtain ⟨now, mint, call⟩ := input
  cases call with
  | enqueue job =>
    cases inserted : insertJob serde tables job (nanos (saturatingAdd now job.delay)) with
    | error failure =>
      simp only [perform, enqueue, inserted]
      exact rejected_isChanges ..
    | ok result =>
      simp only [perform, enqueue, inserted]
      exact insertJob_changes tidy (mem_singleton_self _) inserted now mint
  | enqueueBatch jobs =>
    cases inserted : insertAll serde now tables jobs with
    | error failure =>
      simp only [perform, enqueueBatch, inserted]
      exact rejected_isChanges ..
    | ok result =>
      simp only [perform, enqueueBatch, inserted]
      exact insertAll_changes tidy (fun _ member => mem_map_of_mem member) inserted mint
  | reserve lane => exact reserve_isChanges tidy now mint lane
  | ack receipt => exact ack_isChanges tidy now mint receipt
  | retry receipt delay => exact retry_isChanges tidy now mint receipt delay
  | defer receipt delay => exact defer_isChanges tidy now mint receipt delay
  | fail receipt error => exact fail_isChanges tidy now mint receipt error
  | extend receipt => exact extend_isChanges tidy distinct now mint receipt
  | requeue id => exact requeue_isChanges tidy now mint id
  | purgeDeadLetters lane =>
    exact Changes.single (.drop filter_sublist)
  | enqueueScheduled scheduleId occurrence job =>
    exact enqueueScheduled_isChanges tidy now mint scheduleId occurrence job
  | removeSchedule scheduleId => exact Changes.single (.schedule _)
  | readDeadLetters lane limit =>
    simp only [perform, IsChanges, readDeadLetters]
    cases readRows serde ((tables.deadOfLane lane).take (min limit i64Max)) <;>
      exact .refl tables
  | classify id => exact .refl tables
  | countDeadLetters lane => exact .refl tables
  | pendingCount lane => exact .refl tables

end Calls

/-! ## Runs -/

theorem reserveLoop_mint {serde : SerdeJson} {config : Config}
    {tables : Tables} {now : Nat} {mint : ReservationReceipt}
    {lane : Lane} {max left : Nat} {reservation : Reservation}
    {next : Tables}
    (looped : reserveLoop serde config now mint lane max left tables =
      .ok (some reservation, next)) : reservation.receipt = mint := by
  induction left generalizing tables with
  | zero => cases looped
  | succ left ih =>
    unfold reserveLoop at looped
    split at looped
    · cases looped
    · next row _ =>
      split at looped
      · cases swept : deadLetterSeq serde config tables row (overDeliveredText max) (nanos now) with
        | error failure =>
          rw [swept] at looped
          cases looped
        | ok moved =>
          rw [swept] at looped
          exact ih looped
      · cases decoded : decodeEnvelope serde row.envelope with
        | error failure =>
          rw [decoded] at looped
          cases looped
        | ok envelope =>
          rw [decoded] at looped
          cases looped
          rfl

theorem handsOutMinted (serde : SerdeJson) (config : Config) :
    HandsOutMinted (machine serde config) := by
  intro tables input id receipt grants
  obtain ⟨lane, reservation, reserves, reply, _, rfl⟩ := leaseAction_grant grants
  obtain ⟨now, mint, call⟩ := input
  cases reserves
  simp only [machine, perform, reserve] at reply
  split at reply
  · unfold reserveUnbounded at reply
    split at reply
    · cases reply
    · simp only at reply
      split at reply <;> cases reply
      rfl
  · next max _ =>
    cases looped : reserveLoop serde config now mint lane max maxDeadLetterSweep tables with
    | error failure =>
      rw [looped] at reply
      cases reply
    | ok result =>
      obtain ⟨handed, next⟩ := result
      rw [looped] at reply
      cases reply
      exact reserveLoop_mint looped

theorem run_tidy_and_leases (serde : SerdeJson) (config : Config)
    (inputs : List Input) (fresh : FreshMints inputs) :
    Tidy serde ((machine serde config).run inputs) ∧ Lib.Lease.Runs (nanosClock config).deadline
        (leaseLog nanos ((machine serde config).trace inputs))
        (holders ((machine serde config).run inputs)) := by
  apply leaseRun_of_steps (nanosClock config) (Tidy serde) holders
    (handsOutMinted serde config) (tidy_empty serde) rfl ?_ inputs fresh
  intro past input _ tidy distinct
  have changes := perform_isChanges config tidy distinct input
  exact ⟨changes.tidy tidy, changes.leaseStep ((nanosClock config).deadline_round input.now) tidy
      rfl⟩

end Worklane.Sqlite
