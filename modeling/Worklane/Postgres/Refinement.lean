import Worklane.Postgres.DeadIds
import Worklane.Postgres.Unnest
import Worklane.Sqlite.Refinement

/-!
# `PostgresBroker` refines `InMemoryBroker`

On the same tables a call does what SQLite does, except that the rows it
inserts carry the numbers the sequences give out.  The pairing with the
in-memory store asks of those numbers only that they grow.
-/

namespace Worklane.Postgres

open List
open Worklane.Sql
open Worklane.Memory (StoredJob DeadEntry Inner Running)
open Worklane.Sqlite (Stage Agrees)

/-! ## Calls that draw no number -/

section Calls

variable {serde : SerdeJson} {config : Config}
variable {relabel : ReservationReceipt → ReservationReceipt}
variable {now : Nat} {used : List JobId} {served limit : Nat}
variable {inner : Inner} {db : Database}

/-- What is seen of a call: the tables it leaves and its reply. -/
def seen (outcome : Database × Reply) : Tables × Reply :=
  (outcome.1.tables, outcome.2)

/-- The texts of a job that stand in indexes. -/
def jobTexts (job : NewJob) : List String :=
  job.lane.name :: job.uniqueKey.toList

/-- The texts a call stores in indexes. -/
def indexedTexts : Call → List String
  | .enqueueScheduled scheduleId _ job => scheduleId :: jobTexts job
  | call => call.newJobs.flatMap jobTexts

/-- The texts a call sends. -/
def texts : Call → List String
  | .fail _ error => [error]
  | .removeSchedule scheduleId => [scheduleId]
  | .reserve lane | .readDeadLetters lane _ | .countDeadLetters lane
  | .purgeDeadLetters lane | .pendingCount lane => [lane.name]
  | call => indexedTexts call

def NoNul (texts : List String) : Prop :=
  ∀ text ∈ texts, '\x00' ∉ text.toList

/-- The server takes the texts of the call. -/
structure Sendable (call : Call) : Prop where
  clean : NoNul (texts call)
  indexable : ∀ text ∈ indexedTexts call, text.utf8ByteSize ≤ maxIndexedBytes

theorem checkText_ok {text : String} (clean : '\x00' ∉ text.toList) :
    checkText text = .ok () :=
  if_neg clean

theorem checkLane_ok {job : NewJob} (clean : NoNul (jobTexts job)) :
    checkText job.lane.name = .ok () :=
  checkText_ok (clean _ (mem_cons_self ..))

theorem checkKey_ok {job : NewJob} (clean : NoNul (jobTexts job)) : checkKey job = .ok () := by
  unfold checkKey
  cases key : job.uniqueKey with
  | none => rfl
  | some name =>
    exact checkText_ok (clean name (mem_cons_of_mem _ (Option.mem_toList.mpr key)))

theorem onLane_ok {lane : Lane} {outcome : Database × Reply} (clean : NoNul [lane.name]) :
    onLane lane db outcome = outcome := by
  unfold onLane
  rw [checkText_ok (clean _ (mem_singleton_self _))]

section Resolutions

variable (tidy : Tidy serde db.tables) (distinct : DistinctReceipts (holders db.tables))

include tidy distinct

theorem resolve_seen (receipt : ReservationReceipt) (now : Nat)
    (change : JobRow → Database × Except Error Unit) :
    seen (resolve db receipt now change) = Sqlite.resolve db.tables receipt now fun row =>
      (change row).2.map fun _ => (change row).1.tables := by
  unfold resolve Sqlite.resolve
  rw [findValidRowLocked_eq tidy distinct]
  cases db.tables.findValidRow receipt (nanos now) with
  | error failure => rfl
  | ok row =>
    simp only [Bind.bind, Except.bind, transaction, seen]
    cases (change row).2 <;> rfl

theorem ack_seen (receipt : ReservationReceipt) (now : Nat) :
    seen (ack db now receipt) = Sqlite.ack db.tables now receipt := by
  unfold Sqlite.ack Sqlite.resolve
  rcases findValidRow_cases db.tables receipt (nanos now) with
    missing | ⟨before, row, after, split, current, found⟩
  · have absent : ¬ ∃ row ∈ db.tables.jobs, Current (nanos now) row receipt := by
      rintro ⟨row, live, current⟩
      rw [tidy.findValidRow_current distinct live current] at missing
      cases missing
    rw [ack_stale absent, missing]
    rfl
  · rw [ack_split tidy distinct split current, found]
    simp only [Bind.bind, Except.bind, tidy.deleteJob_split split]
    rfl

theorem retry_seen (receipt : ReservationReceipt) (now delay : Nat) :
    seen (retry serde db now receipt delay) = Sqlite.retry serde db.tables now receipt delay := by
  unfold retry Sqlite.retry
  rw [resolve_seen tidy distinct]
  congr 1
  funext row
  cases decodeEnvelope serde row.envelope with
  | error failure => rfl
  | ok envelope =>
    simp only [Bind.bind, Except.bind]
    cases encodeEnvelope serde envelope.bump <;> rfl

theorem defer_seen (receipt : ReservationReceipt) (now delay : Nat) :
    seen (defer db now receipt delay) = Sqlite.defer db.tables now receipt delay :=
  resolve_seen tidy distinct receipt now _

end Resolutions

theorem extend_seen (receipt : ReservationReceipt) (now : Nat) :
    seen (extend config db now receipt) = Sqlite.extend config db.tables now receipt := by
  unfold extend Sqlite.extend
  change seen (if db.tables.jobs.any (Sqlite.extendable receipt (nanos now)) = true then _ else _) =
    _
  split <;> rfl

theorem reserveUnbounded_seen (mint : ReservationReceipt) (lane : Lane) :
    seen (reserveUnbounded serde config db now mint lane) =
      Sqlite.reserveUnbounded serde config db.tables now mint lane := by
  unfold reserveUnbounded Sqlite.reserveUnbounded
  cases db.tables.nextVisible lane (nanos now) with
  | none => rfl
  | some row =>
    simp only
    cases decodeEnvelope serde row.envelope <;> rfl

/-! ## Calls that draw a number -/

theorem forM_checkText {keys : List String} (clean : ∀ key ∈ keys, checkText key = .ok ()) :
    keys.forM checkText = .ok () := by
  induction keys with
  | nil => rfl
  | cons key rest ih =>
    unfold List.forM
    rw [clean key (mem_cons_self ..)]
    exact ih fun other member => clean other (mem_cons_of_mem _ member)

theorem mem_lockKeys {jobs : List NewJob} {key : String} (member : key ∈ lockKeys jobs) :
    ∃ job ∈ jobs, job.uniqueKey = some key := by
  have sorted := (destutter_sublist (· ≠ ·) _).subset member
  rw [mem_insertionSort] at sorted
  exact mem_filterMap.mp sorted

theorem free_of_next {tables : Tables} {lane : Lane} {row : JobRow}
    (next : tables.nextVisible lane now = some row) : Free now row := by
  rcases nextVisible_cases tables lane now with ⟨none, _⟩ | ⟨before, best, after, picked, chosen⟩
  · rw [none] at next
    cases next
  · rw [picked] at next
    cases next
    exact (visible_iff.mp chosen.chosenEligible).2.2

section Ready

variable (ready : Ready serde db)

include ready

variable (stage : Stage serde relabel now used served limit inner db.tables)

include stage

theorem insertOne_agrees {job : NewJob} (clean : NoNul (jobTexts job)) (fresh : job.id ∉ used)
    (encodable : Encodable serde job.intoEnvelope) :
    ∃ next, insertJob serde db job (nanos (saturatingAdd now job.delay)) =
        (next, .ok (Memory.insertOne inner job now).2) ∧ Ready serde next ∧
      Stage serde relabel now (used ++ [job.id]) served limit
        (Memory.insertOne inner job now).1 next.tables := by
  obtain ⟨blob, encoded⟩ := encodable.encodes_new
  have transacts : Transacts serde ⟨0, ⟨none, none⟩, none⟩ 0 ⟨⟨0⟩⟩ [job.id] db (fun _ => [])
      (insertJob serde db job (nanos (saturatingAdd now job.delay))) :=
    insertJob_transacts ready (mem_singleton_self _) _
  rw [insertJob_eq ready.tidy, checkKey_ok clean,
    encodeRow_ok_iff.mpr ⟨encoded, checkLane_ok clean⟩] at transacts ⊢
  rcases stage.insert job fresh encodable encoded ready.numbered.nextJob with
    ⟨row, held, same⟩ | ⟨free, absent, id, next⟩
  · rw [held, same]
    exact ⟨db, rfl, ready, stage.mono (fun _ member => mem_append_left _ member) (Nat.le_refl _)
      (Nat.le_refl _)⟩
  · rw [free, absent] at transacts ⊢
    rw [id]
    exact ⟨_, rfl, (transacts.commits _ rfl).ready ready, next⟩

theorem enqueue_agrees {job : NewJob} (clean : NoNul (jobTexts job)) (fresh : job.id ∉ used)
    (encodable : Encodable serde job.intoEnvelope) :
    Agrees serde relabel now (used ++ [job.id]) served limit
      (Memory.enqueue inner now job) (seen (enqueue serde db now job)) := by
  obtain ⟨next, inserted, _, stored⟩ := insertOne_agrees ready stage clean fresh encodable
  unfold Memory.enqueue enqueue
  rw [Memory.checkPayloadSize_ok encodable.encodes_new, inserted]
  exact ⟨rfl, stored⟩

theorem enqueueScheduled_agrees {scheduleId : String} (named : checkText scheduleId = .ok ())
    (occurrence : Int64) {job : NewJob} (clean : NoNul (jobTexts job)) (fresh : job.id ∉ used)
    (encodable : Encodable serde job.intoEnvelope) :
    Agrees serde relabel now (used ++ [job.id]) served limit
      (Memory.enqueueScheduled inner now scheduleId occurrence job)
      (seen (enqueueScheduled serde db now scheduleId occurrence job)) := by
  have claim := stage.claim scheduleId occurrence
  unfold Memory.enqueueScheduled enqueueScheduled
  rw [named]
  by_cases won : Memory.wins (inner.schedules scheduleId) occurrence = true
  · simp only [won, if_true] at claim ⊢
    obtain ⟨claimed, found, next⟩ := claim
    obtain ⟨schedules, rfl⟩ := claimOccurrence_schedules found
    have prepared : Ready serde { db with tables := { db.tables with schedules := schedules } } :=
      ⟨{ ready.tidy with }, { ready.numbered with }⟩
    obtain ⟨final, inserted, _, stored⟩ :=
      insertOne_agrees prepared next clean fresh encodable
    rw [found]
    simp only [inserted]
    exact ⟨rfl, stored⟩
  · simp only [won] at claim ⊢
    rw [claim]
    exact ⟨rfl, stage.mono (fun _ member => mem_append_left _ member) (Nat.le_refl _)
      (Nat.le_refl _)⟩

theorem insertAll_agrees (jobs : List NewJob)
    (clean : ∀ job ∈ jobs, NoNul (jobTexts job))
    (fresh : ∀ job ∈ jobs, job.id ∉ used) (distinct : (jobs.map NewJob.id).Nodup)
    (encodable : ∀ job ∈ jobs, Encodable serde job.intoEnvelope) :
    ∃ next, insertAll serde now db jobs = (next, .ok (Memory.insertAll now inner jobs).2) ∧
      Stage serde relabel now (used ++ jobs.map NewJob.id) served limit
        (Memory.insertAll now inner jobs).1 next.tables := by
  induction jobs generalizing inner db used with
  | nil =>
    rw [map_nil, append_nil]
    exact ⟨db, rfl, stage⟩
  | cons job rest ih =>
    obtain ⟨apart, restDistinct⟩ := nodup_cons.mp distinct
    obtain ⟨grown, inserted, grownReady, next⟩ := insertOne_agrees ready stage
      (clean job (mem_cons_self ..)) (fresh job (mem_cons_self ..))
      (encodable job (mem_cons_self ..))
    obtain ⟨final, looped, finalStage⟩ := ih grownReady next
      (fun other member => clean other (mem_cons_of_mem _ member))
      (Sqlite.fresh_rest fresh apart) restDistinct
      (fun other member => encodable other (mem_cons_of_mem _ member))
    refine ⟨final, ?_, ?_⟩
    · simp only [insertAll, inserted, looped, Except.map, Memory.insertAll]
    · simpa [Memory.insertAll, append_assoc] using finalStage

theorem enqueueBatch_agrees (jobs : List NewJob) (clean : ∀ job ∈ jobs, NoNul (jobTexts job))
    (fresh : ∀ job ∈ jobs, job.id ∉ used) (distinct : (jobs.map NewJob.id).Nodup)
    (encodable : ∀ job ∈ jobs, Encodable serde job.intoEnvelope) :
    Agrees serde relabel now (used ++ jobs.map NewJob.id) served limit
      (Memory.enqueueBatch inner now jobs) (seen (enqueueBatch serde db now jobs)) := by
  obtain ⟨next, inserted, stored⟩ :=
    insertAll_agrees ready stage jobs clean fresh distinct encodable
  have body : enqueueBatch serde db now jobs =
      transaction db .jobIds (insertAll serde now db jobs) := by
    unfold enqueueBatch
    split
    · -- The one statement inserts the rows of the loop.
      next keyless =>
      have loop := @Unnest.insertAll_keyless serde now db jobs fun job member =>
        Option.isNone_iff_eq_none.mp (all_eq_true.mp keyless job member)
      rw [Unnest.checkLanes_ok fun job member => checkLane_ok (clean job member)] at loop
      rw [Unnest.rowByRow_eq,
        Unnest.checkLanes_ok fun job member => checkLane_ok (clean job member)]
      cases encoded : Unnest.encodeAll serde jobs with
      | error failure =>
        rw [encoded, inserted] at loop
        cases loop
      | ok rows =>
        rw [encoded] at loop
        simp only [loop]
    · rw [forM_checkText]
      intro key member
      obtain ⟨job, inside, keyed⟩ := mem_lockKeys member
      have sent := checkKey_ok (clean job inside)
      rwa [checkKey, keyed] at sent
  unfold Memory.enqueueBatch
  rw [body, inserted, Memory.checkPayloadSizes_ok fun job member =>
    (encodable job member).encodes_new]
  exact ⟨rfl, stored⟩

theorem deadLetter_agrees (small : now < i64Max) (few : limit < i64Max)
    {before after : List StoredJob} {job : StoredJob} {before' after' : List JobRow} {row : JobRow}
    (split : PairSplit serde relabel now inner db.tables before job after before' row after')
    {error : String} (sendable : checkText error = .ok ()) :
    ∃ next, deadLetterSeq serde config db row error now = (next, .ok ()) ∧
      Paired serde relabel now (Memory.deadLetterAt config.retention inner before.length error
        now).1 next.tables := by
  obtain ⟨notDead, paired⟩ := stage.bury small few split ready.numbered.nextDead error
  rw [deadLetterSeq_eq ready.tidy split.rows, sendable, notDead]
  exact ⟨_, rfl, paired⟩

theorem fail_agrees (small : now < i64Max) (injective : Function.Injective relabel)
    (distinct : DistinctReceipts (holders db.tables)) (few : limit < i64Max)
    (receipt : ReservationReceipt) {error : String} (sendable : checkText error = .ok ()) :
    Agrees serde relabel now used served (limit + 1)
      (Memory.fail Memory.releaseLease config inner now receipt error)
      (seen (fail serde config db now (relabel receipt) error)) := by
  unfold fail
  rw [resolve_seen ready.tidy distinct]
  apply Sqlite.resolve_agrees stage small injective distinct receipt (Nat.le_refl _)
    (Nat.le_succ _)
  intro before job after before' row after' split current
  obtain ⟨next, buried, paired⟩ := @deadLetter_agrees serde config _ _ _ _ _ _ _ ready stage small
    few _ _ _ _ _ _ split _ sendable
  rw [nanos_of_lt small, buried]
  refine ⟨next.tables, rfl, paired, ?_⟩
  exact stage.sound.buried config ⟨now, receipt, .fail receipt error⟩
    (.fail error split.jobs current) split.jobs rfl rfl rfl

theorem reserveLoop_agrees (small : now < i64Max) (short : served < u32Max)
    (lane : Lane) (mint : ReservationReceipt) {max : Nat}
    (bounded : config.maxDeliveries = some max) (left : Nat)
    (running : Running now inner) (few : limit + left ≤ i64Max) :
    ∃ next, reserveLoop serde config now (relabel mint) lane max left db =
        (next, .ok ((Memory.reserveLoop config lane now mint left inner).2.1.map
          (Reservation.rename relabel))) ∧
      Stage serde relabel now used (served + 1) (limit + left)
        (Memory.reserveLoop config lane now mint left inner).1 next.tables := by
  induction left generalizing inner db limit with
  | zero => exact ⟨db, rfl, stage.mono (fun _ => id) (Nat.le_succ _) (Nat.le_refl _)⟩
  | succ left ih =>
    unfold reserveLoop Memory.reserveLoop
    rw [nanos_of_lt small]
    rcases stage.paired.next small running lane with
      ⟨none, nothing⟩ | ⟨before, job, after, before', row, after', split, picked, due, next⟩
    · rw [none, nothing]
      exact ⟨db, rfl, stage.mono (fun _ => id) (Nat.le_succ _) (Nat.le_add_right ..)⟩
    · obtain ⟨_, idle, time⟩ := Memory.visible_iff.mp due
      rw [picked, next, bounded]
      simp only [stage.overDelivered short split, decide_eq_true_eq]
      split
      · obtain ⟨swept, buried, paired⟩ := @deadLetter_agrees serde config _ _ _ _ _ _ _ ready
          stage small (by omega) _ _ _ _ _ _ split _ (checkText_overDelivered max)
        have free : Free now row := free_of_next next
        have sound := stage.sound.buried config ⟨now, mint, .reserve _⟩
          (.sweep (overDeliveredText max) split.jobs idle time rfl) split.jobs rfl rfl rfl
        rw [← nanos_of_lt small] at buried free
        obtain ⟨final, looped, finalStage⟩ := ih (swept_ready ready split.rows buried free)
          ⟨paired, sound⟩ (running.deadLetter split.jobs _ _) (by omega)
        rw [nanos_of_lt small] at buried
        refine ⟨final, ?_, ?_⟩
        · simp only [buried, looped]
        · rw [Nat.add_assoc, Nat.add_comm 1] at finalStage
          exact finalStage
      · rw [decode_of_encode split.pair.stored.encodes]
        refine ⟨{ db with tables := db.tables.updateJob row.seq _ }, ?_, (stage.lease short split
          due).mono (fun _ => id) (Nat.le_refl _) (Nat.le_add_right ..)⟩
        rw [Memory.leaseAt_split config split.jobs]
        rfl

theorem reserve_agrees (small : now < i64Max) (short : served < u32Max)
    (few : limit + maxDeadLetterSweep ≤ i64Max) (lane : Lane) (mint : ReservationReceipt) :
    Agrees serde relabel now used (served + 1) (limit + maxDeadLetterSweep)
      (Memory.reserve Memory.releaseLease config inner now mint lane)
      (seen (reserve serde config db now (relabel mint) lane)) := by
  cases bound : config.maxDeliveries with
  | none =>
    have agreed := @Sqlite.reserve_agrees serde config _ _ _ _ _ _ _ stage small short few lane mint
    unfold Sqlite.reserve at agreed
    unfold reserve
    rw [bound] at agreed ⊢
    rwa [← reserveUnbounded_seen] at agreed
  | some max =>
    have running := Memory.running_releaseExpired Memory.releaseLease_releases now inner
    obtain ⟨next, looped, final⟩ := reserveLoop_agrees ready (stage.release small) small short
      lane mint bound maxDeadLetterSweep running few
    unfold Memory.reserve reserve
    rw [bound]
    simp only [looped, transaction, seen]
    exact ⟨congrArg Except.ok (Value.rename_reserved relabel _).symm, final⟩

theorem requeue_agrees (small : now < i64Max) (id : JobId) :
    Agrees serde relabel now used served limit (Memory.requeue inner now id)
      (seen (requeue serde db now id)) := by
  have coherent := stage.sound.coherent
  unfold Memory.requeue requeue
  rw [nanos_of_lt small]
  cases located : inner.dead.findIdx? fun entry => entry.id = id with
  | none =>
    rw [Sqlite.deadById_none stage.paired located]
    exact ⟨rfl, stage⟩
  | some position =>
    obtain ⟨before, entry, after, row, split, rfl, same, found, pair, pairs⟩ :=
      Sqlite.deadById_located stage.paired located
    have decoded := decode_of_encode pair.stored.encodes
    rw [found, stage.paired.hasJob]
    simp only
    by_cases live : inner.isLive id = true
    · rw [if_pos live, if_pos live]
      exact ⟨rfl, stage⟩
    · have notLive : inner.isLive id = false := by simpa using live
      have revive := stage.revive small split same pair pairs notLive
        ready.numbered.nextJob
      rw [if_neg live, if_neg live, split, Lib.getElem?_split, Lib.eraseIdx_split, pair.uniqueKey]
      simp only
      cases key : entry.uniqueKey with
      | none =>
        rw [key] at revive
        obtain ⟨absent, free, next⟩ := revive rfl
        simp only [requeueRow_ok decoded absent free]
        exact ⟨rfl, next⟩
      | some name =>
        simp only [stage.paired.hasKey coherent]
        cases holder : inner.unique name with
        | some other => exact ⟨rfl, stage⟩
        | none =>
          rw [key] at revive
          obtain ⟨absent, free, next⟩ := revive holder
          simp only [requeueRow_ok decoded absent free]
          exact ⟨rfl, next⟩

end Ready

/-! ## Any call -/

theorem perform_agrees (input : Input) (ready : Ready serde db)
    (stage : Stage serde relabel input.now used served limit inner db.tables)
    (small : input.now < i64Max) (short : served < u32Max)
    (few : limit + maxDeadLetterSweep ≤ i64Max)
    (injective : Function.Injective relabel) (distinct : DistinctReceipts (holders db.tables))
    (sendable : Sendable input.call) (fresh : ∀ job ∈ input.call.newJobs, job.id ∉ used)
    (ids : (input.call.newJobs.map NewJob.id).Nodup)
    (encodable : ∀ job ∈ input.call.newJobs, Encodable serde job.intoEnvelope) :
    Agrees serde relabel input.now (used ++ input.call.newJobs.map NewJob.id) (served + 1)
      (limit + maxDeadLetterSweep)
      (Memory.perform Memory.releaseLease config inner input)
      (seen (perform serde config db (input.rename relabel))) := by
  have there := @Sqlite.perform_agrees serde config relabel used served limit inner db.tables
    input stage small short few injective distinct fresh ids encodable
  obtain ⟨now, mint, call⟩ := input
  -- Most calls do on these tables what SQLite does.
  have kept : ∀ result, result = Sqlite.perform serde config db.tables
      (Input.rename relabel ⟨now, mint, call⟩) →
      Agrees serde relabel now (used ++ call.newJobs.map NewJob.id) (served + 1)
        (limit + maxDeadLetterSweep)
        (Memory.perform Memory.releaseLease config inner ⟨now, mint, call⟩) result := by
    rintro result rfl
    exact there
  have room : limit < i64Max := by
    unfold maxDeadLetterSweep at few
    omega
  have grown : ∀ {outcome : Memory.Outcome} {result : Tables × Reply},
      Agrees serde relabel now (used ++ call.newJobs.map NewJob.id) served limit outcome result →
      Agrees serde relabel now (used ++ call.newJobs.map NewJob.id) (served + 1)
        (limit + maxDeadLetterSweep) outcome result :=
    fun agrees => agrees.mono (fun _ => id) (Nat.le_succ _) (Nat.le_add_right ..)
  cases call with
  | enqueue job =>
    have clean : NoNul (jobTexts job) := fun text listed =>
      sendable.clean text (mem_flatMap.mpr ⟨job, mem_singleton_self job, listed⟩)
    exact grown (enqueue_agrees ready stage clean (fresh job (mem_singleton_self job))
      (encodable job (mem_singleton_self job)))
  | enqueueBatch jobs =>
    exact grown (enqueueBatch_agrees ready stage jobs (fun job member text listed =>
      sendable.clean text (mem_flatMap.mpr ⟨job, member, listed⟩)) fresh ids encodable)
  | enqueueScheduled scheduleId occurrence job =>
    exact grown (enqueueScheduled_agrees ready stage
      (checkText_ok (sendable.clean scheduleId (mem_cons_self ..))) occurrence
      (fun text listed => sendable.clean text (mem_cons_of_mem _ listed))
      (fresh job (mem_singleton_self job)) (encodable job (mem_singleton_self job)))
  | reserve lane =>
    change Agrees _ _ _ _ _ _ _ (seen (onLane lane db _))
    rw [onLane_ok sendable.clean]
    exact (reserve_agrees ready stage small short few lane mint).mono
      (fun _ member => mem_append_left _ member) (Nat.le_refl _) (Nat.le_refl _)
  | fail receipt error =>
    exact (fail_agrees ready stage small injective distinct room receipt
      (checkText_ok (sendable.clean error (mem_singleton_self error)))).mono
      (fun _ member => mem_append_left _ member) (Nat.le_succ _)
      (Nat.add_le_add_left (by decide) limit)
  | requeue id =>
    exact (requeue_agrees ready stage small id).mono (fun _ member => mem_append_left _ member)
      (Nat.le_succ _) (Nat.le_add_right ..)
  | ack receipt => exact kept _ (ack_seen ready.tidy distinct _ now)
  | retry receipt delay => exact kept _ (retry_seen ready.tidy distinct _ now delay)
  | defer receipt delay => exact kept _ (defer_seen ready.tidy distinct _ now delay)
  | extend receipt => exact kept _ (extend_seen _ now)
  | removeSchedule scheduleId =>
    have named := checkText_ok (sendable.clean scheduleId (mem_singleton_self scheduleId))
    apply kept
    simp only [perform, Input.rename, Call.rename, removeSchedule, named]
    rfl
  | readDeadLetters | countDeadLetters | purgeDeadLetters | pendingCount =>
    exact kept _ (congrArg seen (onLane_ok sendable.clean))
  | classify => exact kept _ rfl

end Calls

/-! ## Runs -/

/-- The runs over which the brokers are compared. -/
structure Comparable (serde : SerdeJson) (inputs : List Input) : Prop where
  brokers : Sqlite.Comparable serde inputs
  sendable : ∀ input ∈ inputs, Sendable input.call

theorem comparable_past (serde : SerdeJson) : Lib.Machine.PrefixClosed (Comparable serde) := by
  intro past input comparable
  refine ⟨Sqlite.comparable_past serde past input comparable.brokers, ?_⟩
  intro earlier member
  exact comparable.sendable earlier (mem_append_left _ member)

theorem step_agrees {serde : SerdeJson} (config : Config)
    {relabel : ReservationReceipt → ReservationReceipt} (injective : Function.Injective relabel)
    (past : List Input) (input : Input) (comparable : Comparable serde (past ++ [input]))
    (stage : Stage serde relabel (lastReading past) ((newJobs past).map NewJob.id) past.length
      (past.length * maxDeadLetterSweep) ((Memory.machine config).run past)
      ((machine serde config).run (past.map (Input.rename relabel))).tables) :
    let inner := (Memory.machine config).run past
    let db := (machine serde config).run (past.map (Input.rename relabel))
    Stage serde relabel (lastReading (past ++ [input])) ((newJobs (past ++ [input])).map NewJob.id)
        (past ++ [input]).length
        ((past ++ [input]).length * maxDeadLetterSweep)
        ((Memory.machine config).step inner input).1
        ((machine serde config).step db (input.rename relabel)).1.tables ∧
      ((machine serde config).step db (input.rename relabel)).2 =
        Reply.rename relabel ((Memory.machine config).step inner input).2 := by
  intro inner db
  have brokers := comparable.brokers
  have short := brokers.short
  have ids := brokers.ids
  rw [length_append, length_singleton] at short
  rw [newJobs_concat, map_append] at ids
  have member : ∀ job ∈ input.call.newJobs, job ∈ newJobs (past ++ [input]) := by
    intro job listed
    rw [newJobs_concat]
    exact mem_append_right _ listed
  obtain ⟨ready, leases⟩ := run_ready_and_leases serde config (past.map (Input.rename relabel))
    (freshMints_rename relabel injective (freshMints_past past input brokers.fresh))
  have agrees : Agrees serde relabel input.now _ _ _
      (Memory.perform Memory.releaseLease config inner input)
      (seen (perform serde config db (input.rename relabel))) :=
    perform_agrees input ready
      ⟨stage.paired.mono (lastReading_le brokers.monotone), stage.sound⟩
      (brokers.clock input (by simp)) (by unfold u32Max; omega)
      (by unfold maxDeadLetterSweep i64Max; omega) injective leases.faithful.unique
      (comparable.sendable input (by simp))
      (fun job listed used => disjoint_of_nodup_append ids used (mem_map_of_mem listed))
      (nodup_append.mp ids).2.1 (fun job listed => brokers.encodable job (member job listed))
  refine ⟨?_, agrees.reply⟩
  rw [lastReading_concat, newJobs_concat, map_append,
    length_append, length_singleton, Nat.add_mul, Nat.one_mul]
  exact agrees.stage

/-- `PostgresBroker` refines `InMemoryBroker`: the same calls get the same
replies, up to the names of receipts. -/
theorem replies_agree (serde : SerdeJson) (config : Config)
    (relabel : ReservationReceipt → ReservationReceipt) (injective : Function.Injective relabel)
    (inputs : List Input) (comparable : Comparable serde inputs) :
    (machine serde config).replies (inputs.map (Input.rename relabel)) =
      ((Memory.machine config).replies inputs).map (Reply.rename relabel) := by
  obtain ⟨_, agreed⟩ := (Memory.machine config).replies_of_simulation
    (machine serde config) (Input.rename relabel)
    (fun past inner db => Stage serde relabel (lastReading past) ((newJobs past).map NewJob.id)
      past.length (past.length * maxDeadLetterSweep) inner db.tables)
    (fun _ reply reply' => reply' = Reply.rename relabel reply)
    (comparable_past serde)
    ⟨paired_empty serde relabel 0, Memory.sound_empty fun _ => Encodable.bump⟩
    (step_agrees config injective) inputs comparable
  have same := Lib.map_eq_of_aligned agreed fun entry reply (answered : reply =
    Reply.rename relabel entry.2) => answered.symm
  rw [map_id'] at same
  rw [← same, Lib.Machine.replies, map_map]
  rfl

theorem replies_agree_swept_job : let job : NewJob :=
      ⟨⟨⟨1⟩⟩, ⟨"mail"⟩, "send", [1, 2], 3, 0, some "key", 5, none⟩
    let inputs : List Input :=
      [⟨1, ⟨⟨0⟩⟩, .enqueue job⟩, ⟨7, ⟨⟨7⟩⟩, .reserve ⟨"mail"⟩⟩, ⟨90, ⟨⟨8⟩⟩, .reserve ⟨"mail"⟩⟩,
        ⟨95, ⟨⟨0⟩⟩, .requeue ⟨⟨1⟩⟩⟩]
    let config : Config := ⟨30, ⟨none, none⟩, some 1⟩
    Comparable Json.serde inputs ∧
      (machine Json.serde config).replies (inputs.map (Input.rename id)) =
        ((Memory.machine config).replies inputs).map (Reply.rename id) := by
  intro job inputs config
  have brokers : Sqlite.Comparable Json.serde inputs := by
    refine ⟨by decide, by decide, by decide, by decide, ?_, by decide⟩
    intro submitted member
    have same : submitted = job := by
      simpa [newJobs, inputs, Call.newJobs] using member
    rw [same]
    exact Json.encodable_of_room rfl (by decide +kernel)
  have comparable : Comparable Json.serde inputs := by
    refine ⟨brokers, ?_⟩
    intro input member
    refine ⟨?_, ?_⟩
    · unfold NoNul
      revert input
      decide
    · revert input
      decide
  exact ⟨comparable, replies_agree Json.serde config id Function.injective_id inputs comparable⟩

end Worklane.Postgres
