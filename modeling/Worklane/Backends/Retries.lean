import Worklane.Core.Json
import Worklane.Postgres.Invariant
import Worklane.Sqlite.Invariant

/-!
# Retrying a stored job

The SQL brokers keep a job as its encoding and write it anew, with one more
attempt, when it is retried.  The size cap is checked again there, and the
counter may have grown by a digit.
-/

namespace Worklane

/-! ## The size of the new encoding -/

namespace Json

open Lib.Format

/-- The cap leaves room for a longer count, or the next count is no longer. -/
def RoomToRetry (blob : Blob) (attempts : Nat) : Prop :=
  blob.length < maxEnvelopeBytes ∨ (number.print (saturatingSucc attempts)).length ≤
      (number.print attempts).length

instance (blob : Blob) (attempts : Nat) : Decidable (RoomToRetry blob attempts) :=
  inferInstanceAs (Decidable (_ ∨ _))

theorem length_number_le_iff {value width : Nat} (some : 0 < width) :
    (number.print value).length ≤ width ↔ value < 10 ^ width := by
  simp only [number, List.length_map]
  exact Nat.length_toDigits_le_iff (by decide) some

theorem length_number_pos (value : Nat) : 0 < (number.print value).length := by
  simp only [number, List.length_map]
  exact Nat.length_toDigits_pos

theorem length_number_succ (attempts : Nat) : (number.print (saturatingSucc attempts)).length ≤
      (number.print attempts).length + 1 := by
  have positive := length_number_pos attempts
  have bound := (length_number_le_iff positive).mp (Nat.le_refl _)
  have next : saturatingSucc attempts ≤ attempts + 1 := Nat.min_le_left ..
  apply (length_number_le_iff (Nat.succ_pos _)).mpr
  rw [Nat.pow_succ]
  omega

theorem encode_of_fits {envelope : JobEnvelope}
    (context : checkTraceContext envelope.traceContext = .ok ())
    (fits : (Json.envelope.print envelope).length ≤ maxEnvelopeBytes) :
    encodeEnvelope serde envelope = .ok (Json.envelope.print envelope) := by
  simp only [encodeEnvelope, context, Bind.bind, Except.bind, serde]
  exact if_neg (Nat.not_lt.mpr fits)

theorem encode_of_long {envelope : JobEnvelope}
    (context : checkTraceContext envelope.traceContext = .ok ())
    (long : maxEnvelopeBytes < (Json.envelope.print envelope).length) :
    encodeEnvelope serde envelope = .error (.serialization
      s!"encoded job envelope is {(Json.envelope.print envelope).length} bytes, over the {maxEnvelopeBytes}-byte limit") := by
  simp only [encodeEnvelope, context, Bind.bind, Except.bind, serde]
  exact if_pos long

theorem encodes_bump_iff {envelope : JobEnvelope} {blob : Blob}
    (encoded : encodeEnvelope serde envelope = .ok blob) :
    (∃ next, encodeEnvelope serde envelope.bump = .ok next) ↔
      RoomToRetry blob envelope.attempts := by
  obtain ⟨context, rfl, fits⟩ := of_encode encoded
  change (Json.envelope.print envelope).length ≤ _ at fits
  change _ ↔ RoomToRetry (Json.envelope.print envelope) _
  have length := length_print_attempts envelope (saturatingSucc envelope.attempts)
  have within := length_number_succ envelope.attempts
  have same : { envelope with
      attempts := saturatingSucc envelope.attempts } = envelope.bump := rfl
  rw [same] at length
  constructor
  · rintro ⟨next, accepted⟩
    obtain ⟨_, rfl, bound⟩ := of_encode accepted
    change (Json.envelope.print envelope.bump).length ≤ _ at bound
    unfold RoomToRetry
    omega
  · intro room
    refine ⟨_, @encode_of_fits envelope.bump context ?_⟩
    unfold RoomToRetry at room
    omega

end Json

/-! ## The two brokers -/

open Sql

section Retry

variable {serde : SerdeJson} {now : Nat} {receipt : ReservationReceipt}
  {row : JobRow} {envelope : JobEnvelope}

theorem Sqlite.retry_accepted {tables : Tables} (tidy : Tidy serde tables)
    (distinct : DistinctReceipts (holders tables))
    (member : row ∈ tables.jobs) (current : Current (nanos now) row receipt)
    (stored : StoredRow serde row envelope) (delay : Nat) :
    (Sqlite.retry serde tables now receipt delay).2 = .ok .done ↔
      ∃ next, encodeEnvelope serde envelope.bump = .ok next := by
  have found := tidy.findValidRow_current distinct member current
  have decoded := decode_of_encode stored.encodes
  simp only [Sqlite.retry, Sqlite.resolve, found, decoded, Bind.bind, Except.bind]
  cases encodeEnvelope serde envelope.bump with
  | error failure => simp [Sqlite.commit]
  | ok next => simp [Sqlite.commit]

theorem Postgres.retry_accepted {db : Postgres.Database} (tidy : Tidy serde db.tables)
    (distinct : DistinctReceipts (holders db.tables))
    (member : row ∈ db.tables.jobs)
    (current : Current (nanos now) row receipt)
    (stored : StoredRow serde row envelope) (delay : Nat) :
    (Postgres.retry serde db now receipt delay).2 = .ok .done ↔
      ∃ next, encodeEnvelope serde envelope.bump = .ok next := by
  have found := tidy.findValidRow_current distinct member current
  have decoded := decode_of_encode stored.encodes
  simp only [Postgres.retry, Postgres.resolve,
    Postgres.findValidRowLocked_eq tidy distinct, found, decoded,
    Except.bind]
  cases encodeEnvelope serde envelope.bump with
  | error failure => simp [Postgres.transaction]
  | ok next => simp [Postgres.transaction]

end Retry

/-- **A stored job can be retried exactly when there is room**: in every state
the SQL brokers reach, for the row of every current receipt. -/
theorem stored_job_retries (config : Config) (inputs : List Input)
    (fresh : FreshMints inputs) (now delay : Nat)
    (receipt : ReservationReceipt) (row : JobRow)
    (current : Current (nanos now) row receipt) :
    (row ∈ ((Sqlite.machine Json.serde config).run inputs).jobs →
      ∃ envelope, StoredRow Json.serde row envelope ∧ ((Sqlite.retry Json.serde
            ((Sqlite.machine Json.serde config).run inputs) now receipt
            delay).2 = .ok .done ↔
          Json.RoomToRetry row.envelope envelope.attempts)) ∧
    (row ∈ ((Postgres.machine Json.serde config).run inputs).tables.jobs →
      ∃ envelope, StoredRow Json.serde row envelope ∧ ((Postgres.retry Json.serde
            ((Postgres.machine Json.serde config).run inputs) now receipt
            delay).2 = .ok .done ↔
          Json.RoomToRetry row.envelope envelope.attempts)) := by
  constructor
  · intro member
    obtain ⟨tidy, leases⟩ := Sqlite.run_tidy_and_leases Json.serde config inputs fresh
    obtain ⟨envelope, stored⟩ := tidy.stored row member
    refine ⟨envelope, stored, ?_⟩
    rw [Sqlite.retry_accepted tidy leases.faithful.unique member current stored]
    exact Json.encodes_bump_iff stored.encodes
  · intro member
    obtain ⟨ready, leases⟩ := Postgres.run_ready_and_leases Json.serde config inputs fresh
    obtain ⟨envelope, stored⟩ := ready.tidy.stored row member
    refine ⟨envelope, stored, ?_⟩
    rw [Postgres.retry_accepted ready.tidy leases.faithful.unique member current stored]
    exact Json.encodes_bump_iff stored.encodes

/-! ## A job at the cap -/

namespace Json

open Lib.Format

/-- An envelope with `count + 1` zero bytes. -/
def zeros (count attempts : Nat) : JobEnvelope :=
  ⟨⟨⟨1⟩⟩, ⟨"mail"⟩, "email", List.replicate (count + 1) 0, attempts, 30, 0, none⟩

theorem length_zeros (count attempts : Nat) : (envelope.print (zeros count attempts)).length =
      131 + 2 * count + (number.print attempts).length := by
  have texts : textSize "mail" = 6 ∧ textSize "email" = 7 := by decide
  have digits : Nat.log 10 (0 : UInt8).toNat = 0 ∧ Nat.log 10 30 = 1 ∧ Nat.log 10 0 = 0 := by decide
  simp only [length_print, length_number, envelopeSize, zeros, listSize, List.map_replicate,
    List.sum_replicate_nat, List.length_replicate, texts, digits]
  omega

/-- A job whose first encoding takes `132 + 2 * count` bytes. -/
def zerosJob (count : Nat) : NewJob :=
  ⟨⟨⟨1⟩⟩, ⟨"mail"⟩, "email", List.replicate (count + 1) 0, 30, 0, none, 0, none⟩

end Json

namespace Sqlite

open Json (zerosJob)

/-- Reserve and retry, this often. -/
def rounds (job : NewJob) : Nat → List Input
  | 0 => [⟨0, ⟨⟨0⟩⟩, .enqueue job⟩]
  | count + 1 => rounds job count ++ [⟨0, ⟨⟨count⟩⟩, .reserve job.lane⟩,
        ⟨0, ⟨⟨count⟩⟩, .retry ⟨⟨count⟩⟩ 0⟩]

/-- The row of the job after as many retries. -/
def retriedRow (job : NewJob) (count : Nat) : JobRow :=
  ⟨1, job.id, none, job.lane, job.priority, 0, none,
    Json.envelope.print { job.intoEnvelope with attempts := count }, count⟩

def onlyRow (row : JobRow) : Tables :=
  { Tables.empty with jobs := [row] }

/-- No delivery bound, a lease of thirty. -/
def plainConfig : Config := ⟨30, ⟨none, none⟩, none⟩

section Rounds

variable {job : NewJob} {count : Nat}

theorem reserve_onlyRow {envelope : JobEnvelope} {mint : ReservationReceipt}
    {row : JobRow} (seen : visible row.lane 0 row = true)
    (encoded : encodeEnvelope Json.serde envelope = .ok row.envelope) :
    reserve Json.serde plainConfig (onlyRow row) 0 mint row.lane = (onlyRow (leaseRow mint 30 row),
        .ok (.reserved (some ⟨envelope, mint, 30⟩))) := by
  have next : (onlyRow row).nextVisible row.lane (nanos 0) = some row := by
    have first : Lib.bestIndex (visible row.lane 0) ordersBefore [row] =
        some 0 := by
      simp [Lib.bestIndex, Lib.bestIndexFrom, seen]
    exact congrArg (fun index => index.bind fun place => [row][place]?) first
  have leased : (onlyRow row).updateJob row.seq (leaseRow mint 30) =
      onlyRow (leaseRow mint 30 row) := by
    simp [onlyRow, Tables.updateJob]
  have leaseUntil : nanos (saturatingAdd 0 plainConfig.lease) = 30 := by
    decide
  change reserveUnbounded Json.serde plainConfig (onlyRow row) 0 mint row.lane = _
  simp only [reserveUnbounded, next, decode_of_encode encoded, leaseUntil, leased]
  rfl

theorem retry_onlyRow {envelope : JobEnvelope} {receipt : ReservationReceipt}
    {row : JobRow} (current : Current (nanos 0) row receipt)
    (encoded : encodeEnvelope Json.serde envelope = .ok row.envelope) :
    retry Json.serde (onlyRow row) 0 receipt 0 = match encodeEnvelope Json.serde envelope.bump with
      | .ok blob => (onlyRow (retryRow blob 0 row), .ok .done)
      | .error failure => (onlyRow row, .error failure) := by
  obtain ⟨held, endsAt, leasedUntil, future⟩ := current
  have found : (onlyRow row).findValidRow receipt (nanos 0) = .ok row := by
    simp [Tables.findValidRow, Tables.byReceipt, onlyRow, held, leasedUntil, future]
  have availableAt : nanos (saturatingAdd 0 0) = 0 := by
    decide
  simp only [retry, resolve, found, decode_of_encode encoded, Bind.bind, Except.bind, availableAt]
  cases encodeEnvelope Json.serde envelope.bump with
  | error failure => rfl
  | ok blob => simp [commit, onlyRow, Tables.updateJob]

theorem run_reserved (reached : (machine Json.serde plainConfig).run (rounds job count) =
      onlyRow (retriedRow job count))
    (encoded : encodeEnvelope Json.serde { job.intoEnvelope with attempts := count } =
        .ok (retriedRow job count).envelope) :
    (machine Json.serde plainConfig).run (rounds job count ++ [⟨0, ⟨⟨count⟩⟩, .reserve job.lane⟩]) =
      onlyRow (leaseRow ⟨⟨count⟩⟩ 30 (retriedRow job count)) := by
  have seen : visible job.lane 0 (retriedRow job count) = true := by
    simp [visible, retriedRow]
  rw [Lib.Machine.run_concat, reached]
  exact congrArg Prod.fst (@reserve_onlyRow _ ⟨⟨count⟩⟩ _ seen encoded)

theorem current_leased (receipt : ReservationReceipt) (row : JobRow) :
    Current (nanos 0) (leaseRow receipt 30 row) receipt :=
  ⟨rfl, 30, rfl, by decide⟩

/-- As long as the encodings fit, every round leaves the row with one more
attempt. -/
theorem run_rounds (keyless : job.uniqueKey = none) (prompt : job.delay = 0)
    (context : checkTraceContext job.traceContext = .ok ())
    (small : count ≤ u32Max)
    (fits : ∀ attempts ≤ count, (Json.envelope.print
      { job.intoEnvelope with attempts := attempts }).length ≤ maxEnvelopeBytes) :
    (machine Json.serde plainConfig).run (rounds job count) = onlyRow (retriedRow job count) := by
  induction count with
  | zero =>
    have encoded := @Json.encode_of_fits job.intoEnvelope context (fits 0 (Nat.le_refl _))
    change (enqueue Json.serde Tables.empty 0 job).1 = _
    simp only [enqueue, insertJob, keyless, Option.bind_none, insertNew,
      encoded, prompt, Bind.bind, Except.bind]
    rfl
  | succ count ih =>
    have before := ih (Nat.le_of_succ_le small)
      fun attempts earlier => fits attempts (Nat.le_succ_of_le earlier)
    have encoded := @Json.encode_of_fits { job.intoEnvelope with attempts := count } context
      (fits count (Nat.le_succ _))
    have bumped := @Json.encode_of_fits { job.intoEnvelope with attempts := count + 1 } context
      (fits (count + 1) (Nat.le_refl _))
    have next : ({ job.intoEnvelope with
        attempts := count } : JobEnvelope).bump =
          { job.intoEnvelope with attempts := count + 1 } := by
      simp only [JobEnvelope.bump, saturatingSucc, Nat.min_eq_left small]
    have split : rounds job (count + 1) =
        (rounds job count ++ [⟨0, ⟨⟨count⟩⟩, .reserve job.lane⟩]) ++
          [⟨0, ⟨⟨count⟩⟩, .retry ⟨⟨count⟩⟩ 0⟩] := by
      simp [rounds]
    rw [split, Lib.Machine.run_concat, run_reserved before encoded]
    have retried := retry_onlyRow (current_leased ⟨⟨count⟩⟩ (retriedRow job count)) encoded
    rw [next, bumped] at retried
    exact congrArg Prod.fst retried

end Rounds

/-- The job that just fits, retried nine times and reserved once more. -/
def cappedInputs : List Input :=
  rounds (zerosJob 33554366) 9 ++ [⟨0, ⟨⟨9⟩⟩, .reserve ⟨"mail"⟩⟩]

/-- The tenth retry would need one byte more than the cap. -/
theorem capped_job_stuck : FreshMints cappedInputs ∧
      ∃ row ∈ ((machine Json.serde plainConfig).run cappedInputs).jobs,
        Current (nanos 0) row ⟨⟨9⟩⟩ ∧
        (retry Json.serde ((machine Json.serde plainConfig).run cappedInputs)
            0 ⟨⟨9⟩⟩ 0).2 = .error (.serialization
          "encoded job envelope is 67108865 bytes, over the 67108864-byte limit") := by
  have single : ∀ attempts ≤ 9, (Lib.Format.number.print attempts).length = 1 := by
    decide
  have length := Json.length_zeros 33554366
  have fits : ∀ attempts ≤ 9, (Json.envelope.print
      { (zerosJob 33554366).intoEnvelope with
        attempts := attempts }).length ≤ maxEnvelopeBytes := by
    intro attempts few
    have exact := length attempts
    rw [single attempts few] at exact
    exact Nat.le_of_eq exact
  have reached := @run_rounds (zerosJob 33554366) 9 rfl rfl rfl (by decide) fits
  have encoded := @Json.encode_of_fits { (zerosJob 33554366).intoEnvelope with attempts := 9 } rfl
    (fits 9 (Nat.le_refl _))
  have leased : (machine Json.serde plainConfig).run cappedInputs =
      onlyRow (leaseRow ⟨⟨9⟩⟩ 30 (retriedRow (zerosJob 33554366) 9)) :=
    run_reserved reached encoded
  refine ⟨by decide +kernel, ?_⟩
  rw [leased]
  refine ⟨_, List.mem_singleton_self _, current_leased _ _, ?_⟩
  have retried := retry_onlyRow (current_leased ⟨⟨9⟩⟩ (retriedRow (zerosJob 33554366) 9)) encoded
  have next : ({ (zerosJob 33554366).intoEnvelope with
      attempts := 9 } : JobEnvelope).bump = Json.zeros 33554366 10 := rfl
  have long : (Json.envelope.print (Json.zeros 33554366 10)).length =
      67108865 := length 10
  have refused := @Json.encode_of_long (Json.zeros 33554366 10) rfl (by rw [long]; decide)
  rw [next, refused, long] at retried
  rw [retried]
  rfl

/-- A small job, reserved for the first time. -/
def smallInputs : List Input :=
  rounds (zerosJob 0) 0 ++ [⟨0, ⟨⟨0⟩⟩, .reserve ⟨"mail"⟩⟩]

theorem small_job_retried : (retry Json.serde ((machine Json.serde plainConfig).run smallInputs) 0
      ⟨⟨0⟩⟩ 0).2 = .ok .done := by
  have fits : (Json.envelope.print (zerosJob 0).intoEnvelope).length ≤
      maxEnvelopeBytes := by
    decide +kernel
  have reached := @run_rounds (zerosJob 0) 0 rfl rfl rfl (by decide) (by
      intro attempts none
      rw [Nat.le_zero.mp none]
      exact fits)
  have leased : (machine Json.serde plainConfig).run smallInputs =
      onlyRow (leaseRow ⟨⟨0⟩⟩ 30 (retriedRow (zerosJob 0) 0)) :=
    run_reserved reached (Json.encode_of_fits rfl fits)
  obtain ⟨envelope, _, accepted⟩ :=
    (stored_job_retries plainConfig smallInputs (by decide +kernel) 0 0
      ⟨⟨0⟩⟩ (leaseRow ⟨⟨0⟩⟩ 30 (retriedRow (zerosJob 0) 0))
      (current_leased _ _)).1 (by
        rw [leased]
        exact List.mem_singleton_self _)
  exact accepted.mpr (.inl (by decide +kernel))

end Sqlite

end Worklane
