import Worklane.Memory.Sound
import Worklane.Sql.Changes

/-!
# The SQL tables against the in-memory store

When the tables of a SQL broker stand for an in-memory store: the rows are the
jobs in order, times are cut off at `i64::MAX` and receipts may have other
names.  The in-memory broker clears expired leases as it goes and the tables
keep them, so a row may show a lease that was over at `reading`, the last
clock reading.
-/

namespace Worklane.Sql

open List
open Worklane.Memory (StoredJob DeadEntry Inner)

section Pairs

variable (serde : SerdeJson)
variable (relabel : ReservationReceipt → ReservationReceipt)
variable (reading : Nat)

inductive LeasePair (job : StoredJob) (row : JobRow) : Prop
  | idle (noLease : job.leasedUntil = none) (noReceipt : job.receipt = none)
      (free : row.leasedUntil = none) (blank : row.receipt = none)
  | held {receipt : ReservationReceipt} {endsAt : Nat} (leased : job.leasedUntil = some endsAt)
      (holds : job.receipt = some receipt)
      (leasedUntil : row.leasedUntil = some (nanos endsAt))
      (renamed : row.receipt = some (relabel receipt))
  | lapsed {endsAt : Nat} (noLease : job.leasedUntil = none) (noReceipt : job.receipt = none)
      (leasedUntil : row.leasedUntil = some endsAt)
      (exceeded : endsAt ≤ reading)

structure JobPair (keys : List KeyRow) (job : StoredJob) (row : JobRow) : Prop where
  stored : StoredRow serde row job.envelope
  availableAt : row.availableAt = nanos job.availableAt
  deliveries : row.deliveries = job.deliveries
  lease : LeasePair relabel reading job row
  key : ∀ key, ⟨key, row.seq⟩ ∈ keys ↔ job.uniqueKey = some key

structure DeadPair (entry : DeadEntry) (row : DeadRow) : Prop where
  stored : StoredDead serde row entry.letter.envelope
  error : row.error = entry.letter.error
  uniqueKey : row.uniqueKey = entry.uniqueKey
  deadAt : row.deadAt = entry.deadAt

structure Paired (inner : Inner) (tables : Tables) : Prop where
  tidy : Tidy serde tables
  jobs : List.Forall₂ (JobPair serde relabel reading tables.uniqueKeys) inner.jobs tables.jobs
  dead : List.Forall₂ (DeadPair serde) inner.dead tables.dead
  schedules : tables.schedules = inner.schedules

end Pairs

theorem paired_empty (serde : SerdeJson)
    (relabel : ReservationReceipt → ReservationReceipt) (reading : Nat) :
    Paired serde relabel reading Inner.empty Tables.empty :=
  ⟨tidy_empty serde, .nil, .nil, rfl⟩

section Lookups

variable {serde : SerdeJson}
variable {relabel : ReservationReceipt → ReservationReceipt}
variable {reading : Nat} {inner : Inner} {tables : Tables}
variable {keys : List KeyRow} {job : StoredJob} {row : JobRow}

theorem LeasePair.mono {later : Nat} (exceeded : reading ≤ later)
    (pair : LeasePair relabel reading job row) :
    LeasePair relabel later job row := by
  cases pair with
  | idle noLease noReceipt free blank =>
    exact .idle noLease noReceipt free blank
  | held leased holds leasedUntil renamed =>
    exact .held leased holds leasedUntil renamed
  | lapsed noLease noReceipt leasedUntil ended =>
    exact .lapsed noLease noReceipt leasedUntil (Nat.le_trans ended exceeded)

theorem Paired.mono {later : Nat} (exceeded : reading ≤ later)
    (paired : Paired serde relabel reading inner tables) :
    Paired serde relabel later inner tables where
  tidy := paired.tidy
  jobs := paired.jobs.imp fun _ _ pair =>
    { pair with lease := pair.lease.mono exceeded }
  dead := paired.dead
  schedules := paired.schedules

theorem JobPair.id (pair : JobPair serde relabel reading keys job row) : job.id = row.id :=
  pair.stored.id

theorem Paired.hasJob (paired : Paired serde relabel reading inner tables)
    (id : JobId) : tables.hasJob id = inner.isLive id := by
  symm
  apply Lib.any_eq_of_aligned paired.jobs
  intro job row pair
  rw [pair.id]

theorem DeadPair.id {entry : DeadEntry} {row : DeadRow}
    (pair : DeadPair serde entry row) : entry.id = row.id :=
  pair.stored.id

theorem DeadPair.lane {entry : DeadEntry} {row : DeadRow}
    (pair : DeadPair serde entry row) : entry.lane = row.lane :=
  pair.stored.lane

theorem Paired.hasDead (paired : Paired serde relabel reading inner tables) (id : JobId) :
    tables.hasDead id = inner.dead.any fun entry => decide (entry.id = id) := by
  symm
  apply Lib.any_eq_of_aligned paired.dead
  intro entry row pair
  rw [pair.id]

theorem Tidy.keyOf_eq_some (tidy : Tidy serde tables) {seq : Nat} {key : String} :
    tables.keyOf seq = some key ↔ ⟨key, seq⟩ ∈ tables.uniqueKeys := by
  constructor
  · intro found
    obtain ⟨keyRow, located, rfl⟩ := Option.map_eq_some_iff.mp found
    have same : keyRow.seq = seq := by simpa using find?_some located
    rw [← same]
    exact mem_of_find?_eq_some located
  · intro member
    obtain ⟨before, after, split⟩ := append_of_mem member
    have distinct := tidy.keySeqs
    rw [split] at distinct
    have others := Lib.key_ne_of_split distinct
    rw [Tables.keyOf, split, Lib.find?_split]
    · rfl
    · intro other inside
      simpa using others other (Or.inl inside)
    · simp

theorem Tidy.keyHolder_eq_some (tidy : Tidy serde tables) {key : String} {holder : JobRow} :
    tables.keyHolder key = some holder ↔
      holder ∈ tables.jobs ∧ ⟨key, holder.seq⟩ ∈ tables.uniqueKeys := by
  constructor
  · intro found
    obtain ⟨keyRow, named, located⟩ := Option.bind_eq_some_iff.mp found
    have sameKey : keyRow.key = key := by simpa using find?_some named
    have sameSeq : holder.seq = keyRow.seq := by
      simpa using find?_some located
    refine ⟨mem_of_find?_eq_some located, ?_⟩
    rw [← sameKey, sameSeq]
    exact mem_of_find?_eq_some named
  · rintro ⟨live, listed⟩
    obtain ⟨before, after, split⟩ := append_of_mem listed
    have distinct := tidy.keys
    rw [split] at distinct
    have otherKeys := Lib.key_ne_of_split distinct
    obtain ⟨early, late, jobsSplit⟩ := append_of_mem live
    have distinctSeqs := tidy.seqs_nodup
    rw [jobsSplit] at distinctSeqs
    have otherSeqs := Lib.key_ne_of_split distinctSeqs
    rw [Tables.keyHolder, split, Lib.find?_split, Option.bind_some, jobsSplit, Lib.find?_split]
    · intro other inside
      simpa using otherSeqs other (Or.inl inside)
    · simp
    · intro other inside
      simpa using otherKeys other (Or.inl inside)
    · simp

theorem Paired.keyHolder (paired : Paired serde relabel reading inner tables)
    (coherent : Memory.Coherent inner) (key : String) :
    (tables.keyHolder key).map JobRow.id = inner.unique key := by
  cases found : tables.keyHolder key with
  | some holder =>
    obtain ⟨live, listed⟩ := paired.tidy.keyHolder_eq_some.mp found
    obtain ⟨job, inside, pair⟩ := Lib.exists_left_of_mem paired.jobs live
    symm
    rw [Option.map_some, ← pair.id]
    exact (coherent.keys key job.id).mpr ⟨job, inside, rfl, (pair.key key).mp listed⟩
  | none =>
    cases mapped : inner.unique key with
    | none => rfl
    | some id =>
      obtain ⟨job, inside, _, holds⟩ := (coherent.keys key id).mp mapped
      obtain ⟨row, live, pair⟩ := Lib.exists_right_of_mem paired.jobs inside
      have held := paired.tidy.keyHolder_eq_some.mpr ⟨live, (pair.key key).mpr holds⟩
      rw [found] at held
      cases held

theorem Paired.hasKey (paired : Paired serde relabel reading inner tables)
    (coherent : Memory.Coherent inner) (key : String) :
    tables.hasKey key = (inner.unique key).isSome := by
  rw [← paired.keyHolder coherent key, Option.isSome_map]
  cases found : tables.keyHolder key with
  | none => exact (paired.tidy.keyHolder_eq_none key).mp found
  | some holder =>
    rw [Option.isSome_some]
    by_contra absent
    rw [Bool.not_eq_true, ← paired.tidy.keyHolder_eq_none, found] at absent
    cases absent

theorem JobPair.keyOf (tidy : Tidy serde tables)
    (pair : JobPair serde relabel reading tables.uniqueKeys job row) :
    tables.keyOf row.seq = job.uniqueKey := by
  apply Option.ext
  intro key
  rw [tidy.keyOf_eq_some]
  exact pair.key key

end Lookups

/-! ## Changes of both sides -/

section Shapes

variable {serde : SerdeJson}
variable {relabel : ReservationReceipt → ReservationReceipt}
variable {reading : Nat} {inner : Inner} {tables : Tables}
variable {before after : List StoredJob} {job job' : StoredJob}
variable {before' after' : List JobRow} {row row' : JobRow}

/-- A job and its row, with what stands before and after them. -/
structure PairSplit (serde : SerdeJson)
    (relabel : ReservationReceipt → ReservationReceipt) (reading : Nat)
    (inner : Inner) (tables : Tables) (before : List StoredJob)
    (job : StoredJob) (after : List StoredJob) (before' : List JobRow)
    (row : JobRow) (after' : List JobRow) : Prop where
  jobs : inner.jobs = before ++ job :: after
  rows : tables.jobs = before' ++ row :: after'
  early : List.Forall₂ (JobPair serde relabel reading tables.uniqueKeys) before before'
  pair : JobPair serde relabel reading tables.uniqueKeys job row
  late : List.Forall₂ (JobPair serde relabel reading tables.uniqueKeys) after after'

theorem Paired.split (paired : Paired serde relabel reading inner tables)
    (jobs : inner.jobs = before ++ job :: after) :
    ∃ before' row after', PairSplit serde relabel reading inner tables
      before job after before' row after' := by
  have aligned := paired.jobs
  rw [jobs] at aligned
  obtain ⟨before', row, after', rows, early, pair, late⟩ := Lib.aligned_split aligned
  exact ⟨before', row, after', jobs, rows, early, pair, late⟩

theorem Paired.replace (paired : Paired serde relabel reading inner tables)
    (split : PairSplit serde relabel reading inner tables before job after before' row after')
    (pair : JobPair serde relabel reading tables.uniqueKeys job' row')
    (seq : row'.seq = row.seq) (id : row'.id = row.id)
    (lease : row'.receipt.isSome = true ↔ row'.leasedUntil.isSome = true) :
    Paired serde relabel reading { inner with jobs := before ++ job' :: after }
      { tables with jobs := before' ++ row' :: after' } where
  tidy := paired.tidy.replace split.rows seq id ⟨_, pair.stored⟩ lease
  jobs := Lib.aligned_join split.early pair split.late
  dead := paired.dead
  schedules := paired.schedules

theorem JobPair.other {keys : List KeyRow} {seq : Nat}
    (pair : JobPair serde relabel reading keys job row)
    (apart : row.seq ≠ seq) :
    JobPair serde relabel reading (keys.filter fun key => decide (key.seq ≠ seq)) job row where
  stored := pair.stored
  availableAt := pair.availableAt
  deliveries := pair.deliveries
  lease := pair.lease
  key := by
    intro key
    rw [mem_filter, pair.key key]
    simp [apart]

theorem Paired.remove (paired : Paired serde relabel reading inner tables)
    (split : PairSplit serde relabel reading inner tables before job after before' row after')
    (unique : String → Option JobId)
    {dead : List DeadEntry} {dead' : List DeadRow}
    (moved : DeadMove serde tables.dead row.id dead')
    (pairs : List.Forall₂ (DeadPair serde) dead dead') :
    Paired serde relabel reading
      { inner with jobs := before ++ after, unique := unique, dead := dead }
      { tables with
        jobs := before' ++ after'
        uniqueKeys := tables.uniqueKeys.filter fun key =>
          decide (key.seq ≠ row.seq)
        dead := dead' } where
  tidy := paired.tidy.remove split.rows moved
  jobs := by
    have distinct := paired.tidy.seqs_nodup
    rw [split.rows] at distinct
    have others := Lib.key_ne_of_split distinct
    have kept : ∀ {jobs : List StoredJob} {rows : List JobRow},
        (∀ other ∈ rows, other ∈ before' ∨ other ∈ after') →
        List.Forall₂ (JobPair serde relabel reading tables.uniqueKeys) jobs rows →
        List.Forall₂ (JobPair serde relabel reading (tables.uniqueKeys.filter fun key =>
          decide (key.seq ≠ row.seq))) jobs rows := by
      intro jobs rows sides aligned
      apply Lib.aligned_imp_of_mem aligned
      intro _ _ other inside pair
      exact pair.other (others other (sides other inside))
    exact rel_append (kept (fun _ => Or.inl) split.early) (kept (fun _ => Or.inr) split.late)
  dead := pairs
  schedules := paired.schedules

theorem Paired.insert (paired : Paired serde relabel reading inner tables)
    (unique : String → Option JobId)
    (stored : StoredRow serde row job.envelope)
    (availableAt : row.availableAt = nanos job.availableAt)
    (deliveries : row.deliveries = job.deliveries)
    (noLease : job.leasedUntil = none) (noReceipt : job.receipt = none)
    (free : row.leasedUntil = none) (blank : row.receipt = none)
    (notLive : tables.hasJob row.id = false)
    (later : ∀ other ∈ tables.jobs, other.seq < row.seq)
    (keyFree : ∀ name ∈ job.uniqueKey, tables.hasKey name = false) :
    Paired serde relabel reading { inner with jobs := inner.jobs ++ [job], unique := unique }
      (tables.withRow row job.uniqueKey) where
  tidy := paired.tidy.insert ⟨_, stored⟩ (by simp [blank, free]) notLive later keyFree
  jobs := by
    have unkeyed : ∀ key, ⟨key, row.seq⟩ ∉ tables.uniqueKeys := by
      intro key member
      obtain ⟨holder, live, same⟩ := paired.tidy.keyed _ member
      exact Nat.lt_irrefl _ (same ▸ later holder live)
    apply rel_append
    · apply Lib.aligned_imp_of_mem paired.jobs
      intro _ _ other inside pair
      refine { pair with key := ?_ }
      intro key
      rw [← pair.key key, Tables.withRow]
      simp [Nat.ne_of_gt (later other inside)]
    · refine .cons ⟨stored, availableAt, deliveries, .idle noLease noReceipt free blank, ?_⟩ .nil
      intro key
      simp [Tables.withRow, unkeyed]
  dead := paired.dead
  schedules := paired.schedules

theorem Paired.dropDead (paired : Paired serde relabel reading inner tables)
    {dead : List DeadEntry} {dead' : List DeadRow}
    (pairs : List.Forall₂ (DeadPair serde) dead dead')
    (kept : dead'.Sublist tables.dead) :
    Paired serde relabel reading { inner with dead := dead } { tables with dead := dead' } where
  tidy :=
    { paired.tidy with
      deadSeqs := paired.tidy.deadSeqs.sublist kept
      deadIds := paired.tidy.deadIds.sublist (kept.map _)
      deadStored := fun row member =>
        paired.tidy.deadStored row (kept.subset member) }
  jobs := paired.jobs
  dead := pairs
  schedules := paired.schedules

theorem LeasePair.lapse (small : reading < i64Max) (exceeded : Memory.expired reading job = true)
    (pair : LeasePair relabel reading job row) :
    LeasePair relabel reading (Memory.releaseLease job) row := by
  obtain ⟨endsAt, leased, ended⟩ := (Option.any_eq_true ..).mp exceeded
  cases pair with
  | idle noLease => cases noLease.symm.trans leased
  | lapsed noLease => cases noLease.symm.trans leased
  | held alsoLeased holds leasedUntil renamed =>
    cases alsoLeased.symm.trans leased
    exact .lapsed rfl rfl leasedUntil ((nanos_le_iff small).mpr (of_decide_eq_true ended))

theorem Paired.lapse (paired : Paired serde relabel reading inner tables)
    (small : reading < i64Max) {jobs : List StoredJob}
    (aligned : List.Forall₂ (Memory.Released Memory.releaseLease reading) inner.jobs jobs) :
    Paired serde relabel reading { inner with jobs := jobs } tables where
  tidy := paired.tidy
  jobs := by
    apply Lib.aligned_through aligned paired.jobs
    rintro job job' row (rfl | ⟨exceeded, rfl⟩) pair
    · exact pair
    · exact { pair with lease := pair.lease.lapse small exceeded }
  dead := paired.dead
  schedules := paired.schedules

end Shapes

/-! ## The next job -/

section Next

variable {serde : SerdeJson}
variable {relabel : ReservationReceipt → ReservationReceipt}
variable {now : Nat} {inner : Inner} {tables : Tables}
variable {keys : List KeyRow} {job : StoredJob} {row : JobRow}

theorem JobPair.visible (small : now < i64Max) {lane : Lane}
    (pair : JobPair serde relabel now keys job row)
    (running : Memory.expired now job = false) :
    Memory.visible lane now job = visible lane now row := by
  have due : (row.availableAt ≤ now) = (job.availableAt ≤ now) := by
    rw [pair.availableAt]
    exact propext (nanos_le_iff small)
  have idle : job.leasedUntil.isNone = row.leasedUntil.all fun endsAt => decide (endsAt ≤ now) := by
    cases pair.lease with
    | idle noLease _ free => rw [noLease, free]; rfl
    | lapsed noLease _ leasedUntil exceeded =>
      rw [noLease, leasedUntil]
      simp [exceeded]
    | @held receipt endsAt leased _ leasedUntil =>
      rw [leased, leasedUntil]
      have future : ¬ endsAt ≤ now := by
        simpa [Memory.expired, leased] using running
      simp [nanos_le_iff small, future]
  simp only [Memory.visible, Sql.visible, pair.stored.lane, due, idle]
  cases decide (row.lane = lane) <;>
    cases decide (job.availableAt ≤ now) <;>
    cases (row.leasedUntil.all fun endsAt => decide (endsAt ≤ now)) <;> rfl

/-- `ORDER BY priority DESC, available_at ASC`, without the row number. -/
def precedes (row other : JobRow) : Bool :=
  decide (other.priority < row.priority) || (decide (row.priority = other.priority) &&
      decide (row.availableAt < other.availableAt))

/-- Rows are in `seq` order, so the scan need not look at it. -/
theorem Tidy.bestIndex_precedes (tidy : Tidy serde tables) (eligible : JobRow → Bool) :
    Lib.bestIndex eligible ordersBefore tables.jobs =
      Lib.bestIndex eligible precedes tables.jobs := by
  apply Lib.bestIndex_tieBreak
  apply tidy.seqs.imp
  intro early late below
  have later : ¬ late.seq < early.seq := by omega
  simp [ordersBefore, precedes, later]

theorem JobPair.precedes (small : now < i64Max) {lane : Lane} {best : StoredJob} {bestRow : JobRow}
    (pair : JobPair serde relabel now keys job row)
    (bestPair : JobPair serde relabel now keys best bestRow)
    (due : Memory.visible lane now job = true)
    (bestDue : Memory.visible lane now best = true) :
    Memory.outranks job best = Sql.precedes row bestRow := by
  have time := (Memory.visible_iff.mp due).2.2
  have bestTime := (Memory.visible_iff.mp bestDue).2.2
  rw [Memory.outranks, Sql.precedes, pair.stored.priority,
    bestPair.stored.priority, pair.availableAt, bestPair.availableAt,
    nanos_of_lt (Nat.lt_of_le_of_lt time small),
    nanos_of_lt (Nat.lt_of_le_of_lt bestTime small)]

/-- Both brokers pick the same job next. -/
theorem Paired.next (paired : Paired serde relabel now inner tables) (small : now < i64Max)
    (running : ∀ job ∈ inner.jobs, Memory.expired now job = false)
    (lane : Lane) :
    (Memory.pickBest inner.jobs lane now = none ∧ tables.nextVisible lane now = none) ∨
      ∃ before job after before' row after',
        PairSplit serde relabel now inner tables before job after before' row after' ∧
        Memory.pickBest inner.jobs lane now = some before.length ∧
        Memory.visible lane now job = true ∧
        tables.nextVisible lane now = some row := by
  have aligned := Lib.aligned_with_mem paired.jobs
  have same : Memory.pickBest inner.jobs lane now =
      Lib.bestIndex (Sql.visible lane now) ordersBefore tables.jobs := by
    rw [paired.tidy.bestIndex_precedes]
    apply Lib.bestIndex_congr aligned
    · rintro job row ⟨live, pair⟩
      exact pair.visible small (running job live)
    · rintro job row best bestRow ⟨_, pair⟩ ⟨_, bestPair⟩ due bestDue
      exact pair.precedes small bestPair due bestDue
  rw [Tables.nextVisible, ← same]
  rcases Memory.pickBest_cases inner.jobs lane now with
    ⟨none, _⟩ | ⟨before, job, after, picked, best⟩
  · exact Or.inl ⟨none, by rw [none]; rfl⟩
  · obtain ⟨before', row, after', split⟩ := paired.split best.split
    refine Or.inr ⟨before, job, after, before', row, after', split, picked, best.chosenEligible, ?_⟩
    rw [picked, Option.bind_some, split.rows, split.early.length_eq]
    exact Lib.getElem?_split before' after' row

end Next

/-! ## Receipts -/

section Receipts

variable {serde : SerdeJson}
variable {relabel : ReservationReceipt → ReservationReceipt}
variable {now : Nat} {inner : Inner} {tables : Tables}
variable {keys : List KeyRow} {job : StoredJob} {row other : JobRow}
variable {receipt : ReservationReceipt}

theorem JobPair.receipt_of_held (pair : JobPair serde relabel now keys job row)
    (held : job.receipt = some receipt) :
    row.receipt = some (relabel receipt) := by
  cases pair.lease with
  | idle _ noReceipt => cases noReceipt.symm.trans held
  | lapsed _ noReceipt => cases noReceipt.symm.trans held
  | held _ holds _ renamed =>
    cases holds.symm.trans held
    exact renamed

theorem JobPair.current (small : now < i64Max) (pair : JobPair serde relabel now keys job row)
    (current : Memory.Current now job receipt) :
    Current now row (relabel receipt) := by
  cases pair.lease with
  | idle _ noReceipt => cases noReceipt.symm.trans current.held
  | lapsed _ noReceipt => cases noReceipt.symm.trans current.held
  | @held other endsAt leased holds leasedUntil renamed =>
    cases holds.symm.trans current.held
    have future : ¬ endsAt ≤ now := by
      simpa [Memory.expired, leased] using current.unexpired
    refine ⟨renamed, nanos endsAt, leasedUntil, ?_⟩
    exact Nat.lt_of_not_le fun exceeded =>
      future ((nanos_le_iff small).mp exceeded)

theorem JobPair.current_of_row (small : now < i64Max) (injective : Function.Injective relabel)
    (pair : JobPair serde relabel now keys job row)
    (current : Current now row (relabel receipt)) :
    Memory.Current now job receipt := by
  obtain ⟨endsAt, leasedUntil, future⟩ := current.unexpired
  cases pair.lease with
  | idle _ _ free => cases free.symm.trans leasedUntil
  | lapsed _ _ ended exceeded =>
    cases ended.symm.trans leasedUntil
    omega
  | @held other endsAt' leased holds ended renamed =>
    cases ended.symm.trans leasedUntil
    have same := injective (Option.some.inj (renamed.symm.trans current.held))
    subst same
    refine ⟨holds, ?_⟩
    have running : ¬ endsAt' ≤ now := fun exceeded =>
      absurd ((nanos_le_iff small).mpr exceeded) (Nat.not_le_of_lt future)
    simpa [Memory.expired, leased] using running

/-- Both brokers find the job of a receipt, or find it stale. -/
theorem Paired.resolve_cases (paired : Paired serde relabel now inner tables)
    (small : now < i64Max) (injective : Function.Injective relabel)
    (distinct : DistinctReceipts (holders tables))
    (receipt : ReservationReceipt) :
    (∃ jobs, List.Forall₂ (Memory.Released Memory.releaseLease now) inner.jobs jobs ∧
      Memory.findCurrentReceipt Memory.releaseLease inner receipt now =
        ({ inner with jobs := jobs }, .error (stale receipt)) ∧
      tables.findValidRow (relabel receipt) now = .error (stale (relabel receipt))) ∨
      ∃ before job after before' row after',
        PairSplit serde relabel now inner tables before job after before' row after' ∧
        Memory.Current now job receipt ∧
        Memory.findCurrentReceipt Memory.releaseLease inner receipt now =
          (inner, .ok before.length) ∧
        Current now row (relabel receipt) ∧
        tables.findValidRow (relabel receipt) now = .ok row := by
  -- A row that is current has a job that is current.
  have noRow : (∀ job ∈ inner.jobs, ¬ Memory.Current now job receipt) →
      tables.findValidRow (relabel receipt) now = .error (stale (relabel receipt)) := by
    intro noJob
    rcases findValidRow_cases tables (relabel receipt) now with
      isStale | ⟨before, row, after, split, current, _⟩
    · exact isStale
    · have listed : row ∈ tables.jobs := by simp [split]
      obtain ⟨job, live, pair⟩ := Lib.exists_left_of_mem paired.jobs listed
      exact absurd (pair.current_of_row small injective current) (noJob job live)
  have kept : List.Forall₂ (Memory.Released Memory.releaseLease now) inner.jobs inner.jobs :=
    List.forall₂_same.mpr fun _ _ => Or.inl rfl
  rcases Memory.findCurrentReceipt_cases Memory.releaseLease inner receipt now with
    ⟨found, absent⟩ | ⟨before, job, after, jobs, _, held, exceeded, found⟩ |
      ⟨before, job, after, jobs, _, current, found⟩
  · refine Or.inl ⟨inner.jobs, kept, found, noRow ?_⟩
    intro job live current
    exact absent job live current.held
  · refine Or.inl ⟨before ++ Memory.releaseLease job :: after, ?_, found, noRow ?_⟩
    · rw [jobs]
      exact Lib.aligned_join (List.forall₂_same.mpr fun _ _ => Or.inl rfl)
        (Or.inr ⟨exceeded, rfl⟩) (List.forall₂_same.mpr fun _ _ => Or.inl rfl)
    · intro other live current
      obtain ⟨before', row, after', split⟩ := paired.split jobs
      obtain ⟨otherRow, otherLive, otherPair⟩ := Lib.exists_right_of_mem paired.jobs live
      have otherCurrent := otherPair.current small current
      have same : row = otherRow := paired.tidy.row_of_receipt distinct
        (by simp [split.rows]) otherLive (split.pair.receipt_of_held held)
        otherCurrent.held
      rw [← same] at otherCurrent
      have running := (split.pair.current_of_row small injective otherCurrent).unexpired
      rw [exceeded] at running
      cases running
  · obtain ⟨before', row, after', split⟩ := paired.split jobs
    have rowCurrent := split.pair.current small current
    exact Or.inr ⟨before, job, after, before', row, after', split, current,
      found, rowCurrent, paired.tidy.findValidRow_current distinct
        (by simp [split.rows]) rowCurrent⟩

end Receipts

/-! ## Retention -/

section Retention

variable {serde : SerdeJson} {now : Nat}
variable {dead : List DeadEntry} {rows : List DeadRow}

theorem dropOldest_eq (lane : Lane) (toDrop : Nat) (dead : List DeadEntry) :
    (Memory.dropOldest lane toDrop dead).1 =
      Lib.dropFirst (fun entry => decide (entry.lane = lane)) toDrop
        dead := by
  induction dead generalizing toDrop with
  | nil => rfl
  | cons entry rest ih =>
    simp only [Memory.dropOldest, Lib.dropFirst, decide_eq_true_eq]
    split
    · exact ih (toDrop - 1)
    · exact congrArg (entry :: ·) (ih toDrop)

theorem pruneByCount_eq (lane : Lane) (keep : Nat) (distinct : (rows.map DeadRow.seq).Nodup) :
    pruneByCount lane keep rows = Lib.dropFirst (fun row => decide (row.lane = lane))
        ((rows.filter fun row => row.lane = lane).length - keep) rows := by
  rw [← Lib.filter_last_eq_dropFirst _ _ rows distinct, pruneByCount, take_reverse, map_reverse]
  simp only [mem_reverse, decide_eq_true_eq]

theorem pruneByAge_pairs (small : now < i64Max) (lane : Lane) (age : Nat)
    (aligned : List.Forall₂ (DeadPair serde) dead rows) :
    List.Forall₂ (DeadPair serde) (Memory.pruneByAge lane now (some age) dead).1
      (pruneByAge lane ((now : Int) - (nanos age : Int)) rows) := by
  rw [Memory.pruneByAge, partition_eq_filter_filter, pruneByAge]
  apply Lib.filter_of_aligned aligned
  intro entry row pair
  have young : now - age ≤ entry.deadAt ↔
      ¬ (entry.deadAt : Int) < (now : Int) - (nanos age : Int) := by
    unfold nanos
    omega
  rw [pair.lane, pair.deadAt, decide_eq_decide, young, not_and_or]

theorem pruneByCount_pairs (lane : Lane) (count : Nat)
    (distinct : (rows.map DeadRow.seq).Nodup) (few : dead.length ≤ i64Max)
    (aligned : List.Forall₂ (DeadPair serde) dead rows) :
    List.Forall₂ (DeadPair serde) (Memory.pruneByCount lane (some count) dead).1
      (pruneByCount lane (min count i64Max) rows) := by
  have sameLane : ∀ entry row, DeadPair serde entry row →
      decide (entry.lane = lane) = decide (row.lane = lane) := by
    intro entry row pair
    rw [pair.lane]
  have total := (Lib.filter_of_aligned aligned sameLane).length_eq
  have most : (dead.filter fun entry => decide (entry.lane = lane)).length ≤
      i64Max := Nat.le_trans (length_filter_le _ _) few
  have dropped : (Memory.pruneByCount lane (some count) dead).1 =
      Lib.dropFirst (fun entry => decide (entry.lane = lane))
        ((dead.filter fun entry => decide (entry.lane = lane)).length - count) dead := by
    simp only [Memory.pruneByCount]
    split
    · exact dropOldest_eq lane _ dead
    · next within =>
      rw [Nat.sub_eq_zero_of_le (Nat.le_of_not_lt within), Lib.dropFirst_zero]
  have same : (rows.filter fun row => decide (row.lane = lane)).length - min count i64Max =
      (dead.filter fun entry => decide (entry.lane = lane)).length -
        count := by
    rw [← total]
    omega
  rw [dropped, pruneByCount_eq lane _ distinct, same]
  exact Lib.dropFirst_aligned aligned sameLane _

/-- Retention keeps the same records on both sides. -/
theorem pruneDead_pairs (small : now < i64Max) (policy : RetentionPolicy)
    (lane : Lane) (distinct : (rows.map DeadRow.seq).Nodup)
    (few : dead.length ≤ i64Max)
    (aligned : List.Forall₂ (DeadPair serde) dead rows) :
    List.Forall₂ (DeadPair serde) (Memory.pruneDead policy lane now dead).1
      (pruneDeadLetters policy lane now rows) := by
  unfold Memory.pruneDead pruneDeadLetters
  split
  · exact aligned
  · obtain ⟨maxAge, maxCount⟩ := policy
    cases maxAge with
    | none =>
      cases maxCount with
      | none => exact aligned
      | some count => exact pruneByCount_pairs lane count distinct few aligned
    | some age =>
      have young := pruneByAge_pairs small lane age aligned
      have fewer : (Memory.pruneByAge lane now (some age) dead).1.length ≤ i64Max :=
        Nat.le_trans (Memory.pruneByAge_spec lane now (some age) dead).1.length_le few
      cases maxCount with
      | none => exact young
      | some count =>
        exact pruneByCount_pairs lane count (distinct.sublist (filter_sublist.map _)) fewer young

end Retention

end Worklane.Sql
