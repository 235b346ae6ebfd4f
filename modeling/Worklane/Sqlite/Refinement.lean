import Worklane.Core.Json
import Worklane.Sql.Pairing
import Worklane.Sqlite.Invariant

/-!
# `SqliteBroker` refines `InMemoryBroker`

Call by call, paired stores answer with the same replies, up to the names of
receipts, and stay paired.  What the two brokers do differently is not seen in
runs that keep their clock below `i64::MAX`, make fewer than `2 ^ 32 - 1`
calls and never reuse a job id.
-/

namespace Worklane.Sqlite

open List
open Worklane.Sql
open Worklane.Memory (StoredJob DeadEntry Inner Sound Running)

section Stage

variable (serde : SerdeJson)
variable (relabel : ReservationReceipt → ReservationReceipt)
variable (now : Nat) (used : List JobId) (served limit : Nat)

/-- Paired stores, within the bounds of the run. -/
structure Stage (inner : Inner) (tables : Tables) : Prop where
  paired : Paired serde relabel now inner tables
  sound : Sound (Encodable serde) used served limit inner

/-- Both brokers answered alike and left paired stores. -/
structure Agrees (outcome : Memory.Outcome) (result : Tables × Reply) : Prop where
  reply : result.2 = outcome.reply.rename relabel
  stage : Stage serde relabel now used served limit outcome.inner result.1

end Stage

section Calls

variable {serde : SerdeJson} {config : Config}
variable {relabel : ReservationReceipt → ReservationReceipt}
variable {now : Nat} {used : List JobId} {served limit : Nat}
variable {inner : Inner} {tables : Tables}
variable {before after : List StoredJob} {job : StoredJob}
variable {before' after' : List JobRow} {row : JobRow}

section Staged

variable (stage : Stage serde relabel now used served limit inner tables)

include stage

theorem Stage.mono {used' : List JobId} {served' limit' : Nat}
    (moreIds : ∀ id ∈ used, id ∈ used') (moreServed : served ≤ served')
    (moreDead : limit ≤ limit') :
    Stage serde relabel now used' served' limit' inner tables :=
  ⟨stage.paired, stage.sound.mono moreIds moreServed moreDead⟩

theorem resolve_agrees (small : now < i64Max) (injective : Function.Injective relabel)
    (distinct : DistinctReceipts (holders tables))
    (receipt : ReservationReceipt)
    {change : Inner → Nat → Inner × List DeadEntry}
    {write : JobRow → Except Error Tables} {served' limit' : Nat}
    (moreServed : served ≤ served') (moreDead : limit ≤ limit')
    (acts : ∀ before job after before' row after',
      PairSplit serde relabel now inner tables before job after before' row after' →
      Memory.Current now job receipt →
      ∃ written, write row = .ok written ∧ Stage serde relabel now used served' limit'
          (change inner before.length).1 written) :
    Agrees serde relabel now used served' limit'
      (Memory.resolve Memory.releaseLease inner receipt now change)
      (resolve tables (relabel receipt) now write) := by
  unfold Memory.resolve resolve
  rw [nanos_of_lt small]
  rcases stage.paired.resolve_cases small injective distinct receipt with
    ⟨jobs, aligned, found, located⟩ |
      ⟨before, job, after, before', row, after', split, current, found, _, located⟩
  · rw [found, located]
    refine ⟨rfl, stage.paired.lapse small aligned, ?_⟩
    have sound := stage.sound.kept ⟨0, ⟨none, none⟩, none⟩ ⟨now, receipt, .ack receipt⟩
      (.release aligned) rfl
    exact sound.mono (fun _ => id) moreServed moreDead
  · obtain ⟨written, wrote, next⟩ := acts before job after before' row after' split current
    rw [found, located]
    simp only [Bind.bind, Except.bind, wrote]
    exact ⟨rfl, next⟩

theorem Stage.bury (small : now < i64Max) (few : limit < i64Max)
    (split : PairSplit serde relabel now inner tables before job after
      before' row after')
    {deadSeq : Nat} (later : ∀ other ∈ tables.dead, other.seq < deadSeq) (error : String) :
    tables.hasDead row.id = false ∧
      Paired serde relabel now (Memory.deadLetterAt config.retention inner before.length error
          now).1
        { tables with
          jobs := before' ++ after'
          uniqueKeys := tables.uniqueKeys.filter fun key => decide (key.seq ≠ row.seq)
          dead := pruneDeadLetters config.retention row.lane now
            (tables.dead ++ [deadRecord deadSeq tables row error now]) } := by
  have live : job ∈ inner.jobs := by simp [split.jobs]
  have stored := split.pair.stored
  have notDead : tables.hasDead row.id = false := by
    rw [stage.paired.hasDead, ← split.pair.id]
    simp only [any_eq_false, decide_eq_true_eq]
    exact fun entry member => stage.sound.apart live member
  have pairs : List.Forall₂ (DeadPair serde) (inner.dead ++ [Memory.deadEntry job error now])
      (tables.dead ++ [deadRecord deadSeq tables row error now]) := by
    apply rel_append stage.paired.dead
    refine .cons ⟨⟨stored.encodes, stored.id, stored.lane⟩, rfl, ?_, rfl⟩ .nil
    exact split.pair.keyOf stage.paired.tidy
  have seqs : ((tables.dead ++ [deadRecord deadSeq tables row
      error now]).map DeadRow.seq).Nodup := by
    rw [map_append]
    apply nodup_append'.mpr
    refine ⟨pairwise_map.mpr (stage.paired.tidy.deadSeqs.imp fun below => Nat.ne_of_lt below),
      nodup_singleton _, ?_⟩
    apply disjoint_singleton.mpr
    intro member
    obtain ⟨other, inside, same⟩ := mem_map.mp member
    exact absurd same (Nat.ne_of_lt (later other inside))
  have count : (inner.dead ++ [Memory.deadEntry job error now]).length ≤
      i64Max := by
    have bound := stage.sound.dead
    rw [length_append, length_singleton]
    omega
  refine ⟨notDead, ?_⟩
  rw [Memory.deadLetterAt_split _ split.jobs]
  apply stage.paired.remove split
  · exact stage.paired.tidy.deadMove split.rows notDead later ..
  · rw [← stored.lane]
    exact pruneDead_pairs small _ _ seqs count pairs

theorem Stage.deadLetter (small : now < i64Max) (few : limit < i64Max)
    (split : PairSplit serde relabel now inner tables before job after
      before' row after') (error : String) :
    ∃ written, deadLetterSeq serde config tables row error now = .ok written ∧
      Paired serde relabel now (Memory.deadLetterAt config.retention inner before.length error
          now).1 written := by
  obtain ⟨notDead, paired⟩ := stage.bury small few split (lt_nextDeadSeq tables) error
  rw [deadLetterSeq_eq stage.paired.tidy split.rows, notDead]
  exact ⟨_, rfl, paired⟩

section Resolutions

variable (small : now < i64Max) (injective : Function.Injective relabel)
variable (distinct : DistinctReceipts (holders tables))

include small injective distinct

theorem ack_agrees (receipt : ReservationReceipt) : Agrees serde relabel now used served limit
      (Memory.ack Memory.releaseLease inner now receipt)
      (ack tables now (relabel receipt)) := by
  apply resolve_agrees stage small injective distinct receipt (Nat.le_refl _) (Nat.le_refl _)
  intro before job after before' row after' split current
  refine ⟨_, rfl, ?_, ?_⟩
  · rw [Memory.removeAt_split split.jobs, stage.paired.tidy.deleteJob_split split.rows]
    exact stage.paired.remove split _ .none stage.paired.dead
  · rw [Memory.removeAt_split split.jobs]
    exact stage.sound.kept ⟨0, ⟨none, none⟩, none⟩ ⟨now, receipt, .ack receipt⟩
      (.ack split.jobs current) rfl

theorem retry_agrees (receipt : ReservationReceipt) (delay : Nat) :
    Agrees serde relabel now used (served + 1) limit
      (Memory.retry Memory.releaseLease inner now receipt delay)
      (retry serde tables now (relabel receipt) delay) := by
  apply resolve_agrees stage small injective distinct receipt (Nat.le_succ _) (Nat.le_refl _)
  intro before job after before' row after' split current
  have live : job ∈ inner.jobs := by simp [split.jobs]
  have stored := split.pair.stored
  obtain ⟨blob, encoded⟩ := (stage.sound.good _ (Memory.mem_contents_job live)).bump_encodes
  refine ⟨tables.updateJob row.seq (retryRow blob (nanos (saturatingAdd now delay))), ?_, ?_, ?_⟩
  · simp only [decode_of_encode stored.encodes, Bind.bind, Except.bind, encoded]
  · rw [Memory.modifyAt_split split.jobs, stage.paired.tidy.updateJob_split split.rows]
    have pair : JobPair serde relabel now tables.uniqueKeys (Memory.retryJob now delay job)
        (retryRow blob (nanos (saturatingAdd now delay)) row) :=
      ⟨⟨encoded, stored.id, stored.lane, stored.priority⟩, rfl,
        split.pair.deliveries, .idle rfl rfl rfl rfl, split.pair.key⟩
    exact stage.paired.replace split pair rfl rfl (by simp [retryRow, rescheduleRow])
  · rw [Memory.modifyAt_split split.jobs]
    exact stage.sound.kept ⟨0, ⟨none, none⟩, none⟩ ⟨now, receipt, .retry receipt delay⟩
      (.retry delay split.jobs current) rfl

theorem defer_agrees (receipt : ReservationReceipt) (delay : Nat) :
    Agrees serde relabel now used served limit
      (Memory.defer Memory.releaseLease inner now receipt delay)
      (defer tables now (relabel receipt) delay) := by
  apply resolve_agrees stage small injective distinct receipt (Nat.le_refl _) (Nat.le_refl _)
  intro before job after before' row after' split current
  have stored := split.pair.stored
  refine ⟨_, rfl, ?_, ?_⟩
  · rw [Memory.modifyAt_split split.jobs, stage.paired.tidy.updateJob_split split.rows]
    have pair : JobPair serde relabel now tables.uniqueKeys (Memory.reschedule now delay job)
        (rescheduleRow (nanos (saturatingAdd now delay)) row) :=
      ⟨⟨stored.encodes, stored.id, stored.lane, stored.priority⟩, rfl,
        split.pair.deliveries, .idle rfl rfl rfl rfl, split.pair.key⟩
    exact stage.paired.replace split pair rfl rfl (by simp [rescheduleRow])
  · rw [Memory.modifyAt_split split.jobs]
    exact stage.sound.kept ⟨0, ⟨none, none⟩, none⟩ ⟨now, receipt, .defer receipt delay⟩
      (.defer delay split.jobs current) rfl

theorem fail_agrees (few : limit < i64Max) (receipt : ReservationReceipt) (error : String) :
    Agrees serde relabel now used served (limit + 1)
      (Memory.fail Memory.releaseLease config inner now receipt error)
      (fail serde config tables now (relabel receipt) error) := by
  apply resolve_agrees stage small injective distinct receipt (Nat.le_refl _) (Nat.le_succ _)
  intro before job after before' row after' split current
  obtain ⟨written, wrote, paired⟩ := stage.deadLetter small few split error
  rw [nanos_of_lt small]
  refine ⟨written, wrote, paired, ?_⟩
  exact stage.sound.buried config ⟨now, receipt, .fail receipt error⟩
    (.fail error split.jobs current) split.jobs rfl rfl rfl

theorem extend_agrees (receipt : ReservationReceipt) : Agrees serde relabel now used served limit
      (Memory.extend Memory.releaseLease config inner now receipt)
      (extend config tables now (relabel receipt)) := by
  unfold Memory.extend Memory.resolve
  rcases stage.paired.resolve_cases small injective distinct receipt with
    ⟨jobs, aligned, found, located⟩ |
      ⟨before, job, after, before', row, after', split, current, found, rowCurrent, _⟩
  · have none : tables.jobs.any (extendable (relabel receipt) (nanos now)) = false := by
      rw [nanos_of_lt small, any_eq_false]
      intro row live extended
      have valid := stage.paired.tidy.findValidRow_current distinct live
        (extendable_iff.mp extended)
      rw [located] at valid
      cases valid
    unfold extend
    rw [found, none]
    exact ⟨rfl, stage.paired.lapse small aligned,
      stage.sound.kept config ⟨now, receipt, .extend receipt⟩ (.release aligned) rfl⟩
  · have stored := split.pair.stored
    rw [found, extend_split stage.paired.tidy distinct split.rows (by rwa [nanos_of_lt small])]
    refine ⟨rfl, ?_, ?_⟩
    · simp only [Memory.modifyAt_split split.jobs]
      have pair : JobPair serde relabel now tables.uniqueKeys
          (Memory.extendJob (saturatingAdd now config.lease) job)
          { row with
            leasedUntil := some (nanos (saturatingAdd now config.lease)) } :=
        ⟨⟨stored.encodes, stored.id, stored.lane, stored.priority⟩,
          split.pair.availableAt, split.pair.deliveries,
          .held rfl current.held rfl rowCurrent.held, split.pair.key⟩
      exact stage.paired.replace split pair rfl rfl (by simp [rowCurrent.held])
    · simp only [Memory.modifyAt_split split.jobs]
      exact stage.sound.kept config ⟨now, receipt, .extend receipt⟩
        (.extend split.jobs current) rfl

end Resolutions

/-! ## `reserve` -/

theorem Stage.lease (short : served < u32Max) {lane : Lane} {mint : ReservationReceipt}
    (split : PairSplit serde relabel now inner tables before job after before' row after')
    (due : Memory.visible lane now job = true) :
    Stage serde relabel now used (served + 1) limit
      (Memory.leaseAt config inner before.length now mint).1
      (tables.updateJob row.seq (leaseRow (relabel mint)
        (nanos (saturatingAdd now config.lease)))) := by
  have live : job ∈ inner.jobs := by simp [split.jobs]
  have stored := split.pair.stored
  have counted : saturatingSucc job.deliveries = row.deliveries + 1 := by
    have bound := stage.sound.deliveries job live
    rw [split.pair.deliveries, saturatingSucc]
    omega
  have pair : JobPair serde relabel now tables.uniqueKeys
      (Memory.leaseJob (saturatingAdd now config.lease) mint job)
      (leaseRow (relabel mint) (nanos (saturatingAdd now config.lease)) row) :=
    ⟨⟨stored.encodes, stored.id, stored.lane, stored.priority⟩,
      split.pair.availableAt, counted.symm, .held rfl rfl rfl rfl,
      split.pair.key⟩
  obtain ⟨_, idle, time⟩ := Memory.visible_iff.mp due
  rw [Memory.leaseAt_split config split.jobs, stage.paired.tidy.updateJob_split split.rows]
  exact ⟨stage.paired.replace split pair rfl rfl (by simp [leaseRow]),
    stage.sound.kept config ⟨now, mint, .reserve _⟩ (.lease split.jobs idle time rfl) rfl⟩

theorem Stage.overDelivered
    (short : served < u32Max)
    (split : PairSplit serde relabel now inner tables before job after before' row after')
    (max : Nat) :
    (inner.jobs[before.length]?.any fun job => decide (Memory.overDelivered job max)) =
      decide (row.deliveries + 1 > max) := by
  have delivered := stage.sound.deliveries job (by simp [split.jobs])
  rw [split.jobs, Lib.getElem?_split, Option.any_some, decide_eq_decide, split.pair.deliveries,
    Memory.overDelivered, saturatingSucc, Nat.min_eq_left (by omega)]

theorem Stage.release (small : now < i64Max) : Stage serde relabel now used served limit
      { inner with
        jobs := Memory.releaseExpired Memory.releaseLease now inner.jobs } tables := by
  have aligned : List.Forall₂ (Memory.Released Memory.releaseLease now)
      inner.jobs (Memory.releaseExpired Memory.releaseLease now inner.jobs) :=
    Memory.releaseExpired_aligned now inner.jobs
  exact ⟨stage.paired.lapse small aligned, stage.sound.kept ⟨0, ⟨none, none⟩, none⟩
    ⟨now, ⟨⟨0⟩⟩, .reserve ⟨""⟩⟩ (.release aligned) rfl⟩

omit stage in
theorem reserveLoop_agrees (small : now < i64Max) (short : served < u32Max)
    (lane : Lane) (mint : ReservationReceipt) {max : Nat}
    (bounded : config.maxDeliveries = some max) (left : Nat)
    (stage : Stage serde relabel now used served limit inner tables)
    (running : Running now inner) (few : limit + left ≤ i64Max) :
    ∃ written, reserveLoop serde config now (relabel mint) lane max left tables =
        .ok ((Memory.reserveLoop config lane now mint left inner).2.1.map
          (Reservation.rename relabel), written) ∧
      Stage serde relabel now used (served + 1) (limit + left)
        (Memory.reserveLoop config lane now mint left inner).1 written := by
  induction left generalizing inner tables limit with
  | zero =>
    exact ⟨tables, rfl, stage.mono (fun _ => id) (Nat.le_succ _) (Nat.le_refl _)⟩
  | succ left ih =>
    unfold reserveLoop Memory.reserveLoop
    rw [nanos_of_lt small]
    rcases stage.paired.next small running lane with
      ⟨none, nothing⟩ | ⟨before, job, after, before', row, after', split, picked, due, next⟩
    · rw [none, nothing]
      exact ⟨tables, rfl, stage.mono (fun _ => id) (Nat.le_succ _) (Nat.le_add_right ..)⟩
    · rw [picked, next, bounded]
      simp only [stage.overDelivered short split, decide_eq_true_eq]
      split
      · obtain ⟨written, wrote, paired⟩ := stage.deadLetter small
          (by omega) split (overDeliveredText max)
        obtain ⟨_, idle, time⟩ := Memory.visible_iff.mp due
        have sound := stage.sound.buried config ⟨now, mint, .reserve _⟩
          (.sweep (overDeliveredText max) split.jobs idle time rfl) split.jobs rfl rfl rfl
        obtain ⟨final, looped, finalStage⟩ :=
          ih ⟨paired, sound⟩ (running.deadLetter split.jobs _ _) (by omega)
        refine ⟨final, ?_, ?_⟩
        · simp only [wrote, Bind.bind, Except.bind, looped]
        · rw [Nat.add_assoc, Nat.add_comm 1] at finalStage
          exact finalStage
      · refine ⟨_, ?_, (stage.lease short split due).mono
          (fun _ => id) (Nat.le_refl _) (Nat.le_add_right ..)⟩
        rw [Memory.leaseAt_split config split.jobs]
        simp only [decode_of_encode split.pair.stored.encodes, Bind.bind,
          Except.bind, Option.map_some, Reservation.rename]

theorem reserve_agrees (small : now < i64Max) (short : served < u32Max)
    (few : limit + maxDeadLetterSweep ≤ i64Max) (lane : Lane)
    (mint : ReservationReceipt) :
    Agrees serde relabel now used (served + 1) (limit + maxDeadLetterSweep)
      (Memory.reserve Memory.releaseLease config inner now mint lane)
      (reserve serde config tables now (relabel mint) lane) := by
  have released := stage.release small
  have running := Memory.running_releaseExpired Memory.releaseLease_releases now inner
  unfold Memory.reserve reserve
  cases bound : config.maxDeliveries with
  | some max =>
    obtain ⟨written, looped, next⟩ := reserveLoop_agrees small short lane
      mint bound maxDeadLetterSweep released running few
    simp only [looped, commit]
    exact ⟨congrArg Except.ok (Value.rename_reserved relabel _).symm, next⟩
  | none =>
    unfold reserveUnbounded Memory.reserveLoop
    simp only [nanos_of_lt small, maxDeadLetterSweep, bound]
    rcases released.paired.next small running lane with
      ⟨none, nothing⟩ | ⟨before, job, after, before', row, after', split, picked, due, next⟩
    · rw [none, nothing]
      exact ⟨rfl, released.mono (fun _ => id) (Nat.le_succ _) (Nat.le_add_right ..)⟩
    · have leased : Stage serde relabel now used (served + 1) limit
          (Memory.leaseAt config _ before.length now mint).1 _ :=
        released.lease short split due
      rw [picked, next]
      simp only [decode_of_encode split.pair.stored.encodes]
      refine ⟨?_, leased.mono (fun _ => id) (Nat.le_refl _) (Nat.le_add_right ..)⟩
      rw [Memory.leaseAt_split config split.jobs]
      rfl

/-! ## Insertions -/

/-- The insertion of a job, with any number for its row that is larger than
the others. -/
theorem Stage.insert (job : NewJob) (fresh : job.id ∉ used)
    (encodable : Encodable serde job.intoEnvelope) {blob : Blob}
    (encoded : encodeEnvelope serde job.intoEnvelope = .ok blob)
    {seq : Nat} (later : ∀ other ∈ tables.jobs, other.seq < seq) :
    (∃ row, job.uniqueKey.bind tables.keyHolder = some row ∧
        Memory.insertOne inner job now = (inner, row.id)) ∨
      (job.uniqueKey.bind tables.keyHolder = none ∧ tables.hasJob job.id = false ∧
        (Memory.insertOne inner job now).2 = job.id ∧
        Stage serde relabel now (used ++ [job.id]) served limit (Memory.insertOne inner job now).1
          (tables.withRow (newRow seq job.intoEnvelope job.lane
            (nanos (saturatingAdd now job.delay)) blob) job.uniqueKey)) := by
  have coherent := stage.sound.coherent
  have notLive : inner.isLive job.id = false := by
    apply Memory.isLive_eq_false.mpr
    intro member
    obtain ⟨other, live, same⟩ := mem_map.mp member
    apply fresh
    rw [← same]
    exact stage.sound.used _ (Memory.mem_contents_job live)
  have absent : tables.hasJob job.id = false := (stage.paired.hasJob job.id).trans notLive
  have holder : (job.uniqueKey.bind tables.keyHolder).map JobRow.id =
      inner.keyHolder job.uniqueKey := by
    unfold Inner.keyHolder
    cases job.uniqueKey with
    | none => rfl
    | some key => exact stage.paired.keyHolder coherent key
  rcases Memory.insertOne_cases inner job now with
    ⟨live, _⟩ | ⟨existing, _, held, inserted⟩ | ⟨_, keyFree, inserted⟩
  · rw [notLive] at live
    cases live
  · rw [held] at holder
    obtain ⟨row, found, same⟩ := Option.map_eq_some_iff.mp holder
    exact Or.inl ⟨row, found, by rw [inserted, same]⟩
  · rw [keyFree, Option.map_eq_none_iff] at holder
    rw [inserted]
    refine Or.inr ⟨holder, absent, rfl, ?_, ?_⟩
    · refine stage.paired.insert _ ⟨encoded, rfl, rfl, rfl⟩ rfl rfl rfl rfl rfl rfl absent later ?_
      intro name named
      rw [stage.paired.hasKey coherent]
      change job.uniqueKey = some name at named
      rw [Inner.keyHolder, named, Option.bind_some] at keyFree
      rw [keyFree]
      rfl
    · have change : Memory.Change Memory.releaseLease ⟨0, ⟨none, none⟩, none⟩ now ⟨⟨0⟩⟩
          (.enqueue job) inner _ _ := .store job notLive keyFree (mem_singleton_self job)
      apply change.sound Memory.releaseLease_releases _ stage.sound
      intro envelope member
      rw [mem_singleton.mp member]
      exact ⟨fresh, encodable, rfl⟩

theorem insertOne_agrees (job : NewJob) (fresh : job.id ∉ used)
    (encodable : Encodable serde job.intoEnvelope) :
    ∃ written, insertJob serde tables job (nanos (saturatingAdd now job.delay)) =
        .ok ((Memory.insertOne inner job now).2, written) ∧
      Stage serde relabel now (used ++ [job.id]) served limit
        (Memory.insertOne inner job now).1 written := by
  obtain ⟨blob, encoded⟩ := encodable.encodes_new
  rw [insertJob_eq stage.paired.tidy, encoded]
  rcases stage.insert job fresh encodable encoded (lt_nextJobSeq tables) with
    ⟨row, held, same⟩ | ⟨free, absent, id, next⟩
  · rw [held, same]
    exact ⟨tables, rfl, stage.mono (fun _ member => mem_append_left _ member) (Nat.le_refl _)
      (Nat.le_refl _)⟩
  · rw [free, absent, id]
    exact ⟨_, rfl, next⟩

omit stage in
theorem fresh_rest {job : NewJob} {rest : List NewJob}
    (fresh : ∀ other ∈ job :: rest, other.id ∉ used) (apart : job.id ∉ rest.map NewJob.id) :
    ∀ other ∈ rest, other.id ∉ used ++ [job.id] := by
  intro other member
  simp only [mem_append, mem_singleton, not_or]
  refine ⟨fresh other (mem_cons_of_mem _ member), ?_⟩
  intro same
  exact apart (same ▸ mem_map_of_mem member)

omit stage in
theorem insertAll_agrees (jobs : List NewJob)
    (stage : Stage serde relabel now used served limit inner tables)
    (fresh : ∀ job ∈ jobs, job.id ∉ used)
    (distinct : (jobs.map NewJob.id).Nodup)
    (encodable : ∀ job ∈ jobs, Encodable serde job.intoEnvelope) :
    ∃ written, insertAll serde now tables jobs =
        .ok ((Memory.insertAll now inner jobs).2, written) ∧
      Stage serde relabel now (used ++ jobs.map NewJob.id) served limit
        (Memory.insertAll now inner jobs).1 written := by
  induction jobs generalizing inner tables used with
  | nil =>
    refine ⟨tables, rfl, ?_⟩
    rw [map_nil, append_nil]
    exact stage
  | cons job rest ih =>
    obtain ⟨apart, restDistinct⟩ := nodup_cons.mp distinct
    obtain ⟨written, inserted, next⟩ := insertOne_agrees stage job (fresh job (mem_cons_self ..))
      (encodable job (mem_cons_self ..))
    obtain ⟨final, looped, finalStage⟩ := ih next (fresh_rest fresh apart) restDistinct
      (fun other member => encodable other (mem_cons_of_mem _ member))
    refine ⟨final, ?_, ?_⟩
    · simp only [insertAll, inserted, Bind.bind, Except.bind, looped, Memory.insertAll]
    · simpa [Memory.insertAll, append_assoc] using finalStage

theorem enqueue_agrees (job : NewJob) (fresh : job.id ∉ used)
    (encodable : Encodable serde job.intoEnvelope) :
    Agrees serde relabel now (used ++ [job.id]) served limit
      (Memory.enqueue inner now job) (enqueue serde tables now job) := by
  obtain ⟨written, inserted, next⟩ := insertOne_agrees stage job fresh encodable
  unfold Memory.enqueue enqueue
  rw [Memory.checkPayloadSize_ok encodable.encodes_new, inserted]
  exact ⟨rfl, next⟩

theorem enqueueBatch_agrees (jobs : List NewJob) (fresh : ∀ job ∈ jobs, job.id ∉ used)
    (distinct : (jobs.map NewJob.id).Nodup)
    (encodable : ∀ job ∈ jobs, Encodable serde job.intoEnvelope) :
    Agrees serde relabel now (used ++ jobs.map NewJob.id) served limit
      (Memory.enqueueBatch inner now jobs)
      (enqueueBatch serde tables now jobs) := by
  obtain ⟨written, inserted, next⟩ := insertAll_agrees jobs stage fresh distinct encodable
  unfold Memory.enqueueBatch enqueueBatch
  rw [Memory.checkPayloadSizes_ok fun job member =>
    (encodable job member).encodes_new, inserted]
  exact ⟨rfl, next⟩

theorem Stage.claim (scheduleId : String) (occurrence : Int64) :
    if Memory.wins (inner.schedules scheduleId) occurrence then
      ∃ claimed, tables.claimOccurrence scheduleId occurrence = some claimed ∧
        Stage serde relabel now used served limit
          { inner with
            schedules := Function.update inner.schedules scheduleId (some occurrence) }
          claimed
    else
      tables.claimOccurrence scheduleId occurrence = none := by
  have schedules := stage.paired.schedules
  have claim : tables.claimOccurrence scheduleId occurrence =
      if Memory.wins (inner.schedules scheduleId) occurrence then
        some { tables with
          schedules := Function.update tables.schedules scheduleId (some occurrence) }
      else
        none := by
    unfold Tables.claimOccurrence
    rw [schedules]
    cases inner.schedules scheduleId with
    | none => rfl
    | some last => simp [Memory.wins]
  rw [claim]
  split
  · exact ⟨_, rfl, ⟨{ stage.paired.tidy with }, stage.paired.jobs, stage.paired.dead,
      by rw [schedules]⟩, stage.sound.kept ⟨0, ⟨none, none⟩, none⟩
        ⟨now, ⟨⟨0⟩⟩, .removeSchedule scheduleId⟩ (.schedule _) rfl⟩
  · rfl

theorem enqueueScheduled_agrees (scheduleId : String) (occurrence : Int64) (job : NewJob)
    (fresh : job.id ∉ used)
    (encodable : Encodable serde job.intoEnvelope) :
    Agrees serde relabel now (used ++ [job.id]) served limit
      (Memory.enqueueScheduled inner now scheduleId occurrence job)
      (enqueueScheduled serde tables now scheduleId occurrence job) := by
  have claim := stage.claim scheduleId occurrence
  unfold Memory.enqueueScheduled enqueueScheduled
  by_cases won : Memory.wins (inner.schedules scheduleId) occurrence = true
  · simp only [won, if_true] at claim ⊢
    obtain ⟨claimed, found, next⟩ := claim
    obtain ⟨written, inserted, final⟩ := insertOne_agrees next job fresh encodable
    rw [found]
    simp only [inserted]
    exact ⟨rfl, final⟩
  · simp only [won] at claim ⊢
    rw [claim]
    exact ⟨rfl, stage.mono (fun _ member => mem_append_left _ member) (Nat.le_refl _)
      (Nat.le_refl _)⟩

/-! ## Dead letters -/

omit stage in
theorem deadOfLane_pairs (paired : Paired serde relabel now inner tables) (lane : Lane) :
    List.Forall₂ (DeadPair serde) (Memory.deadOfLane inner lane) (tables.deadOfLane lane) := by
  apply Lib.filter_of_aligned paired.dead
  intro entry row pair
  rw [pair.lane]

omit stage in
theorem readRows_pairs {dead : List DeadEntry} {rows : List DeadRow}
    (aligned : List.Forall₂ (DeadPair serde) dead rows) :
    readRows serde rows = .ok (dead.map DeadEntry.letter) := by
  induction aligned with
  | nil => rfl
  | @cons entry row _ _ pair _ ih =>
    simp only [readRows, decode_of_encode pair.stored.encodes, Bind.bind,
      Except.bind, ih, map_cons, pair.error]

theorem readDeadLetters_agrees (few : limit ≤ i64Max) (lane : Lane) (count : Nat) :
    readDeadLetters serde tables lane count = .ok (.deadLetters
        (((Memory.deadOfLane inner lane).take count).map DeadEntry.letter)) := by
  have pairs := deadOfLane_pairs stage.paired lane
  have most : (tables.deadOfLane lane).length ≤ i64Max := by
    have bound := stage.sound.dead
    rw [← pairs.length_eq]
    have within : (Memory.deadOfLane inner lane).length ≤
        inner.dead.length := length_filter_le _ _
    omega
  have taken : (tables.deadOfLane lane).take (min count i64Max) =
      (tables.deadOfLane lane).take count := by
    rcases Nat.le_total count i64Max with fits | large
    · rw [Nat.min_eq_left fits]
    · rw [Nat.min_eq_right large, take_of_length_le most,
        take_of_length_le (Nat.le_trans most large)]
  unfold readDeadLetters
  rw [taken, readRows_pairs (List.forall₂_take count pairs)]
  rfl

omit stage in
theorem deadById_none (paired : Paired serde relabel now inner tables) {id : JobId}
    (missing : (inner.dead.findIdx? fun entry => entry.id = id) = none) :
    tables.deadById id = none := by
  apply find?_eq_none.mpr
  intro row member
  obtain ⟨entry, inside, pair⟩ := Lib.exists_left_of_mem paired.dead member
  have missed := findIdx?_eq_none_iff.mp missing entry inside
  simpa [← pair.id] using missed

omit stage in
theorem deadById_located (paired : Paired serde relabel now inner tables) {id : JobId}
    {position : Nat}
    (located : (inner.dead.findIdx? fun entry => entry.id = id) = some position) :
    ∃ before entry after row, inner.dead = before ++ entry :: after ∧
      before.length = position ∧ entry.id = id ∧ tables.deadById id = some row ∧
      DeadPair serde entry row ∧
      List.Forall₂ (DeadPair serde) (before ++ after)
        (tables.dead.filter fun row => decide (row.id ≠ id)) := by
  obtain ⟨before, entry, after, split, length, hit, missed⟩ :=
    Lib.exists_split_of_findIdx? located
  have same : entry.id = id := of_decide_eq_true hit
  have aligned := paired.dead
  rw [split] at aligned
  obtain ⟨before', row, after', rows, early, pair, late⟩ := Lib.aligned_split aligned
  have sameRow : row.id = id := pair.id.symm.trans same
  have ids := paired.tidy.deadIds
  rw [rows] at ids
  refine ⟨before, entry, after, row, split, length, same, ?_, pair, ?_⟩
  · rw [Tables.deadById, rows, Lib.find?_split]
    · intro other member
      obtain ⟨entry', inside, pair'⟩ := Lib.exists_left_of_mem early member
      simpa [← pair'.id] using missed entry' inside
    · simp [sameRow]
  · rw [rows, ← sameRow, Lib.filter_at_key_split ids]
    exact rel_append early late

theorem Stage.revive (small : now < i64Max) {id : JobId} {before after : List DeadEntry}
    {entry : DeadEntry} {row : DeadRow}
    (split : inner.dead = before ++ entry :: after)
    (same : entry.id = id) (pair : DeadPair serde entry row)
    (pairs : List.Forall₂ (DeadPair serde) (before ++ after)
      (tables.dead.filter fun row => decide (row.id ≠ id)))
    (notLive : inner.isLive id = false)
    {seq : Nat} (later : ∀ other ∈ tables.jobs, other.seq < seq)
    (keyFree : inner.keyHolder entry.uniqueKey = none) :
    tables.hasJob entry.letter.envelope.id = false ∧
      (∀ name ∈ row.uniqueKey, tables.hasKey name = false) ∧
      Stage serde relabel now used served limit
        { inner with
          dead := before ++ after
          unique := Memory.claimKey inner.unique entry.uniqueKey id
          jobs := inner.jobs ++ [Memory.requeuedJob entry now] }
        ((tables.withRow (newRow seq entry.letter.envelope row.lane now row.envelope)
          row.uniqueKey).deleteDead id) := by
  subst same
  have coherent := stage.sound.coherent
  have absent : tables.hasJob entry.letter.envelope.id = false :=
    (stage.paired.hasJob _).trans notLive
  have freeRow : ∀ name ∈ entry.uniqueKey, tables.hasKey name = false := by
    intro name named
    rw [stage.paired.hasKey coherent]
    rw [Option.mem_def] at named
    rw [Inner.keyHolder, named, Option.bind_some] at keyFree
    rw [keyFree]
    rfl
  rw [pair.uniqueKey]
  refine ⟨absent, freeRow, ?_, ?_⟩
  · have inserted : Paired serde relabel now
        { inner with
          jobs := inner.jobs ++ [Memory.requeuedJob entry now]
          unique := Memory.claimKey inner.unique entry.uniqueKey entry.id }
        (tables.withRow (newRow seq entry.letter.envelope row.lane now row.envelope)
          entry.uniqueKey) :=
      stage.paired.insert _ ⟨pair.stored.encodes, rfl, pair.stored.lane, rfl⟩
        (nanos_of_lt small).symm rfl rfl rfl rfl rfl absent later freeRow
    exact inserted.dropDead pairs filter_sublist
  · exact stage.sound.kept ⟨0, ⟨none, none⟩, none⟩ ⟨now, ⟨⟨0⟩⟩, .requeue entry.id⟩
      (.revive split notLive keyFree) rfl

theorem requeue_agrees (small : now < i64Max) (id : JobId) :
    Agrees serde relabel now used served limit
      (Memory.requeue inner now id) (requeue serde tables now id) := by
  have coherent := stage.sound.coherent
  unfold Memory.requeue requeue
  rw [nanos_of_lt small]
  cases located : inner.dead.findIdx? fun entry => entry.id = id with
  | none =>
    rw [deadById_none stage.paired located]
    exact ⟨rfl, stage⟩
  | some position =>
    obtain ⟨before, entry, after, row, split, rfl, same, found, pair, pairs⟩ :=
      deadById_located stage.paired located
    have decoded := decode_of_encode pair.stored.encodes
    rw [found, stage.paired.hasJob]
    simp only
    by_cases live : inner.isLive id = true
    · rw [if_pos live, if_pos live]
      exact ⟨rfl, stage⟩
    · have notLive : inner.isLive id = false := by simpa using live
      have revive := stage.revive small split same pair pairs notLive
        (lt_nextJobSeq tables)
      rw [if_neg live, if_neg live, split, Lib.getElem?_split, Lib.eraseIdx_split, pair.uniqueKey]
      simp only
      cases key : entry.uniqueKey with
      | none =>
        rw [key] at revive
        obtain ⟨absent, free, next⟩ := revive rfl
        simp only [requeueRow_ok decoded absent free]
        exact ⟨rfl, next⟩
      | some name =>
        simp only [stage.paired.hasKey coherent]
        cases holder : inner.unique name with
        | some other => exact ⟨rfl, stage⟩
        | none =>
          rw [key] at revive
          obtain ⟨absent, free, next⟩ := revive holder
          simp only [requeueRow_ok decoded absent free]
          exact ⟨rfl, next⟩

theorem purgeDeadLetters_agrees (lane : Lane) :
    Agrees serde relabel now used served limit (Memory.purgeDeadLetters inner lane)
      (purgeDeadLetters tables lane) := by
  have pairs : List.Forall₂ (DeadPair serde)
      (inner.dead.filter fun entry => decide (entry.lane ≠ lane))
      (tables.dead.filter fun row => decide (row.lane ≠ lane)) := by
    apply Lib.filter_of_aligned stage.paired.dead
    intro entry row pair
    rw [pair.lane]
  have kept := Memory.partition_spec
    (fun entry : DeadEntry => decide (entry.lane ≠ lane)) inner.dead
  have sound := stage.sound.kept ⟨0, ⟨none, none⟩, none⟩ ⟨now, ⟨⟨0⟩⟩, .purgeDeadLetters lane⟩
    (.drop kept.1 kept.2) rfl
  unfold Memory.purgeDeadLetters purgeDeadLetters
  rw [partition_eq_filter_filter] at sound ⊢
  refine ⟨?_, stage.paired.dropDead pairs filter_sublist, sound⟩
  dsimp only
  rw [← pairs.length_eq, ← stage.paired.dead.length_eq]
  rfl

theorem removeSchedule_agrees (scheduleId : String) :
    Agrees serde relabel now used served limit (Memory.removeSchedule inner scheduleId)
      (removeSchedule tables scheduleId) := by
  refine ⟨rfl, ⟨{ stage.paired.tidy with }, stage.paired.jobs, stage.paired.dead, ?_⟩,
    stage.sound.kept ⟨0, ⟨none, none⟩, none⟩ ⟨now, ⟨⟨0⟩⟩, .removeSchedule scheduleId⟩
      (.schedule _) rfl⟩
  change Function.update tables.schedules scheduleId none = _
  rw [stage.paired.schedules]
  rfl

end Staged

theorem classify_agrees (paired : Paired serde relabel now inner tables) (id : JobId) :
    classifyState (tables.stateColumn id) = Memory.classify inner id := by
  unfold Memory.classify
  rw [← paired.hasJob, ← paired.hasDead, tables.stateColumn_eq]
  cases tables.hasJob id <;> cases tables.hasDead id <;> rfl

theorem pendingCount_agrees (paired : Paired serde relabel now inner tables) (lane : Lane) :
    tables.pendingCount lane = (inner.jobs.filter fun job => job.envelope.lane = lane).length := by
  have pairs : List.Forall₂ (JobPair serde relabel now tables.uniqueKeys)
      (inner.jobs.filter fun job => decide (job.envelope.lane = lane))
      (tables.jobs.filter fun row => decide (row.lane = lane)) := by
    apply Lib.filter_of_aligned paired.jobs
    intro job row pair
    rw [pair.stored.lane]
  exact pairs.length_eq.symm

theorem Agrees.mono {outcome : Memory.Outcome} {result : Tables × Reply}
    (agrees : Agrees serde relabel now used served limit outcome result)
    {used' : List JobId} {served' limit' : Nat}
    (moreIds : ∀ id ∈ used, id ∈ used') (moreServed : served ≤ served')
    (moreDead : limit ≤ limit') :
    Agrees serde relabel now used' served' limit' outcome result :=
  ⟨agrees.reply, agrees.stage.mono moreIds moreServed moreDead⟩

theorem perform_agrees (input : Input)
    (stage : Stage serde relabel input.now used served limit inner tables)
    (small : input.now < i64Max) (short : served < u32Max)
    (few : limit + maxDeadLetterSweep ≤ i64Max)
    (injective : Function.Injective relabel)
    (distinct : DistinctReceipts (holders tables))
    (fresh : ∀ job ∈ input.call.newJobs, job.id ∉ used)
    (ids : (input.call.newJobs.map NewJob.id).Nodup)
    (encodable : ∀ job ∈ input.call.newJobs, Encodable serde job.intoEnvelope) :
    Agrees serde relabel input.now (used ++ input.call.newJobs.map NewJob.id) (served + 1)
      (limit + maxDeadLetterSweep)
      (Memory.perform Memory.releaseLease config inner input)
      (perform serde config tables (input.rename relabel)) := by
  obtain ⟨now, mint, call⟩ := input
  have room : limit < i64Max := by
    unfold maxDeadLetterSweep at few
    omega
  have sweepRoom : limit + 1 ≤ limit + maxDeadLetterSweep := Nat.add_le_add_left (by decide) limit
  have same : ∀ {outcome : Memory.Outcome} {result : Tables × Reply} {jobs : List NewJob},
      Agrees serde relabel now used served limit outcome result →
      Agrees serde relabel now (used ++ jobs.map NewJob.id) (served + 1)
        (limit + maxDeadLetterSweep) outcome result :=
    fun agrees => agrees.mono (fun _ member => mem_append_left _ member) (Nat.le_succ _)
      (Nat.le_add_right ..)
  have grown : ∀ {outcome : Memory.Outcome} {result : Tables × Reply} {jobs : List NewJob},
      Agrees serde relabel now (used ++ jobs.map NewJob.id) served limit outcome result →
      Agrees serde relabel now (used ++ jobs.map NewJob.id) (served + 1)
        (limit + maxDeadLetterSweep) outcome result :=
    fun agrees => agrees.mono (fun _ => id) (Nat.le_succ _) (Nat.le_add_right ..)
  cases call with
  | enqueue job =>
    exact grown (enqueue_agrees stage job (fresh job (mem_singleton_self job))
      (encodable job (mem_singleton_self job)))
  | enqueueBatch jobs =>
    exact grown (enqueueBatch_agrees stage jobs fresh ids encodable)
  | enqueueScheduled scheduleId occurrence job =>
    exact grown (enqueueScheduled_agrees stage scheduleId occurrence job
      (fresh job (mem_singleton_self job))
      (encodable job (mem_singleton_self job)))
  | reserve lane =>
    exact (reserve_agrees stage small short few lane mint).mono
      (fun _ member => mem_append_left _ member) (Nat.le_refl _)
      (Nat.le_refl _)
  | ack receipt =>
    exact same (ack_agrees stage small injective distinct receipt)
  | retry receipt delay =>
    exact (retry_agrees stage small injective distinct receipt
      delay).mono (fun _ member => mem_append_left _ member)
      (Nat.le_refl _) (Nat.le_add_right ..)
  | defer receipt delay =>
    exact same (defer_agrees stage small injective distinct receipt delay)
  | fail receipt error =>
    exact (fail_agrees stage small injective distinct room receipt
      error).mono (fun _ member => mem_append_left _ member)
      (Nat.le_succ _) sweepRoom
  | extend receipt =>
    exact same (extend_agrees stage small injective distinct receipt)
  | classify id =>
    refine same ⟨?_, stage⟩
    simp only [perform, Input.rename, Call.rename, Memory.perform, classify_agrees stage.paired id]
    rfl
  | readDeadLetters lane count =>
    refine same ⟨?_, stage⟩
    simp only [perform, Input.rename, Call.rename, Memory.perform,
      readDeadLetters_agrees stage (Nat.le_of_lt room) lane count]
    rfl
  | countDeadLetters lane =>
    refine same ⟨?_, stage⟩
    simp only [perform, Input.rename, Call.rename, Memory.perform,
      ← (deadOfLane_pairs stage.paired lane).length_eq]
    rfl
  | requeue id => exact same (requeue_agrees stage small id)
  | purgeDeadLetters lane =>
    exact same (purgeDeadLetters_agrees stage lane)
  | pendingCount lane =>
    refine same ⟨?_, stage⟩
    simp only [perform, Input.rename, Call.rename, Memory.perform,
      pendingCount_agrees stage.paired lane]
    rfl
  | removeSchedule scheduleId =>
    exact same (removeSchedule_agrees stage scheduleId)

end Calls

/-! ## Runs -/

/-- The runs over which the brokers are compared. -/
structure Comparable (serde : SerdeJson) (inputs : List Input) : Prop where
  short : inputs.length < 2 ^ 32 - 1
  clock : ∀ input ∈ inputs, input.now < i64Max
  monotone : ClockMonotone inputs
  ids : ((newJobs inputs).map NewJob.id).Nodup
  encodable : ∀ job ∈ newJobs inputs, Encodable serde job.intoEnvelope
  fresh : FreshMints inputs

theorem comparable_past (serde : SerdeJson) : Lib.Machine.PrefixClosed (Comparable serde) := by
  intro past input comparable
  have inside : ∀ job ∈ newJobs past, job ∈ newJobs (past ++ [input]) := by
    intro job member
    rw [newJobs_concat]
    exact mem_append_left _ member
  refine ⟨?_, ?_, clockMonotone_past past input comparable.monotone, ?_,
    fun job member => comparable.encodable job (inside job member),
    freshMints_past past input comparable.fresh⟩
  · have short := comparable.short
    rw [length_append] at short
    omega
  · intro earlier member
    exact comparable.clock earlier (mem_append_left _ member)
  · have ids := comparable.ids
    rw [newJobs_concat, map_append] at ids
    exact (nodup_append.mp ids).1

theorem step_agrees {serde : SerdeJson} (config : Config)
    {relabel : ReservationReceipt → ReservationReceipt}
    (injective : Function.Injective relabel)
    (past : List Input) (input : Input)
    (comparable : Comparable serde (past ++ [input]))
    (stage : Stage serde relabel (lastReading past) ((newJobs past).map NewJob.id) past.length
      (past.length * maxDeadLetterSweep) ((Memory.machine config).run past)
      ((machine serde config).run (past.map (Input.rename relabel)))) :
    let inner := (Memory.machine config).run past
    let tables := (machine serde config).run (past.map (Input.rename relabel))
    Stage serde relabel (lastReading (past ++ [input])) ((newJobs (past ++ [input])).map NewJob.id)
        (past ++ [input]).length
        ((past ++ [input]).length * maxDeadLetterSweep)
        ((Memory.machine config).step inner input).1
        ((machine serde config).step tables (input.rename relabel)).1 ∧
      ((machine serde config).step tables (input.rename relabel)).2 =
        Reply.rename relabel ((Memory.machine config).step inner input).2 := by
  intro inner tables
  have short := comparable.short
  have ids := comparable.ids
  rw [length_append, length_singleton] at short
  rw [newJobs_concat, map_append] at ids
  have member : ∀ job ∈ input.call.newJobs, job ∈ newJobs (past ++ [input]) := by
    intro job listed
    rw [newJobs_concat]
    exact mem_append_right _ listed
  have distinct : DistinctReceipts (holders tables) :=
    (run_tidy_and_leases serde config _ (freshMints_rename relabel injective
      (freshMints_past past input comparable.fresh))).2.faithful.unique
  have current : Stage serde relabel input.now ((newJobs past).map NewJob.id) past.length
      (past.length * maxDeadLetterSweep) inner tables :=
    ⟨stage.paired.mono (lastReading_le comparable.monotone), stage.sound⟩
  have agrees : Agrees serde relabel input.now _ _ _
      (Memory.perform Memory.releaseLease config inner input)
      (perform serde config tables (input.rename relabel)) :=
    perform_agrees input current (comparable.clock input (by simp))
      (by unfold u32Max; omega)
      (by unfold maxDeadLetterSweep i64Max; omega) injective distinct
      (fun job listed used => disjoint_of_nodup_append ids used (mem_map_of_mem listed))
      (nodup_append.mp ids).2.1
      (fun job listed => comparable.encodable job (member job listed))
  refine ⟨?_, agrees.reply⟩
  rw [lastReading_concat, newJobs_concat, map_append,
    length_append, length_singleton, Nat.add_mul, Nat.one_mul]
  exact agrees.stage

/-- `SqliteBroker` refines `InMemoryBroker`: the same calls get the same
replies, up to the names of receipts. -/
theorem replies_refine (serde : SerdeJson) (config : Config)
    (relabel : ReservationReceipt → ReservationReceipt)
    (injective : Function.Injective relabel) (inputs : List Input)
    (comparable : Comparable serde inputs) :
    (machine serde config).replies (inputs.map (Input.rename relabel)) =
      ((Memory.machine config).replies inputs).map (Reply.rename relabel) := by
  obtain ⟨_, agreed⟩ := (Memory.machine config).replies_of_simulation
    (machine serde config) (Input.rename relabel)
    (fun past => Stage serde relabel (lastReading past) ((newJobs past).map NewJob.id) past.length
      (past.length * maxDeadLetterSweep))
    (fun _ reply reply' => reply' = Reply.rename relabel reply)
    (comparable_past serde)
    ⟨paired_empty serde relabel 0, Memory.sound_empty fun _ => Encodable.bump⟩
    (step_agrees config injective) inputs comparable
  have same : ((Memory.machine config).trace inputs).map
      (fun entry => Reply.rename relabel entry.2) =
      ((machine serde config).replies (inputs.map (Input.rename relabel))).map id :=
    Lib.map_eq_of_aligned agreed fun _ _ reply => reply.symm
  rw [map_id] at same
  rw [← same, Lib.Machine.replies, map_map]
  rfl

theorem replies_refine_one_job : let job : NewJob :=
      ⟨⟨⟨1⟩⟩, ⟨"mail"⟩, "send", [1, 2], 3, 0, some "key", 5, none⟩
    let inputs : List Input :=
      [⟨1, ⟨⟨0⟩⟩, .enqueue job⟩, ⟨2, ⟨⟨7⟩⟩, .reserve ⟨"mail"⟩⟩, ⟨3, ⟨⟨0⟩⟩, .ack ⟨⟨7⟩⟩⟩]
    let config : Config := ⟨30, ⟨none, none⟩, some 2⟩
    Comparable Json.serde inputs ∧
      (machine Json.serde config).replies (inputs.map (Input.rename id)) =
        ((Memory.machine config).replies inputs).map (Reply.rename id) := by
  intro job inputs config
  have comparable : Comparable Json.serde inputs := by
    refine ⟨by decide, by decide, by decide, by decide, ?_, by decide⟩
    intro submitted member
    have same : submitted = job := by
      simpa [newJobs, inputs, Call.newJobs] using member
    rw [same]
    exact Json.encodable_of_room rfl (by decide +kernel)
  exact ⟨comparable, replies_refine Json.serde config id Function.injective_id inputs comparable⟩

end Worklane.Sqlite
