import Worklane.Core.Fencing
import Worklane.Lib.Index
import Worklane.Sql.Tables

/-!
# What an operation can change in the tables

As for the in-memory broker, every operation is a list of elementary changes
of the tables.  The invariant of the tables and the steps of the lease table
are case analyses on `Change`; both SQL brokers use them.
-/

namespace Worklane.Sql

open List
open Lib.Lease (Act Action Lapses Step table)

/-! ## Well-formed rows and tables -/

section Tidy

variable (serde : SerdeJson)

/-- The blob was written by `encode_envelope` from this envelope. -/
def Encodes (blob : Blob) (envelope : JobEnvelope) : Prop :=
  encodeEnvelope serde envelope = .ok blob

/-- The columns of a job row are those of its envelope. -/
structure StoredRow (row : JobRow) (envelope : JobEnvelope) : Prop where
  encodes : Encodes serde row.envelope envelope
  id : envelope.id = row.id
  lane : envelope.lane = row.lane
  priority : envelope.priority = row.priority

structure StoredDead (row : DeadRow) (envelope : JobEnvelope) : Prop where
  encodes : Encodes serde row.envelope envelope
  id : envelope.id = row.id
  lane : envelope.lane = row.lane

/-- The invariant of the tables. -/
structure Tidy (tables : Tables) : Prop where
  seqs : tables.jobs.Pairwise fun row later => row.seq < later.seq
  ids : (tables.jobs.map JobRow.id).Nodup
  stored : ∀ row ∈ tables.jobs, ∃ envelope, StoredRow serde row envelope
  leases : ∀ row ∈ tables.jobs, row.receipt.isSome = true ↔ row.leasedUntil.isSome = true
  keys : (tables.uniqueKeys.map KeyRow.key).Nodup
  keySeqs : (tables.uniqueKeys.map KeyRow.seq).Nodup
  keyed : ∀ key ∈ tables.uniqueKeys, ∃ row ∈ tables.jobs, row.seq = key.seq
  deadSeqs : tables.dead.Pairwise fun row later => row.seq < later.seq
  deadIds : (tables.dead.map DeadRow.id).Nodup
  deadStored : ∀ row ∈ tables.dead, ∃ envelope, StoredDead serde row envelope

end Tidy

theorem tidy_empty (serde : SerdeJson) : Tidy serde Tables.empty where
  seqs := List.Pairwise.nil
  ids := nodup_nil
  stored := by simp [Tables.empty]
  leases := by simp [Tables.empty]
  keys := nodup_nil
  keySeqs := nodup_nil
  keyed := by simp [Tables.empty]
  deadSeqs := List.Pairwise.nil
  deadIds := nodup_nil
  deadStored := by simp [Tables.empty]

theorem Tidy.seqs_nodup {serde : SerdeJson} {tables : Tables}
    (tidy : Tidy serde tables) : (tables.jobs.map JobRow.seq).Nodup := by
  apply pairwise_map.mpr
  exact tidy.seqs.imp fun below => Nat.ne_of_lt below

/-! ## Elementary changes -/

/-- A lease that is over, or none. -/
def Free (now : Nat) (row : JobRow) : Prop :=
  ∀ endsAt, row.leasedUntil = some endsAt → endsAt ≤ now

/-- The row of a receipt that is still current. -/
structure Current (now : Nat) (row : JobRow) (receipt : ReservationReceipt) : Prop where
  held : row.receipt = some receipt
  unexpired : ∃ endsAt, row.leasedUntil = some endsAt ∧ now < endsAt

/-- The tables with a new row and its key. -/
def Tables.withRow (tables : Tables) (row : JobRow) (key : Option String) :
    Tables :=
  { tables with
    jobs := tables.jobs ++ [row]
    uniqueKeys := tables.uniqueKeys ++ key.toList.map fun name => ⟨name, row.seq⟩ }

/-- How the dead letters may change when a job leaves: not at all, or by its
record and by retention. -/
inductive DeadMove (serde : SerdeJson) (dead : List DeadRow) (id : JobId) : List DeadRow → Prop
  | none : DeadMove serde dead id dead
  | moved {row : DeadRow} {envelope : JobEnvelope} {dead' : List DeadRow}
      (stored : StoredDead serde row envelope) (same : row.id = id)
      (absent : id ∉ dead.map DeadRow.id)
      (later : ∀ other ∈ dead, other.seq < row.seq)
      (kept : dead'.Sublist (dead ++ [row])) :
      DeadMove serde dead id dead'

section Change

variable (serde : SerdeJson) (leaseUntil now : Nat)
variable (mint : ReservationReceipt) (brought : List JobId)

/-- Elementary changes, with the lease actions they take.  A call that brings
jobs buries none, and a job it does not bring has no record when it joins. -/
inductive Change : Tables → List (Action JobId ReservationReceipt) → Tables → Prop
  | insert {tables : Tables} {row : JobRow} {envelope : JobEnvelope} (key : Option String)
      (stored : StoredRow serde row envelope)
      (receipt : row.receipt = none) (idle : row.leasedUntil = none)
      (notLive : tables.hasJob row.id = false)
      (unburied : row.id ∈ brought ∨ tables.hasDead row.id = false)
      (later : ∀ other ∈ tables.jobs, other.seq < row.seq)
      (keyFree : ∀ name ∈ key, tables.hasKey name = false) :
      Change tables [] (tables.withRow row key)
  | lease {tables : Tables} {before after : List JobRow} {row : JobRow}
      (split : tables.jobs = before ++ row :: after)
      (free : Free now row) :
      Change tables [.grant row.id mint]
        { tables with
          jobs := before ++ leaseRow mint leaseUntil row :: after }
  | settle {tables : Tables} {before after : List JobRow}
      {row row' : JobRow} {receipt : ReservationReceipt}
      {envelope : JobEnvelope}
      (split : tables.jobs = before ++ row :: after)
      (current : Current now row receipt)
      (stored : StoredRow serde row' envelope)
      (seq : row'.seq = row.seq) (id : row'.id = row.id)
      (given : row'.receipt = none) (idle : row'.leasedUntil = none) :
      Change tables [.settle receipt] { tables with jobs := before ++ row' :: after }
  | renew {tables : Tables} {before after : List JobRow} {row : JobRow}
      {receipt : ReservationReceipt}
      (split : tables.jobs = before ++ row :: after)
      (current : Current now row receipt) :
      Change tables [.renew receipt]
        { tables with
          jobs := before ++ { row with leasedUntil := some leaseUntil } :: after }
  | remove {tables : Tables} {before after : List JobRow} {row : JobRow}
      {receipt : ReservationReceipt} {dead : List DeadRow}
      (split : tables.jobs = before ++ row :: after)
      (current : Current now row receipt) (quiet : brought = [])
      (moved : DeadMove serde tables.dead row.id dead) :
      Change tables [.settle receipt]
        { tables with
          jobs := before ++ after
          uniqueKeys := tables.uniqueKeys.filter fun key =>
            decide (key.seq ≠ row.seq)
          dead := dead }
  | sweep {tables : Tables} {before after : List JobRow} {row : JobRow} {dead : List DeadRow}
      (split : tables.jobs = before ++ row :: after)
      (free : Free now row) (quiet : brought = [])
      (moved : DeadMove serde tables.dead row.id dead) :
      Change tables []
        { tables with
          jobs := before ++ after
          uniqueKeys := tables.uniqueKeys.filter fun key =>
            decide (key.seq ≠ row.seq)
          dead := dead }
  | drop {tables : Tables} {dead : List DeadRow} (kept : dead.Sublist tables.dead) :
      Change tables [] { tables with dead := dead }
  | schedule {tables : Tables} (schedules : String → Option Int64) :
      Change tables [] { tables with schedules := schedules }

/-- A list of changes that takes at most one lease action. -/
inductive Changes : Tables → List (Action JobId ReservationReceipt) → Tables → Prop
  | refl (tables : Tables) : Changes tables [] tables
  | head {tables middle final : Tables} {first rest : List (Action JobId ReservationReceipt)} :
      Change serde leaseUntil now mint brought tables first middle →
      Changes middle rest final →
      Changes tables (first ++ rest) final

end Change

section Compose

variable {serde : SerdeJson} {leaseUntil now : Nat}
variable {mint : ReservationReceipt} {brought : List JobId}
variable {tables middle final : Tables}
variable {first rest : List (Action JobId ReservationReceipt)}

theorem Changes.single (change : Change serde leaseUntil now mint brought tables first final) :
    Changes serde leaseUntil now mint brought tables first final := by
  rw [← append_nil first]
  exact .head change (.refl final)

theorem Changes.trans (left : Changes serde leaseUntil now mint brought tables first middle)
    (right : Changes serde leaseUntil now mint brought middle rest final) :
    Changes serde leaseUntil now mint brought tables (first ++ rest) final := by
  induction left with
  | refl => exact right
  | head change _ ih =>
    rw [append_assoc]
    exact .head change (ih right)

end Compose

/-! ## The invariant is kept -/

section Kept

variable {serde : SerdeJson} {tables : Tables}
variable {before after : List JobRow} {row row' : JobRow}

theorem Tidy.replace (tidy : Tidy serde tables) (split : tables.jobs = before ++ row :: after)
    (seq : row'.seq = row.seq) (id : row'.id = row.id)
    (stored : ∃ envelope, StoredRow serde row' envelope)
    (lease : row'.receipt.isSome = true ↔ row'.leasedUntil.isSome = true) :
    Tidy serde { tables with jobs := before ++ row' :: after } := by
  obtain ⟨seqs, ids, storedAll, leases, keys, keySeqs, keyed, deadSeqs, deadIds, deadStored⟩ := tidy
  rw [split] at seqs ids storedAll leases keyed
  have origin : ∀ other ∈ before ++ row' :: after,
      other = row' ∨ other ∈ before ++ row :: after := by
    intro other member
    simp only [mem_append, mem_cons] at member ⊢
    tauto
  refine ⟨?_, by simpa [id] using ids, ?_, ?_, keys, keySeqs, ?_, deadSeqs, deadIds, deadStored⟩
  · simp only [pairwise_append, pairwise_cons, mem_cons] at seqs ⊢
    refine ⟨seqs.1, ⟨fun late member => ?_, seqs.2.1.2⟩, ?_⟩
    · rw [seq]
      exact seqs.2.1.1 late member
    · rintro early inside late (rfl | member)
      · rw [seq]
        exact seqs.2.2 early inside row (Or.inl rfl)
      · exact seqs.2.2 early inside late (Or.inr member)
  · intro other member
    rcases origin other member with rfl | old
    · exact stored
    · exact storedAll other old
  · intro other member
    rcases origin other member with rfl | old
    · exact lease
    · exact leases other old
  · intro key member
    obtain ⟨holder, inside, same⟩ := keyed key member
    simp only [mem_append, mem_cons] at inside ⊢
    rcases inside with early | rfl | late
    · exact ⟨holder, Or.inl early, same⟩
    · exact ⟨row', Or.inr (Or.inl rfl), seq.trans same⟩
    · exact ⟨holder, Or.inr (Or.inr late), same⟩

theorem DeadMove.kept {dead dead' : List DeadRow} {id : JobId}
    (moved : DeadMove serde dead id dead')
    (seqs : dead.Pairwise fun row later => row.seq < later.seq)
    (ids : (dead.map DeadRow.id).Nodup)
    (stored : ∀ row ∈ dead, ∃ envelope, StoredDead serde row envelope) :
    dead'.Pairwise (fun row later => row.seq < later.seq) ∧ (dead'.map DeadRow.id).Nodup ∧
      ∀ row ∈ dead', ∃ envelope, StoredDead serde row envelope := by
  cases moved with
  | none => exact ⟨seqs, ids, stored⟩
  | @moved record envelope _ storedRecord same absent later kept =>
    have seqs' : (dead ++ [record]).Pairwise fun row later => row.seq < later.seq := by
      rw [pairwise_append]
      refine ⟨seqs, pairwise_singleton .., ?_⟩
      intro other member last inside
      rw [mem_singleton.mp inside]
      exact later other member
    have ids' : ((dead ++ [record]).map DeadRow.id).Nodup := by
      rw [map_append]
      exact nodup_append'.mpr ⟨ids, nodup_singleton _, disjoint_singleton.mpr (same ▸ absent)⟩
    refine ⟨seqs'.sublist kept, ids'.sublist (kept.map _), ?_⟩
    intro other member
    rcases mem_append.mp (kept.subset member) with old | new
    · exact stored other old
    · rw [mem_singleton.mp new]
      exact ⟨envelope, storedRecord⟩

theorem Tidy.remove (tidy : Tidy serde tables)
    (split : tables.jobs = before ++ row :: after) {dead : List DeadRow}
    (moved : DeadMove serde tables.dead row.id dead) :
    Tidy serde
      { tables with
        jobs := before ++ after
        uniqueKeys := tables.uniqueKeys.filter fun key =>
          decide (key.seq ≠ row.seq)
        dead := dead } := by
  obtain ⟨deadSeqs, deadIds, deadStored⟩ := moved.kept tidy.deadSeqs tidy.deadIds tidy.deadStored
  have sublist : (before ++ after).Sublist tables.jobs := by
    rw [split]
    exact (List.Sublist.refl before).append (sublist_cons_self row after)
  refine ⟨tidy.seqs.sublist sublist, tidy.ids.sublist (sublist.map _),
    fun other member => tidy.stored other (sublist.subset member),
    fun other member => tidy.leases other (sublist.subset member),
    tidy.keys.sublist (filter_sublist.map _),
    tidy.keySeqs.sublist (filter_sublist.map _), ?_, deadSeqs,
    deadIds, deadStored⟩
  intro key member
  obtain ⟨inside, other⟩ := mem_filter.mp member
  obtain ⟨holder, live, same⟩ := tidy.keyed key inside
  refine ⟨holder, ?_, same⟩
  have different : holder ≠ row := by
    rintro rfl
    exact of_decide_eq_true other same.symm
  rw [split] at live
  simp only [mem_append, mem_cons] at live ⊢
  tauto

theorem hasJob_eq_false {id : JobId} :
    tables.hasJob id = false ↔ id ∉ tables.jobs.map JobRow.id := by
  simp [Tables.hasJob]

theorem hasKey_eq_false {key : String} :
    tables.hasKey key = false ↔ key ∉ tables.uniqueKeys.map KeyRow.key := by
  simp [Tables.hasKey]

theorem hasDead_eq_false {id : JobId} :
    tables.hasDead id = false ↔ id ∉ tables.dead.map DeadRow.id := by
  simp [Tables.hasDead]

theorem hasDead_deleteDead {id other : JobId} (same : other = id) :
    (tables.deleteDead id).hasDead other = false := by
  simp [Tables.hasDead, Tables.deleteDead, same]

theorem Tidy.insert (tidy : Tidy serde tables) {key : Option String}
    (stored : ∃ envelope, StoredRow serde row envelope)
    (lease : row.receipt.isSome = true ↔ row.leasedUntil.isSome = true)
    (notLive : tables.hasJob row.id = false)
    (later : ∀ other ∈ tables.jobs, other.seq < row.seq)
    (keyFree : ∀ name ∈ key, tables.hasKey name = false) :
    Tidy serde (tables.withRow row key) := by
  have unkeyed : row.seq ∉ tables.uniqueKeys.map KeyRow.seq := by
    intro member
    obtain ⟨found, inside, same⟩ := mem_map.mp member
    obtain ⟨holder, live, equal⟩ := tidy.keyed found inside
    have below := later holder live
    omega
  unfold Tables.withRow
  refine ⟨?_, ?_, ?_, ?_, ?_, ?_, ?_, tidy.deadSeqs, tidy.deadIds, tidy.deadStored⟩
  · rw [pairwise_append]
    refine ⟨tidy.seqs, pairwise_singleton .., ?_⟩
    intro other member last inside
    rw [mem_singleton.mp inside]
    exact later other member
  · rw [map_append]
    exact nodup_append'.mpr ⟨tidy.ids, nodup_singleton _,
      disjoint_singleton.mpr (hasJob_eq_false.mp notLive)⟩
  · intro other member
    rcases mem_append.mp member with old | new
    · exact tidy.stored other old
    · rw [mem_singleton.mp new]
      exact stored
  · intro other member
    rcases mem_append.mp member with old | new
    · exact tidy.leases other old
    · rw [mem_singleton.mp new]
      exact lease
  · cases key with
    | none => simpa using tidy.keys
    | some name =>
      have absent := hasKey_eq_false.mp (keyFree name rfl)
      simp only [Option.toList_some, map_append, map_cons, map_nil]
      exact nodup_append'.mpr ⟨tidy.keys, nodup_singleton _, disjoint_singleton.mpr absent⟩
  · cases key with
    | none => simpa using tidy.keySeqs
    | some name =>
      simp only [Option.toList_some, map_append, map_cons, map_nil]
      exact nodup_append'.mpr ⟨tidy.keySeqs, nodup_singleton _, disjoint_singleton.mpr unkeyed⟩
  · intro found member
    rcases mem_append.mp member with old | new
    · obtain ⟨holder, live, same⟩ := tidy.keyed found old
      exact ⟨holder, mem_append_left _ live, same⟩
    · obtain ⟨name, _, rfl⟩ := mem_map.mp new
      exact ⟨row, by simp, rfl⟩

variable {actions : List (Action JobId ReservationReceipt)}

theorem Change.tidy {leaseUntil now : Nat} {mint : ReservationReceipt} {brought : List JobId}
    {next : Tables}
    (change : Change serde leaseUntil now mint brought tables actions next)
    (tidy : Tidy serde tables) : Tidy serde next := by
  cases change with
  | insert key stored receipt idle notLive _ later keyFree =>
    exact tidy.insert ⟨_, stored⟩ (by simp [receipt, idle]) notLive later keyFree
  | @lease before after row split free =>
    obtain ⟨envelope, stored⟩ := tidy.stored row (by simp [split])
    exact tidy.replace split rfl rfl ⟨envelope, stored.encodes, stored.id, stored.lane,
        stored.priority⟩
      (by simp [leaseRow])
  | settle split current stored seq id given idle =>
    exact tidy.replace split seq id ⟨_, stored⟩ (by simp [given, idle])
  | @renew before after row receipt split current =>
    obtain ⟨envelope, stored⟩ := tidy.stored row (by simp [split])
    exact tidy.replace split rfl rfl ⟨envelope, stored.encodes, stored.id, stored.lane,
        stored.priority⟩
      (by simp [current.held])
  | remove split current _ moved => exact tidy.remove split moved
  | sweep split free _ moved => exact tidy.remove split moved
  | drop kept =>
    exact { tidy with
      deadSeqs := tidy.deadSeqs.sublist kept
      deadIds := tidy.deadIds.sublist (kept.map _)
      deadStored := fun row member =>
        tidy.deadStored row (kept.subset member) }
  | schedule => exact { tidy with }

theorem Changes.tidy {leaseUntil now : Nat} {mint : ReservationReceipt} {brought : List JobId}
    {next : Tables}
    (changes : Changes serde leaseUntil now mint brought tables actions next)
    (tidy : Tidy serde tables) : Tidy serde next := by
  induction changes with
  | refl => exact tidy
  | head change _ ih =>
    exact ih (change.tidy tidy)

end Kept

/-! ## Specifications of the statements -/

section Statements

variable {serde : SerdeJson} {tables : Tables}
variable {before after : List JobRow} {row : JobRow}

theorem visible_iff {lane : Lane} {now : Nat} : visible lane now row = true ↔
      row.lane = lane ∧ row.availableAt ≤ now ∧ Free now row := by
  unfold visible Free
  cases row.leasedUntil <;> simp [and_assoc]

theorem ordersBefore_ranking : Lib.Ranking ordersBefore where
  asymm := by
    intro left right above
    simp only [ordersBefore, Bool.or_eq_true, Bool.and_eq_true,
      decide_eq_true_eq, Bool.or_eq_false_iff, Bool.and_eq_false_iff,
      decide_eq_false_iff_not] at above ⊢
    omega
  negTrans := by
    intro left middle right first second
    simp only [ordersBefore, Bool.or_eq_false_iff, Bool.and_eq_false_iff,
      decide_eq_false_iff_not] at first second ⊢
    omega

/-- The next visible row is a best split of the table. -/
theorem nextVisible_cases (tables : Tables) (lane : Lane) (now : Nat) :
    (tables.nextVisible lane now = none ∧ ∀ row ∈ tables.jobs, visible lane now row = false) ∨
      ∃ before row after, tables.nextVisible lane now = some row ∧
        Lib.BestSplit (visible lane now) ordersBefore tables.jobs before
          row after := by
  unfold Tables.nextVisible
  rcases Lib.bestIndex_cases ordersBefore_ranking tables.jobs with
    ⟨none, hidden⟩ | ⟨before, row, after, picked, best⟩
  · exact Or.inl ⟨by rw [none]; rfl, hidden⟩
  · refine Or.inr ⟨before, row, after, ?_, best⟩
    rw [picked, Option.bind_some, best.split, Lib.getElem?_split]

theorem findValidRow_cases (tables : Tables) (receipt : ReservationReceipt) (now : Nat) :
    tables.findValidRow receipt now = .error (stale receipt) ∨
      ∃ before row after, tables.jobs = before ++ row :: after ∧ Current now row receipt ∧
        tables.findValidRow receipt now = .ok row := by
  unfold Tables.findValidRow Tables.byReceipt
  cases found : tables.jobs.find? fun row => row.receipt = some receipt with
  | none => exact Or.inl rfl
  | some row =>
    simp only
    split
    · next current =>
      obtain ⟨before, after, split⟩ := append_of_mem (mem_of_find?_eq_some found)
      obtain ⟨endsAt, ends, future⟩ := (Option.any_eq_true ..).mp current
      refine Or.inr ⟨before, row, after, split, ⟨?_, ?_⟩, rfl⟩
      · simpa using find?_some found
      · exact ⟨endsAt, ends, of_decide_eq_true future⟩
    · exact Or.inl rfl

theorem Tidy.keyHolder_eq_none (tidy : Tidy serde tables) (key : String) :
    tables.keyHolder key = none ↔ tables.hasKey key = false := by
  unfold Tables.keyHolder
  cases found : tables.uniqueKeys.find? fun row => row.key = key with
  | none =>
    have absent := find?_eq_none.mp found
    simp only [Option.bind_none, true_iff]
    simpa [Tables.hasKey] using absent
  | some keyRow =>
    have inside := mem_of_find?_eq_some found
    have same : keyRow.key = key := by simpa using find?_some found
    obtain ⟨holder, live, seq⟩ := tidy.keyed keyRow inside
    have held : tables.hasKey key = true := by
      simp only [Tables.hasKey, any_eq_true, decide_eq_true_eq]
      exact ⟨keyRow, inside, same⟩
    simp only [Option.bind_some, held, Bool.true_eq_false, iff_false,
      find?_eq_none, decide_eq_true_eq]
    intro none
    exact none holder live seq

theorem keyHolder_mem {key : String} {holder : JobRow}
    (found : tables.keyHolder key = some holder) :
    holder ∈ tables.jobs := by
  obtain ⟨keyRow, _, located⟩ := Option.bind_eq_some_iff.mp found
  exact mem_of_find?_eq_some located

theorem Tidy.decode (tidy : Tidy serde tables) {row : JobRow} (member : row ∈ tables.jobs) :
    ∃ envelope, decodeEnvelope serde row.envelope = .ok envelope ∧
      StoredRow serde row envelope := by
  obtain ⟨envelope, stored⟩ := tidy.stored row member
  exact ⟨envelope, decode_of_encode stored.encodes, stored⟩

theorem claimOccurrence_schedules {claimed : Tables} {scheduleId : String} {occurrence : Int64}
    (claims : tables.claimOccurrence scheduleId occurrence = some claimed) :
    ∃ schedules, claimed = { tables with schedules := schedules } := by
  unfold Tables.claimOccurrence at claims
  split at claims
  · cases claims
    exact ⟨_, rfl⟩
  · split at claims
    · cases claims
      exact ⟨_, rfl⟩
    · cases claims

theorem Tables.stateColumn_eq (tables : Tables) (id : JobId) : tables.stateColumn id =
      if tables.hasJob id then some 1
      else if tables.hasDead id then some 2
      else none := by
  have test : ∀ {α : Type} (items : List α) (test : α → Bool) (code : Int) (rest : List Int),
      ((items.filter test).map (fun _ => code) ++ rest).head? =
        if items.any test then some code else rest.head? := by
    intro α items test code rest
    induction items with
    | nil => rfl
    | cons item items ih =>
      by_cases hit : test item = true
      · simp [hit]
      · simpa [hit] using ih
  have dead := test tables.dead (fun row => decide (row.id = id)) 2 []
  rw [append_nil] at dead
  unfold Tables.stateColumn
  simp only [test, dead]
  rfl

theorem Tidy.updateJob_split (tidy : Tidy serde tables)
    (split : tables.jobs = before ++ row :: after)
    (change : JobRow → JobRow) :
    tables.updateJob row.seq change = { tables with jobs := before ++ change row :: after } := by
  have distinct := tidy.seqs_nodup
  rw [split] at distinct
  rw [Tables.updateJob, split, Lib.map_at_key_split distinct]

theorem Tidy.deleteJob_split (tidy : Tidy serde tables)
    (split : tables.jobs = before ++ row :: after) :
    (tables.freeUniqueKey row.seq).deleteJob row.seq =
      { tables with
        jobs := before ++ after
        uniqueKeys := tables.uniqueKeys.filter fun key =>
          decide (key.seq ≠ row.seq) } := by
  have distinct := tidy.seqs_nodup
  rw [split] at distinct
  simp only [Tables.freeUniqueKey, Tables.deleteJob]
  rw [split, Lib.filter_at_key_split distinct]

theorem pruneDeadLetters_sublist (policy : RetentionPolicy) (lane : Lane)
    (now : Nat) (dead : List DeadRow) :
    (pruneDeadLetters policy lane now dead).Sublist dead := by
  unfold pruneDeadLetters
  split
  · exact List.Sublist.refl _
  · cases policy.ageCutoffNanos now with
    | none =>
      cases policy.keepCount with
      | none => exact List.Sublist.refl _
      | some keep => exact filter_sublist
    | some cutoff =>
      have byAge : (pruneByAge lane cutoff dead).Sublist dead := filter_sublist
      cases policy.keepCount with
      | none => exact byAge
      | some keep => exact filter_sublist.trans byAge

/-- The record `dead_letter_seq` writes. -/
def deadRecord (deadSeq : Nat) (tables : Tables) (row : JobRow)
    (error : String) (now : Nat) : DeadRow where
  seq := deadSeq
  id := row.id
  lane := row.lane
  envelope := row.envelope
  error := error
  uniqueKey := tables.keyOf row.seq
  deadAt := now

/-- `dead_letter_seq` on a row of tidy tables: the unique index on `dead.id`
is what it can fail on. -/
theorem Tidy.deadLetterSeq_split (tidy : Tidy serde tables)
    (split : tables.jobs = before ++ row :: after)
    (policy : RetentionPolicy) (taken : Error) (deadSeq : Nat)
    (error : String) (now : Nat) :
    deadLetterSeq serde policy taken deadSeq tables row.seq row.envelope error now =
      if tables.hasDead row.id then
        .error taken
      else
        .ok
          { tables with
            jobs := before ++ after
            uniqueKeys := tables.uniqueKeys.filter fun key =>
              decide (key.seq ≠ row.seq)
            dead := pruneDeadLetters policy row.lane now (tables.dead ++
                [deadRecord deadSeq tables row error now]) } := by
  obtain ⟨envelope, stored⟩ := tidy.stored row (by simp [split])
  have decoded := decode_of_encode stored.encodes
  unfold deadLetterSeq
  rw [decoded, tidy.deleteJob_split split]
  simp only [Bind.bind, Except.bind, stored.id, stored.lane]
  rfl

theorem Tidy.deadMove (tidy : Tidy serde tables) (split : tables.jobs = before ++ row :: after)
    (notDead : tables.hasDead row.id = false)
    {deadSeq : Nat} (later : ∀ other ∈ tables.dead, other.seq < deadSeq)
    (policy : RetentionPolicy) (error : String) (now : Nat) :
    DeadMove serde tables.dead row.id (pruneDeadLetters policy row.lane now
        (tables.dead ++ [deadRecord deadSeq tables row error now])) := by
  obtain ⟨envelope, stored⟩ := tidy.stored row (by simp [split])
  exact DeadMove.moved ⟨stored.encodes, stored.id, stored.lane⟩ rfl
    (hasDead_eq_false.mp notDead) later (pruneDeadLetters_sublist ..)

end Statements

/-! ## Changes as steps of the lease table -/

/-- The lease a row is under, over or not. -/
def leaseOf (row : JobRow) : Option (ReservationReceipt × Nat) :=
  match row.receipt, row.leasedUntil with
  | some receipt, some endsAt => some (receipt, endsAt)
  | _, _ => none

def holders (tables : Tables) :
    Lib.Lease.Holders JobId ReservationReceipt :=
  table JobRow.id leaseOf tables.jobs

theorem leaseOf_of_idle {row : JobRow} (idle : row.leasedUntil = none) : leaseOf row = none := by
  unfold leaseOf
  rw [idle]
  split <;> simp_all

theorem Current.lease {now : Nat} {row : JobRow}
    {receipt : ReservationReceipt} (current : Current now row receipt) :
    ∃ endsAt, leaseOf row = some (receipt, endsAt) ∧ now < endsAt := by
  obtain ⟨endsAt, ends, future⟩ := current.unexpired
  exact ⟨endsAt, by simp [leaseOf, current.held, ends], future⟩

section LeaseStep

variable {serde : SerdeJson} {tables next final : Tables}
variable {leaseUntil now : Nat} {mint : ReservationReceipt} {brought : List JobId}
variable {before after : List JobRow} {row : JobRow}
variable {actions : List (Action JobId ReservationReceipt)}

theorem Tidy.held (tidy : Tidy serde tables) (split : tables.jobs = before ++ row :: after) :
    holders tables row.id = leaseOf row := by
  have ids := tidy.ids
  rw [split] at ids
  rw [holders, split]
  exact Lib.Lease.table_split ids

theorem Tidy.row_of_receipt {row other : JobRow}
    {receipt : ReservationReceipt} (tidy : Tidy serde tables)
    (distinct : DistinctReceipts (holders tables))
    (live : row ∈ tables.jobs) (otherLive : other ∈ tables.jobs)
    (held : row.receipt = some receipt)
    (otherHeld : other.receipt = some receipt) : row = other := by
  have leased : ∀ row ∈ tables.jobs, row.receipt = some receipt →
      ∃ endsAt, holders tables row.id = some (receipt, endsAt) := by
    intro row live held
    have both := (tidy.leases row live).mp (by rw [held]; rfl)
    obtain ⟨endsAt, leasedUntil⟩ := Option.isSome_iff_exists.mp both
    obtain ⟨before, after, split⟩ := append_of_mem live
    refine ⟨endsAt, ?_⟩
    rw [tidy.held split, leaseOf, held, leasedUntil]
  obtain ⟨endsAt, lease⟩ := leased row live held
  obtain ⟨otherEnd, otherLease⟩ := leased other otherLive otherHeld
  exact inj_on_of_nodup_map tidy.ids live otherLive (distinct _ _ _ _ _ lease otherLease)

theorem Tidy.findValidRow_current {receipt : ReservationReceipt} (tidy : Tidy serde tables)
    (distinct : DistinctReceipts (holders tables))
    (live : row ∈ tables.jobs) (current : Current now row receipt) :
    tables.findValidRow receipt now = .ok row := by
  have located : tables.byReceipt receipt = some row := by
    cases found : tables.byReceipt receipt with
    | none =>
      have absent := find?_eq_none.mp found row live
      simp [current.held] at absent
    | some other =>
      have held : other.receipt = some receipt := by
        simpa using find?_some found
      rw [tidy.row_of_receipt distinct live (mem_of_find?_eq_some found) current.held held]
  obtain ⟨endsAt, leasedUntil, future⟩ := current.unexpired
  rw [Tables.findValidRow, located]
  simp [leasedUntil, future]

theorem Tidy.holders_replace (tidy : Tidy serde tables)
    (split : tables.jobs = before ++ row :: after)
    (row' : JobRow) (same : row'.id = row.id) :
    holders { tables with jobs := before ++ row' :: after } =
      Function.update (holders tables) row.id (leaseOf row') := by
  have ids := tidy.ids
  rw [split] at ids
  rw [holders, holders, split]
  exact Lib.Lease.table_replace ids same

theorem Tidy.holders_remove (tidy : Tidy serde tables)
    (split : tables.jobs = before ++ row :: after)
    (keys : List KeyRow) (dead : List DeadRow) :
    holders
      { tables with
        jobs := before ++ after, uniqueKeys := keys, dead := dead } =
      Function.update (holders tables) row.id none := by
  have ids := tidy.ids
  rw [split] at ids
  unfold holders
  rw [split]
  exact Lib.Lease.table_remove ids

theorem Tidy.lapses (tidy : Tidy serde tables) (split : tables.jobs = before ++ row :: after)
    (free : Free now row) :
    Lapses now (holders tables) (Function.update (holders tables) row.id none) := by
  intro job
  by_cases same : job = row.id
  · subst same
    rw [Function.update_self, tidy.held split]
    cases lease : leaseOf row with
    | none => exact Or.inl rfl
    | some found =>
      obtain ⟨receipt, endsAt⟩ := found
      have ends : row.leasedUntil = some endsAt := by
        unfold leaseOf at lease
        split at lease <;> simp_all
      exact Or.inr ⟨rfl, receipt, endsAt, rfl, free endsAt ends⟩
  · rw [Function.update_of_ne same]
    exact Or.inl rfl

theorem Change.leaseStep {deadline : Nat → Nat}
    (until_eq : deadline now = leaseUntil) (tidy : Tidy serde tables)
    (change : Change serde leaseUntil now mint brought tables actions next) :
    (actions = [] ∧ Lapses now (holders tables) (holders next)) ∨ ∃ action, actions = [action] ∧
        Step deadline now (holders tables) action (holders next) := by
  subst until_eq
  cases change with
  | @insert row envelope key stored receipt idle notLive _ later keyFree =>
    refine Or.inl ⟨rfl, ?_⟩
    have absent := hasJob_eq_false.mp notLive
    have same : holders (tables.withRow row key) = holders tables := by
      unfold holders Tables.withRow
      rw [Lib.Lease.table_concat absent, leaseOf_of_idle idle, Function.update_eq_self_iff]
      exact (Lib.Lease.table_of_not_mem absent).symm
    rw [same]
    exact Lapses.refl now _
  | @lease before after row split free =>
    refine Or.inr ⟨_, rfl, ?_⟩
    -- The old lease is over: it lapses, then the job is granted.
    refine Step.idle_trans (tidy.lapses split free) ?_
    rw [tidy.holders_replace split (leaseRow mint _ row) rfl]
    have act : Act deadline now (Function.update (holders tables) row.id none)
        (.grant row.id mint) _ :=
      Act.grant mint (Function.update_self ..)
    rw [Function.update_idem] at act
    exact act.step
  | settle split current stored seq id given idle =>
    obtain ⟨endsAt, lease, future⟩ := current.lease
    refine Or.inr ⟨_, rfl, ?_⟩
    rw [tidy.holders_replace split _ id, leaseOf_of_idle idle]
    exact (Act.settle ((tidy.held split).trans lease) future).step
  | @renew before after row receipt split current =>
    obtain ⟨endsAt, lease, future⟩ := current.lease
    have renewed : leaseOf { row with leasedUntil := some (deadline now) } =
          some (receipt, deadline now) := by
      simp [leaseOf, current.held]
    refine Or.inr ⟨_, rfl, ?_⟩
    rw [tidy.holders_replace split { row with leasedUntil := some (deadline now) } rfl, renewed]
    exact (Act.renew ((tidy.held split).trans lease) future).step
  | remove split current _ moved =>
    obtain ⟨endsAt, lease, future⟩ := current.lease
    refine Or.inr ⟨_, rfl, ?_⟩
    rw [tidy.holders_remove split]
    exact (Act.settle ((tidy.held split).trans lease) future).step
  | sweep split free _ moved =>
    refine Or.inl ⟨rfl, ?_⟩
    rw [tidy.holders_remove split]
    exact tidy.lapses split free
  | drop => exact Or.inl ⟨rfl, Lapses.refl now _⟩
  | schedule => exact Or.inl ⟨rfl, Lapses.refl now _⟩

theorem Changes.leaseStep {deadline : Nat → Nat}
    (until_eq : deadline now = leaseUntil) (tidy : Tidy serde tables)
    (changes : Changes serde leaseUntil now mint brought tables actions final)
    {action : Action JobId ReservationReceipt}
    (active : actions = action.active) :
    Step deadline now (holders tables) action (holders final) := by
  induction changes generalizing action with
  | refl =>
    cases action with
    | idle => exact (Act.idle _).step
    | _ => cases active
  | head change rest ih =>
    have next := change.tidy tidy
    rcases change.leaseStep until_eq tidy with
      ⟨rfl, lapses⟩ | ⟨taken, rfl, step⟩
    · exact (ih next active).idle_trans lapses
    · obtain ⟨rfl, quiet⟩ := Lib.Lease.Action.active_eq_cons active
      exact step.trans_idle (Lib.Lease.step_idle_iff.mp (ih next quiet))

end LeaseStep

/-! ## Calls -/

/-- The changes a call may make at `now`. -/
abbrev CallChanges (serde : SerdeJson) (config : Config) (now : Nat) (mint : ReservationReceipt) :=
  Changes serde (nanos (saturatingAdd now config.lease)) (nanos now) mint

/-- The ids of the jobs a call brings. -/
def brought (input : Input) : List JobId :=
  input.call.newJobs.map NewJob.id

/-- A call is a list of changes with the lease action it is seen to take. -/
def IsChanges (serde : SerdeJson) (config : Config) (tables : Tables)
    (input : Input) (outcome : Tables × Reply) : Prop :=
  CallChanges serde config input.now input.mint (brought input) tables
    (leaseAction (input, outcome.2)).active outcome.1

theorem rejected_isChanges {serde : SerdeJson} {config : Config}
    (tables : Tables) (input : Input) (failure : Error) :
    IsChanges serde config tables input (tables, .error failure) :=
  .refl tables

end Worklane.Sql
