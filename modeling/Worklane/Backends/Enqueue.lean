import Worklane.Core.Json
import Worklane.Lib.Dedup
import Worklane.Memory.Sound
import Worklane.Postgres.Invariant
import Worklane.Redis.Naming
import Worklane.Sqlite.Invariant

/-!
# One enqueue on four brokers

The live jobs of a broker, seen through what all four store of them, and what
one `enqueue` does to that view.  The in-memory broker and the Redis script
look the id up first, the SQL brokers the unique key.
-/

namespace Worklane

open Lib.Dedup (Holds Single Contested Unheld IdFirst KeyFirst)

/-- What every broker stores of a live job. -/
structure LiveJob where
  envelope : JobEnvelope
  uniqueKey : Option String
  availableAt : Nat
  deliveries : Nat
  deriving DecidableEq, Repr

abbrev LiveStore := JobId → Option LiveJob

/-- A job as it is stored at `now`. -/
def liveJob (job : NewJob) (now : Nat) : LiveJob where
  envelope := job.intoEnvelope
  uniqueKey := job.uniqueKey
  availableAt := nanos (saturatingAdd now job.delay)
  deliveries := 0

/-- The insertion of `job` at `now`, by the rule that is looked at first. -/
abbrev InsertsIdFirst (live : LiveStore) (job : NewJob) (now : Nat) :=
  IdFirst LiveJob.uniqueKey live job.id job.uniqueKey (liveJob job now)

abbrev InsertsKeyFirst (live : LiveStore) (job : NewJob) (now : Nat) :=
  KeyFirst LiveJob.uniqueKey live job.id job.uniqueKey (liveJob job now)

/-! ## The in-memory broker -/

namespace Memory

def liveOf (job : StoredJob) : LiveJob where
  envelope := job.envelope
  uniqueKey := job.uniqueKey
  availableAt := nanos job.availableAt
  deliveries := job.deliveries

def live (inner : Inner) : LiveStore := fun id =>
  (inner.jobs.find? fun job => decide (job.id = id)).map liveOf

variable {inner : Inner}

theorem live_eq_none {id : JobId} : live inner id = none ↔ inner.isLive id = false := by
  simp [live, Inner.isLive]

theorem holds_iff (coherent : Coherent inner) {key : String} {id : JobId} :
    Lib.Dedup.Holds LiveJob.uniqueKey (live inner) key id ↔ inner.unique key = some id := by
  rw [coherent.keys key id]
  constructor
  · rintro ⟨item, found, keyed⟩
    obtain ⟨job, located, rfl⟩ := Option.map_eq_some_iff.mp found
    obtain ⟨member, same⟩ := (Lib.find?_key_iff coherent.ids).mp located
    exact ⟨job, member, same, keyed⟩
  · rintro ⟨job, member, same, keyed⟩
    refine ⟨liveOf job, ?_, keyed⟩
    have located := (Lib.find?_key_iff coherent.ids).mpr ⟨member, same⟩
    rw [live, located, Option.map_some]

theorem live_single (coherent : Coherent inner) : Single LiveJob.uniqueKey (live inner) := by
  intro key first second one other
  have left := (holds_iff coherent).mp one
  have right := (holds_iff coherent).mp other
  rw [left] at right
  exact Option.some.inj right

theorem insertOne_idFirst (coherent : Coherent inner) (job : NewJob) (now : Nat) :
    InsertsIdFirst (live inner) job now (insertOne inner job now).2
      (live (insertOne inner job now).1) := by
  unfold insertOne
  by_cases present : inner.isLive job.id = true
  · rw [if_pos present]
    refine .present ?_
    rw [ne_eq, live_eq_none, present]
    decide
  · have absent : inner.isLive job.id = false := by simpa using present
    rw [if_neg present]
    cases holder : inner.keyHolder job.uniqueKey with
    | some existing =>
      obtain ⟨key, keyed, owner⟩ := Option.bind_eq_some_iff.mp holder
      exact .held (live_eq_none.mpr absent) keyed ((holds_iff coherent).mpr owner)
    | none =>
      have free : Unheld LiveJob.uniqueKey (live inner)
          job.uniqueKey := by
        intro key keyed other holds
        have owner := (holds_iff coherent).mp holds
        rw [Option.mem_def] at keyed
        rw [Inner.keyHolder, keyed, Option.bind_some, owner] at holder
        cases holder
      have grown : ∀ unique, live
          { inner with
            unique := unique
            jobs := inner.jobs ++ [storedJob job now] } =
          Function.update (live inner) job.id (some (liveJob job now)) := by
        intro unique
        funext id
        have concat := @Lib.find?_concat_key _ _ StoredJob.id _
          inner.jobs (storedJob job now) (isLive_eq_false.mp absent) id
        have ownId : (storedJob job now).id = job.id := rfl
        rw [live, concat, ownId]
        by_cases own : id = job.id
        · rw [if_pos own, own, Function.update_self]
          rfl
        · rw [if_neg own, Function.update_of_ne own]
          rfl
      simp only [grown]
      exact .inserted (live_eq_none.mpr absent) free

theorem enqueue_idFirst (coherent : Coherent inner) {serde : SerdeJson} {job : NewJob} {blob : Blob}
    (encoded : encodeEnvelope serde job.intoEnvelope = .ok blob)
    (now : Nat) :
    ∃ id, (enqueue inner now job).reply = .ok (.jobId id) ∧ InsertsIdFirst (live inner) job now id
        (live (enqueue inner now job).inner) := by
  unfold enqueue
  rw [checkPayloadSize_ok ⟨blob, encoded⟩]
  exact ⟨_, rfl, insertOne_idFirst coherent job now⟩

end Memory

/-! ## The SQL tables -/

namespace Sql

variable {serde : SerdeJson} {tables : Tables}

def liveOf (serde : SerdeJson) (tables : Tables) (row : JobRow) :
    Option LiveJob :=
  (decodeEnvelope serde row.envelope).toOption.map fun envelope =>
    { envelope := envelope
      uniqueKey := tables.keyOf row.seq
      availableAt := row.availableAt
      deliveries := row.deliveries }

def live (serde : SerdeJson) (tables : Tables) : LiveStore := fun id =>
  (tables.jobs.find? fun row => decide (row.id = id)).bind (liveOf serde tables)

theorem Tidy.live_of_row (tidy : Tidy serde tables) {row : JobRow} (member : row ∈ tables.jobs) :
    ∃ envelope, live serde tables row.id = some
      { envelope := envelope
        uniqueKey := tables.keyOf row.seq
        availableAt := row.availableAt
        deliveries := row.deliveries } := by
  obtain ⟨envelope, decoded, _⟩ := tidy.decode member
  have located := (Lib.find?_key_iff tidy.ids).mpr ⟨member, rfl⟩
  refine ⟨envelope, ?_⟩
  rw [live, located, Option.bind_some, liveOf, decoded]
  rfl

theorem Tidy.live_eq_none (tidy : Tidy serde tables) {id : JobId} :
    live serde tables id = none ↔ tables.hasJob id = false := by
  constructor
  · intro nothing
    apply Bool.eq_false_iff.mpr
    intro present
    obtain ⟨row, member, same⟩ := List.any_eq_true.mp present
    obtain ⟨envelope, found⟩ := tidy.live_of_row member
    rw [of_decide_eq_true same, nothing] at found
    cases found
  · intro absent
    have nothing : (tables.jobs.find? fun row => decide (row.id = id)) =
        none := by
      simpa [Tables.hasJob] using absent
    rw [live, nothing]
    rfl

theorem Tidy.keyOf_iff (tidy : Tidy serde tables) {seq : Nat} {key : String} :
    tables.keyOf seq = some key ↔ ⟨key, seq⟩ ∈ tables.uniqueKeys := by
  unfold Tables.keyOf
  rw [Option.map_eq_some_iff]
  constructor
  · rintro ⟨found, located, rfl⟩
    obtain ⟨member, rfl⟩ := (Lib.find?_key_iff tidy.keySeqs).mp located
    exact member
  · intro member
    exact ⟨⟨key, seq⟩, (Lib.find?_key_iff tidy.keySeqs).mpr ⟨member, rfl⟩, rfl⟩

theorem Tidy.keyHolder_iff (tidy : Tidy serde tables) {key : String} {row : JobRow} :
    tables.keyHolder key = some row ↔ row ∈ tables.jobs ∧ tables.keyOf row.seq = some key := by
  unfold Tables.keyHolder
  rw [Option.bind_eq_some_iff, tidy.keyOf_iff]
  constructor
  · rintro ⟨found, located, held⟩
    obtain ⟨inside, rfl⟩ := (Lib.find?_key_iff tidy.keys).mp located
    obtain ⟨member, same⟩ := (Lib.find?_key_iff tidy.seqs_nodup).mp held
    exact ⟨member, same ▸ inside⟩
  · rintro ⟨member, inside⟩
    exact ⟨⟨key, row.seq⟩, (Lib.find?_key_iff tidy.keys).mpr ⟨inside, rfl⟩,
      (Lib.find?_key_iff tidy.seqs_nodup).mpr ⟨member, rfl⟩⟩

theorem Tidy.holds_iff (tidy : Tidy serde tables) {key : String} {id : JobId} :
    Lib.Dedup.Holds LiveJob.uniqueKey (live serde tables) key id ↔
      ∃ row, tables.keyHolder key = some row ∧ row.id = id := by
  constructor
  · rintro ⟨item, found, keyed⟩
    obtain ⟨row, located, viewed⟩ := Option.bind_eq_some_iff.mp found
    obtain ⟨member, same⟩ := (Lib.find?_key_iff tidy.ids).mp located
    obtain ⟨envelope, own⟩ := tidy.live_of_row member
    rw [same, found] at own
    cases own
    exact ⟨row, tidy.keyHolder_iff.mpr ⟨member, keyed⟩, same⟩
  · rintro ⟨row, holder, rfl⟩
    obtain ⟨member, keyed⟩ := tidy.keyHolder_iff.mp holder
    obtain ⟨envelope, found⟩ := tidy.live_of_row member
    exact ⟨_, found, keyed⟩

theorem Tidy.unheld (tidy : Tidy serde tables) {key : Option String}
    (free : key.bind tables.keyHolder = none) :
    Unheld LiveJob.uniqueKey (live serde tables) key := by
  intro name keyed other holds
  obtain ⟨row, holder, _⟩ := tidy.holds_iff.mp holds
  rw [Option.mem_def] at keyed
  rw [keyed, Option.bind_some, holder] at free
  cases free

theorem Tidy.keyHolder_of_unheld (tidy : Tidy serde tables) {key : Option String}
    (free : Unheld LiveJob.uniqueKey (live serde tables) key) :
    key.bind tables.keyHolder = none := by
  refine Option.bind_eq_none_iff.mpr ?_
  intro name keyed
  cases holder : tables.keyHolder name with
  | none => rfl
  | some row => exact absurd (tidy.holds_iff.mpr ⟨row, holder, rfl⟩) (free name keyed row.id)

theorem Tidy.live_withRow (tidy : Tidy serde tables) {job : NewJob} {blob : Blob} {seq now : Nat}
    (encoded : encodeEnvelope serde job.intoEnvelope = .ok blob)
    (absent : tables.hasJob job.id = false)
    (later : ∀ row ∈ tables.jobs, row.seq < seq) :
    live serde (tables.withRow (newRow seq job.intoEnvelope job.lane
          (nanos (saturatingAdd now job.delay)) blob) job.uniqueKey) =
      Function.update (live serde tables) job.id (some (liveJob job now)) := by
  have unkeyed : seq ∉ tables.uniqueKeys.map KeyRow.seq := by
    intro member
    obtain ⟨found, inside, same⟩ := List.mem_map.mp member
    obtain ⟨row, live, equal⟩ := tidy.keyed found inside
    have below := later row live
    omega
  have keys : ∀ other, Tables.keyOf (tables.withRow (newRow seq job.intoEnvelope job.lane
        (nanos (saturatingAdd now job.delay)) blob) job.uniqueKey) other =
      if other = seq then job.uniqueKey else tables.keyOf other := by
    intro other
    unfold Tables.keyOf Tables.withRow
    cases job.uniqueKey with
    | none =>
      by_cases own : other = seq
      · subst own
        have nothing : (tables.uniqueKeys.find? fun row =>
          decide (row.seq = other)) = none := by
          simpa using unkeyed
        simp [nothing]
      · simp [own]
    | some key =>
      have concat := @Lib.find?_concat_key _ _ KeyRow.seq _
        tables.uniqueKeys ⟨key, seq⟩ unkeyed other
      simp only [Option.toList_some, List.map_cons, List.map_nil, newRow_seq, concat]
      by_cases own : other = seq
      · simp [own]
      · simp [own]
  funext id
  have concat := @Lib.find?_concat_key _ _ JobRow.id _ tables.jobs
    (newRow seq job.intoEnvelope job.lane (nanos (saturatingAdd now job.delay)) blob)
    (hasJob_eq_false.mp absent) id
  have ownId : (newRow seq job.intoEnvelope job.lane
      (nanos (saturatingAdd now job.delay)) blob).id = job.id := rfl
  rw [live]
  change (List.find? _ (tables.jobs ++ [_])).bind _ = _
  rw [concat, ownId]
  by_cases own : id = job.id
  · rw [if_pos own, own, Function.update_self, Option.bind_some, liveOf,
      keys, newRow_seq, if_pos rfl]
    have decoded := decode_of_encode encoded
    simp only [newRow, decoded]
    rfl
  · rw [if_neg own, Function.update_of_ne own, live]
    cases located : tables.jobs.find? fun row => decide (row.id = id) with
    | none => rfl
    | some row =>
      have below := later row (List.mem_of_find?_eq_some located)
      rw [Option.bind_some, Option.bind_some, liveOf, liveOf, keys, if_neg (by omega)]

end Sql

namespace Sqlite

open Worklane.Sql

variable {serde : SerdeJson} {tables : Tables}

theorem enqueue_keyFirst (tidy : Tidy serde tables) {job : NewJob} {blob : Blob}
    (encoded : encodeEnvelope serde job.intoEnvelope = .ok blob)
    (now : Nat) :
    ∃ id, (enqueue serde tables now job).2 = .ok (.jobId id) ∧
      InsertsKeyFirst (live serde tables) job now id
        (live serde (enqueue serde tables now job).1) := by
  unfold enqueue
  rw [insertJob_eq tidy, encoded]
  cases holder : job.uniqueKey.bind tables.keyHolder with
  | some row =>
    obtain ⟨key, keyed, owner⟩ := Option.bind_eq_some_iff.mp holder
    exact ⟨_, rfl, .held keyed (tidy.holds_iff.mpr ⟨row, owner, rfl⟩)⟩
  | none =>
    have free := tidy.unheld holder
    by_cases present : tables.hasJob job.id = true
    · simp only [if_pos present, commit]
      refine ⟨_, rfl, .present free ?_⟩
      rw [ne_eq, tidy.live_eq_none, present]
      decide
    · have absent : tables.hasJob job.id = false := by
        simpa using present
      simp only [if_neg present, commit]
      refine ⟨_, rfl, ?_⟩
      rw [tidy.live_withRow encoded absent (lt_nextJobSeq tables)]
      exact .inserted free (tidy.live_eq_none.mpr absent)

end Sqlite

namespace Postgres

open Worklane.Sql

variable {serde : SerdeJson} {db : Database}

theorem enqueue_keyFirst (ready : Ready serde db) {job : NewJob} {blob : Blob}
    (encoded : encodeEnvelope serde job.intoEnvelope = .ok blob)
    (sent : checkKey job = .ok ())
    (sendable : Unheld LiveJob.uniqueKey (live serde db.tables) job.uniqueKey →
      checkText job.lane.name = .ok ()) (now : Nat) :
    ∃ id, (enqueue serde db now job).2 = .ok (.jobId id) ∧
      InsertsKeyFirst (live serde db.tables) job now id
        (live serde (enqueue serde db now job).1.tables) := by
  have tidy := ready.tidy
  unfold enqueue
  rw [insertJob_eq tidy, sent]
  cases holder : job.uniqueKey.bind db.tables.keyHolder with
  | some row =>
    obtain ⟨key, keyed, owner⟩ := Option.bind_eq_some_iff.mp holder
    exact ⟨_, rfl, .held keyed (tidy.holds_iff.mpr ⟨row, owner, rfl⟩)⟩
  | none =>
    have free := tidy.unheld holder
    rw [encodeRow_ok_iff.mpr ⟨encoded, sendable free⟩]
    by_cases present : db.tables.hasJob job.id = true
    · simp only [if_pos present, transaction]
      refine ⟨_, rfl, .present free ?_⟩
      rw [ne_eq, tidy.live_eq_none, present]
      decide
    · have absent : db.tables.hasJob job.id = false := by
        simpa using present
      simp only [if_neg present, transaction]
      refine ⟨_, rfl, ?_⟩
      rw [tidy.live_withRow encoded absent ready.numbered.nextJob]
      exact .inserted free (tidy.live_eq_none.mpr absent)

end Postgres

/-! ## The Redis store -/

namespace Redis

variable {serde : SerdeJson} {store : Store}

/-- The attempts of a live job are in its hash, the rest of its envelope in
the blob. -/
def liveOf (serde : SerdeJson) (hash : JobHash) : Option LiveJob :=
  (decodeEnvelope serde hash.envelope).toOption.map fun envelope =>
    { envelope := { envelope with attempts := hash.attempts }
      uniqueKey := hash.uniqueKey
      availableAt := hash.availableAt
      deliveries := hash.deliveries }

def live (serde : SerdeJson) (store : Store) : LiveStore := fun id =>
  (store.job id.toText).bind (liveOf serde)

theorem Named.live_of_hash (named : Named serde store) {id : JobId}
    {hash : JobHash} (found : store.job id.toText = some hash) :
    ∃ item, live serde store id = some item ∧ item.uniqueKey = hash.uniqueKey := by
  obtain ⟨envelope, encoded, _⟩ := named.jobs _ hash found
  refine ⟨⟨{ envelope with attempts := hash.attempts }, hash.uniqueKey,
    hash.availableAt, hash.deliveries⟩, ?_, rfl⟩
  rw [live, found, Option.bind_some, liveOf, decode_of_encode encoded]
  rfl

theorem Named.live_eq_none (named : Named serde store) {id : JobId} :
    live serde store id = none ↔ store.job id.toText = none := by
  constructor
  · intro nothing
    cases found : store.job id.toText with
    | none => rfl
    | some hash =>
      obtain ⟨_, viewed, _⟩ := named.live_of_hash found
      cases nothing.symm.trans viewed
  · intro absent
    rw [live, absent]
    rfl

theorem Named.holds_iff (named : Named serde store)
    (indexed : Indexed store) {key : String} {id : JobId} :
    Lib.Dedup.Holds LiveJob.uniqueKey (live serde store) key id ↔
      store.unique key = some id.toText := by
  have owned := (indexed.keys key id.toText).trans Option.bind_eq_some_iff
  rw [owned]
  constructor
  · rintro ⟨item, viewed, keyed⟩
    obtain ⟨hash, found, _⟩ := Option.bind_eq_some_iff.mp viewed
    obtain ⟨other, same, own⟩ := named.live_of_hash found
    cases viewed.symm.trans same
    exact ⟨hash, found, own.symm.trans keyed⟩
  · rintro ⟨hash, found, keyed⟩
    obtain ⟨item, viewed, own⟩ := named.live_of_hash found
    exact ⟨item, viewed, own.trans keyed⟩

theorem jobArgs_live {job : NewJob} {blob : Blob}
    (encoded : encodeEnvelope serde job.intoEnvelope = .ok blob)
    (safe : laneKeySegment job.lane = .ok ())
    (keyed : job.uniqueKey ≠ some "") (now : Nat) :
    ∃ args, jobArgs serde now job = .ok args ∧ args.id = job.id ∧
      args.env = blob ∧ args.key = job.uniqueKey ∧
      ∀ seq, liveOf serde { args.hash with seq := seq } = some (liveJob job now) := by
  unfold jobArgs
  rw [safe, encoded]
  refine ⟨_, rfl, rfl, rfl, ?_⟩
  have ownKey : (if job.uniqueKey.getD "" = "" then none
      else some (job.uniqueKey.getD "")) = job.uniqueKey := by
    cases key : job.uniqueKey with
    | none => rfl
    | some name =>
      have filled : name ≠ "" := by
        rintro rfl
        exact keyed key
      exact if_neg filled
  refine ⟨ownKey, ?_⟩
  intro seq
  simp only [liveOf, JobArgs.hash, JobArgs.key, ownKey, decode_of_encode encoded]
  rfl

theorem enqueue_idFirst (indexed : Indexed store) (named : Named serde store)
    {job : NewJob} {blob : Blob}
    (encoded : encodeEnvelope serde job.intoEnvelope = .ok blob)
    (safe : laneKeySegment job.lane = .ok ())
    (keyed : job.uniqueKey ≠ some "") (now : Nat) :
    ∃ id, (enqueue serde store now job).2 = .ok (.jobId id) ∧
      InsertsIdFirst (live serde store) job now id
        (live serde (enqueue serde store now job).1) := by
  obtain ⟨args, accepted, ownId, ownBlob, ownKey, viewed⟩ := jobArgs_live encoded safe keyed now
  unfold enqueue
  rw [accepted]
  simp only [Store.enqueue, ownId, ownKey]
  cases found : store.job job.id.toText with
  | some hash =>
    obtain ⟨envelope, stored, same⟩ := named.jobs _ hash found
    have sameId : envelope.id = job.id := toText_injective same
    simp only [Option.isSome_some, if_true, Store.envelopeOf, found,
      Option.map_some, storedId, decode_of_encode stored, Except.map]
    refine ⟨job.id, by rw [sameId], .present ?_⟩
    rw [ne_eq, named.live_eq_none, found]
    exact Option.some_ne_none hash
  | none =>
    have absent := named.live_eq_none.mpr found
    simp only [Option.isSome_none, Bool.false_eq_true, if_false]
    cases holder : job.uniqueKey.bind store.unique with
    | some owner =>
      obtain ⟨key, keyed, owned⟩ := Option.bind_eq_some_iff.mp holder
      obtain ⟨envelope, hash, rfl, held, stored⟩ := named.owner_id indexed owned
      simp only [Store.envelopeOf, held, Option.map_some, storedId,
        decode_of_encode stored, Except.map]
      exact ⟨envelope.id, rfl, .held absent keyed ((named.holds_iff indexed).mpr owned)⟩
    | none =>
      have free : Unheld LiveJob.uniqueKey (live serde store)
          job.uniqueKey := by
        intro key keyed other holds
        have owned := (named.holds_iff indexed).mp holds
        rw [Option.mem_def] at keyed
        rw [keyed, Option.bind_some, owned] at holder
        cases holder
      simp only [storedId, ownBlob, decode_of_encode encoded, Except.map]
      refine ⟨job.id, rfl, ?_⟩
      have grown : live serde (store.storeJob job.id.toText args.hash) =
          Function.update (live serde store) job.id (some (liveJob job now)) := by
        funext id
        unfold live Store.storeJob Store.putJob
        by_cases own : id = job.id
        · subst own
          simp only [Function.update_self, Option.bind_some, viewed]
        · have other : id.toText ≠ job.id.toText := fun same => own (toText_injective same)
          rw [Function.update_of_ne own]
          simp only [Function.update_of_ne other]
      rw [grown]
      exact .inserted absent free

end Redis

/-! ## The four together -/

/-- One `enqueue` returns the same id and leaves the same live jobs on all
four brokers. -/
def EnqueuesAlike (serde : SerdeJson) (inner : Memory.Inner)
    (tables : Sql.Tables) (db : Postgres.Database) (store : Redis.Store)
    (now : Nat) (job : NewJob) : Prop :=
  ∃ id live, ((Memory.enqueue inner now job).reply = .ok (.jobId id) ∧
      Memory.live (Memory.enqueue inner now job).inner = live) ∧
    ((Sqlite.enqueue serde tables now job).2 = .ok (.jobId id) ∧
      Sql.live serde (Sqlite.enqueue serde tables now job).1 = live) ∧
    ((Postgres.enqueue serde db now job).2 = .ok (.jobId id) ∧
      Sql.live serde (Postgres.enqueue serde db now job).1.tables = live) ∧
    (Redis.enqueue serde store now job).2 = .ok (.jobId id) ∧
      Redis.live serde (Redis.enqueue serde store now job).1 = live

/-- A job within the size caps: its envelope can be stored, and its texts fit
into the indexes of Postgres. -/
structure WithinSizes (serde : SerdeJson) (job : NewJob) : Prop where
  encoded : ∃ blob, encodeEnvelope serde job.intoEnvelope = .ok blob
  lane : job.lane.name.utf8ByteSize ≤ Postgres.maxIndexedBytes
  key : ∀ key ∈ job.uniqueKey, key.utf8ByteSize ≤ Postgres.maxIndexedBytes

section Together

variable {serde : SerdeJson} {now : Nat} {job : NewJob}

theorem Redis.laneKeySegment_of_enqueue {store : Redis.Store} {id : JobId}
    (accepted : (Redis.enqueue serde store now job).2 = .ok (.jobId id)) :
    Redis.laneKeySegment job.lane = .ok () := by
  unfold Redis.enqueue at accepted
  cases ran : Redis.jobArgs serde now job with
  | error failure =>
    rw [ran] at accepted
    cases accepted
  | ok args => exact (Redis.jobArgs_ok ran).1

theorem Postgres.sendable_of_enqueue {db : Postgres.Database} {id : JobId}
    (tidy : Sql.Tidy serde db.tables)
    (accepted : (Postgres.enqueue serde db now job).2 = .ok (.jobId id)) :
    Postgres.checkKey job = .ok () ∧
      (Unheld LiveJob.uniqueKey (Sql.live serde db.tables) job.uniqueKey →
        Postgres.checkText job.lane.name = .ok ()) := by
  unfold Postgres.enqueue at accepted
  rw [Postgres.insertJob_eq tidy] at accepted
  cases sent : Postgres.checkKey job with
  | error failure =>
    rw [sent] at accepted
    cases accepted
  | ok value =>
    refine ⟨rfl, ?_⟩
    intro free
    rw [sent, tidy.keyHolder_of_unheld free] at accepted
    cases encoded : Postgres.encodeRow serde job with
    | error failure =>
      rw [encoded] at accepted
      cases accepted
    | ok blob => exact (Postgres.encodeRow_ok_iff.mp encoded).2

/-- From corresponding states the four brokers agree on an `enqueue` exactly
when it is not contested, Redis takes the lane, and Postgres the key and, if no
job holds it, the lane. -/
theorem enqueues_alike_iff (serde : SerdeJson) (config : Config)
    (memoryRun sqliteRun postgresRun redisRun : List Input)
    (memoryFresh : FreshMints memoryRun) (sqliteFresh : FreshMints sqliteRun)
    (postgresFresh : FreshMints postgresRun)
    (redisFresh : FreshMints redisRun) (now : Nat) (job : NewJob)
    (fits : WithinSizes serde job) (keyed : job.uniqueKey ≠ some "") :
    let inner := (Memory.machine config).run memoryRun
    let tables := (Sqlite.machine serde config).run sqliteRun
    let db := (Postgres.machine serde config).run postgresRun
    let store := (Redis.machine serde config).run redisRun
    Sql.live serde tables = Memory.live inner →
    Sql.live serde db.tables = Memory.live inner →
    Redis.live serde store = Memory.live inner →
    (EnqueuesAlike serde inner tables db store now job ↔
      ¬ Contested LiveJob.uniqueKey (Memory.live inner) job.id job.uniqueKey ∧
        Redis.laneKeySegment job.lane = .ok () ∧
        Postgres.checkKey job = .ok () ∧
        (Unheld LiveJob.uniqueKey (Memory.live inner) job.uniqueKey →
          Postgres.checkText job.lane.name = .ok ())) := by
  intro inner tables db store sqliteLive postgresLive redisLive
  obtain ⟨blob, encoded⟩ := fits.encoded
  have coherent : Memory.Coherent inner :=
    (Memory.run_tracked Memory.releaseLease_releases config memoryRun
      memoryFresh).consistent.toCoherent
  have single := Memory.live_single coherent
  have tidy := (Sqlite.run_tidy_and_leases serde config sqliteRun sqliteFresh).1
  have ready := (Postgres.run_ready_and_leases serde config postgresRun postgresFresh).1
  obtain ⟨indexed, named⟩ := Redis.run_indexed_named serde config redisRun redisFresh
  obtain ⟨memoryId, memoryReply, memoryInserts⟩ := Memory.enqueue_idFirst coherent encoded now
  obtain ⟨sqliteId, sqliteReply, sqliteInserts⟩ := Sqlite.enqueue_keyFirst tidy encoded now
  rw [sqliteLive] at sqliteInserts
  have orders := Lib.Dedup.agree_iff single memoryInserts sqliteInserts
  constructor
  · rintro ⟨id, live, ⟨reply, left⟩, ⟨otherReply, right⟩, ⟨postgresReply, _⟩, redisReply, _⟩
    have sendable := Postgres.sendable_of_enqueue ready.tidy postgresReply
    rw [postgresLive] at sendable
    refine ⟨orders.mp ⟨?_, left.trans right.symm⟩, Redis.laneKeySegment_of_enqueue redisReply,
      sendable⟩
    have first := memoryReply.symm.trans reply
    have second := sqliteReply.symm.trans otherReply
    cases first
    cases second
    rfl
  · rintro ⟨calm, safe, sent, sendable⟩
    obtain ⟨sameId, sameLive⟩ := orders.mpr calm
    obtain ⟨postgresId, postgresReply, postgresInserts⟩ :=
      Postgres.enqueue_keyFirst ready encoded sent (postgresLive ▸ sendable) now
    rw [postgresLive] at postgresInserts
    obtain ⟨redisId, redisReply, redisInserts⟩ :=
      Redis.enqueue_idFirst indexed named encoded safe keyed now
    rw [redisLive] at redisInserts
    obtain ⟨samePostgres, postgresAfter⟩ := postgresInserts.unique single sqliteInserts
    obtain ⟨sameRedis, redisAfter⟩ := redisInserts.unique single memoryInserts
    subst sameId samePostgres sameRedis
    exact ⟨_, _, ⟨memoryReply, rfl⟩, ⟨sqliteReply, sameLive.symm⟩,
      ⟨postgresReply, postgresAfter.trans sameLive.symm⟩, redisReply,
      redisAfter⟩

/-- A second job with a key, after a first one. -/
theorem enqueues_alike_second_job : let first : NewJob :=
      ⟨⟨⟨1⟩⟩, ⟨"mail"⟩, "send", [], 3, 0, none, 0, none⟩
    let second : NewJob := ⟨⟨⟨2⟩⟩, ⟨"mail"⟩, "send", [], 3, 0, some "key", 5, none⟩
    let config : Config := ⟨30, ⟨none, none⟩, none⟩
    let inputs : List Input := [⟨1, ⟨⟨0⟩⟩, .enqueue first⟩]
    EnqueuesAlike Json.serde ((Memory.machine config).run inputs)
      ((Sqlite.machine Json.serde config).run inputs)
      ((Postgres.machine Json.serde config).run inputs)
      ((Redis.machine Json.serde config).run inputs) 2 second := by
  intro first second config inputs
  have firstFits : WithinSizes Json.serde first :=
    ⟨⟨Json.serde.toVec first.intoEnvelope, by decide +kernel⟩, by decide, by decide⟩
  have secondFits : WithinSizes Json.serde second :=
    ⟨⟨Json.serde.toVec second.intoEnvelope, by decide +kernel⟩, by decide, by decide⟩
  have none : FreshMints [] := by decide
  have fresh : FreshMints inputs := by decide
  obtain ⟨_, _, ⟨_, memory⟩, ⟨_, sqlite⟩, ⟨_, postgres⟩, _, redis⟩ :=
    (enqueues_alike_iff Json.serde config [] [] [] [] none none none none 1
      first firstFits (by decide) rfl rfl rfl).mpr
      ⟨fun contested => contested.1 rfl, by decide +kernel, by decide, fun _ => by decide⟩
  refine (enqueues_alike_iff Json.serde config inputs inputs inputs inputs
    fresh fresh fresh fresh 2 second secondFits (by decide)
    (sqlite.trans memory.symm) (postgres.trans memory.symm)
    (redis.trans memory.symm)).mpr ⟨?_, by decide +kernel, by decide, fun _ => by decide⟩
  intro contested
  exact contested.1 (by decide)

/-- The id is live and the key is held by another live job: two brokers answer
with the id, two with the holder of the key. -/
theorem enqueues_differ_when_contested : let plain : NewJob :=
      ⟨⟨⟨1⟩⟩, ⟨"mail"⟩, "send", [], 3, 0, none, 0, none⟩
    let holder : NewJob := ⟨⟨⟨2⟩⟩, ⟨"mail"⟩, "send", [], 3, 0, some "key", 0, none⟩
    let contested : NewJob := ⟨⟨⟨1⟩⟩, ⟨"mail"⟩, "send", [], 3, 0, some "key", 0, none⟩
    let config : Config := ⟨30, ⟨none, none⟩, none⟩
    let inputs : List Input :=
      [⟨1, ⟨⟨0⟩⟩, .enqueue plain⟩, ⟨2, ⟨⟨0⟩⟩, .enqueue holder⟩, ⟨3, ⟨⟨0⟩⟩, .enqueue contested⟩]
    (Memory.machine config).replies inputs =
        [.ok (.jobId ⟨⟨1⟩⟩), .ok (.jobId ⟨⟨2⟩⟩), .ok (.jobId ⟨⟨1⟩⟩)] ∧
      (Redis.machine Json.serde config).replies inputs =
        [.ok (.jobId ⟨⟨1⟩⟩), .ok (.jobId ⟨⟨2⟩⟩), .ok (.jobId ⟨⟨1⟩⟩)] ∧
      (Sqlite.machine Json.serde config).replies inputs =
        [.ok (.jobId ⟨⟨1⟩⟩), .ok (.jobId ⟨⟨2⟩⟩), .ok (.jobId ⟨⟨2⟩⟩)] ∧
      (Postgres.machine Json.serde config).replies inputs =
        [.ok (.jobId ⟨⟨1⟩⟩), .ok (.jobId ⟨⟨2⟩⟩), .ok (.jobId ⟨⟨2⟩⟩)] := by
  decide +kernel

end Together

end Worklane
