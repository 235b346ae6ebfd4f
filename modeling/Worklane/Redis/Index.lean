import Worklane.Redis.Changes

/-!
# The live index

The job hashes, the lane sets, the priority index, the receipts and the unique
keys say the same thing about the live jobs, whatever scripts have run.
-/

namespace Worklane.Redis

open List

/-- When a job is due: at the end of its lease, or when it is available. -/
def JobHash.dueAt (hash : JobHash) : Option Nat :=
  match hash.receipt with
  | some _ => hash.leasedUntil
  | none => some hash.availableAt

/-- The due time as a score. -/
def JobHash.score (hash : JobHash) : Nat :=
  Lib.toDouble (hash.dueAt.getD 0)

/-- The entry of a job in its lane set. -/
def JobHash.entry (hash : JobHash) (id : Text) : Lib.ZEntry Text :=
  ⟨hash.score, hash.member id⟩

@[simp]
theorem fifoId_member (hash : JobHash) (id : Text) : fifoId (hash.member id) = id :=
  fifoId_fifoMember ..

def Store.receiptOf (store : Store) (id : Text) :
    Option ReservationReceipt :=
  (store.job id).bind JobHash.receipt

def Store.keyOf (store : Store) (id : Text) : Option String :=
  (store.job id).bind JobHash.uniqueKey

/-! ## Hashes and lane sets -/

/-- The lane sets hold the entries of the hashes and nothing else. -/
structure Filed (job : Text → Option JobHash) (lanes : Lane × Nat → Lib.ZSet Text) : Prop where
  members : ∀ {id hash}, job id = some hash → hash.entry id ∈ lanes hash.level
  hashes : ∀ {level entry}, entry ∈ lanes level →
    ∃ id hash, job id = some hash ∧ hash.level = level ∧ entry = hash.entry id

section Filed

variable {job : Text → Option JobHash}
variable {lanes : Lane × Nat → Lib.ZSet Text}
variable {id : Text} {hash : JobHash}

theorem Filed.hash_of_entry (filed : Filed job lanes) {level : Lane × Nat} {entry : Lib.ZEntry Text}
    (listed : entry ∈ lanes level)
    (found : job (fifoId entry.member) = some hash) :
    hash.level = level ∧ entry = hash.entry (fifoId entry.member) := by
  obtain ⟨owner, stored, present, place, shape⟩ := filed.hashes listed
  have same : fifoId entry.member = owner := by
    rw [shape]
    exact fifoId_member stored owner
  rw [same, present] at found
  cases found
  exact ⟨place, same ▸ shape⟩

theorem JobHash.member_ne {other : Text} {stored : JobHash}
    (different : other ≠ id) : stored.member other ≠ hash.member id :=
  fun collide => different (id_eq_of_fifoMember collide)

theorem Filed.put (filed : Filed job lanes) (kept : ∀ old, job id = some old →
      old.level = hash.level ∧ old.member id = hash.member id) :
    Filed (Function.update job id (some hash)) (Function.update lanes hash.level
        ((lanes hash.level).zadd hash.score (hash.member id))) := by
  constructor
  · intro other stored found
    apply Lib.ZSet.mem_update_zadd.mpr
    by_cases same : other = id
    · subst same
      rw [Function.update_self] at found
      cases found
      exact Or.inl ⟨rfl, rfl⟩
    · rw [Function.update_of_ne same] at found
      exact Or.inr ⟨filed.members found, fun _ => JobHash.member_ne same⟩
  · intro level entry listed
    rcases Lib.ZSet.mem_update_zadd.mp listed with
      ⟨place, shape⟩ | ⟨present, other⟩
    · exact ⟨id, hash, Function.update_self .., place.symm, shape⟩
    · obtain ⟨owner, stored, found, place, shape⟩ := filed.hashes present
      -- an entry of `id` that is still listed would be the one rewritten
      have different : owner ≠ id := by
        rintro rfl
        obtain ⟨sameLevel, sameMember⟩ := kept stored found
        apply other (place ▸ sameLevel)
        rw [shape]
        exact sameMember
      exact ⟨owner, stored, by rwa [Function.update_of_ne different], place, shape⟩

theorem Filed.remove (filed : Filed job lanes) (found : job id = some hash) :
    Filed (Function.update job id none) (Function.update lanes hash.level
        ((lanes hash.level).zrem (hash.member id))) := by
  constructor
  · intro other stored present
    by_cases same : other = id
    · subst same
      rw [Function.update_self] at present
      cases present
    · rw [Function.update_of_ne same] at present
      exact Lib.ZSet.mem_update_zrem.mpr ⟨filed.members present, fun _ => JobHash.member_ne same⟩
  · intro level entry listed
    obtain ⟨inside, other⟩ := Lib.ZSet.mem_update_zrem.mp listed
    obtain ⟨owner, stored, present, place, shape⟩ := filed.hashes inside
    have different : owner ≠ id := by
      rintro rfl
      rw [found] at present
      cases present
      apply other place.symm
      rw [shape]
      rfl
    exact ⟨owner, stored, by rwa [Function.update_of_ne different], place, shape⟩

end Filed

section Changes

variable {store store' : Store} {jobs : List JobArgs}
variable {burials : List Burial} {minted : List ReservationReceipt}

theorem Filed.place (filed : Filed store.job store.lanes)
    {id member : Text} {hash : JobHash} {level : Lane × Nat}
    (located : Located store id hash level member) :
    level = hash.level ∧ member = hash.member id := by
  rcases located.place with ⟨sameLevel, sameMember⟩ | ⟨entry, listed, rfl, rfl⟩
  · exact ⟨sameLevel, sameMember⟩
  · obtain ⟨place, shape⟩ := filed.hash_of_entry listed located.found
    exact ⟨place.symm, congrArg Lib.ZEntry.member shape⟩

theorem Filed.rewrite (filed : Filed store.job store.lanes) {id : Text}
    {hash hash' : JobHash} {score : Nat} (found : store.job id = some hash)
    (level : hash'.level = hash.level) (seq : hash'.seq = hash.seq)
    (due : score = hash'.score) :
    Filed (Function.update store.job id (some hash')) (Function.update store.lanes hash.level
        ((store.lanes hash.level).zadd score (hash.member id))) := by
  have member : hash.member id = hash'.member id := by
    unfold JobHash.member
    rw [seq]
  rw [due, member, ← level]
  refine filed.put fun old present => ?_
  rw [found] at present
  cases present
  exact ⟨level.symm, member⟩

theorem Change.filed (change : Change jobs store burials minted store')
    (filed : Filed store.job store.lanes) :
    Filed store'.job store'.lanes := by
  cases change with
  | @stored id hash _ absent _ idle =>
    have score : Lib.toDouble hash.availableAt = JobHash.score
        { hash with seq := Lib.toDouble (store.seq + 1) } := by
      simp [JobHash.score, JobHash.dueAt, idle.1]
    simp only [Store.storeJob, Store.putJob]
    rw [score]
    refine filed.put fun old present => ?_
    rw [absent] at present
    cases present
  | leased args located =>
    obtain ⟨level, rfl⟩ := filed.place located
    simp only [Store.lease, Store.putJob, level]
    exact filed.rewrite located.found rfl rfl (Lib.toDouble_idem args.leaseUntil).symm
  | removed found => exact filed.remove found
  | @rescheduled _ id hash _ _ found _ =>
    exact @Filed.rewrite _ filed id hash _ _ found rfl rfl rfl
  | extended leaseUntil found held =>
    refine filed.rewrite found rfl rfl ?_
    simp [JobHash.score, JobHash.dueAt, held]
  | buried error deadAt located =>
    obtain ⟨level, rfl⟩ := filed.place located
    rw [level]
    exact filed.remove located.found
  | _ => exact filed

end Changes

/-! ## The invariant -/

structure Indexed (store : Store) : Prop where
  filed : Filed store.job store.lanes
  listed : ∀ {lane priority entry}, entry ∈ store.lanes (lane, priority) →
    ⟨priority, priority⟩ ∈ store.prios lane
  scores : ∀ {lane entry}, entry ∈ store.prios lane → entry.score = entry.member
  receipts : Lib.ExactOf store.rcpt store.receiptOf
  keys : Lib.ExactOf store.unique store.keyOf
  leases : Lib.Every store.job fun _ hash =>
    hash.receipt.isSome = hash.leasedUntil.isSome

theorem indexed_empty : Indexed Store.empty where
  filed := ⟨fun found => (nomatch found), fun listed => absurd listed (Lib.ZSet.not_mem_empty _)⟩
  listed := fun listed => absurd listed (Lib.ZSet.not_mem_empty _)
  scores := fun listed => absurd listed (Lib.ZSet.not_mem_empty _)
  receipts := by
    intro receipt id
    exact ⟨fun found => (nomatch found), fun held => (nomatch held)⟩
  keys := by
    intro key id
    exact ⟨fun found => (nomatch found), fun held => (nomatch held)⟩
  leases := fun _ _ found => (nomatch found)

variable {store : Store} {store' : Store}

theorem Indexed.frame (indexed : Indexed store)
    (job : store'.job = store.job) (lanes : store'.lanes = store.lanes)
    (prios : store'.prios = store.prios)
    (rcpt : store'.rcpt = store.rcpt)
    (unique : store'.unique = store.unique) : Indexed store' := by
  obtain ⟨filed, listed, scores, receipts, keys, leases⟩ := indexed
  have receiptOf : store'.receiptOf = store.receiptOf := by
    unfold Store.receiptOf
    rw [job]
  have keyOf : store'.keyOf = store.keyOf := by
    unfold Store.keyOf
    rw [job]
  constructor
  · rwa [job, lanes]
  · rwa [lanes, prios]
  · rwa [prios]
  · rwa [rcpt, receiptOf]
  · rwa [unique, keyOf]
  · rwa [job]

theorem bind_update {Value : Type} (job : Text → Option JobHash) (id : Text) (hash : Option JobHash)
    (field : JobHash → Option Value) :
    (fun other => (Function.update job id hash other).bind field) =
      Function.update (fun other => (job other).bind field) id (hash.bind field) := by
  funext other
  by_cases same : other = id
  · subst same
    simp
  · simp [same]

theorem listed_put (indexed : Indexed store)
    {prios : Lane → Lib.ZSet Nat} {lane : Lane} {priority : Nat}
    (grows : ∀ {other entry}, entry ∈ store.prios other → entry ∈ prios other)
    (own : ⟨priority, priority⟩ ∈ prios lane)
    {set : Lib.ZSet Text} :
    ∀ {other level entry}, entry ∈ Function.update store.lanes (lane, priority) set (other, level) →
      ⟨level, level⟩ ∈ prios other := by
  intro other level entry inside
  by_cases place : (other, level) = (lane, priority)
  · cases place
    exact own
  · rw [Function.update_of_ne place] at inside
    exact grows (indexed.listed inside)

theorem Indexed.rewrite {store : Store} (indexed : Indexed store)
    {id : Text} {hash hash' : JobHash} {score : Nat}
    {rcpt : ReservationReceipt → Option Text}
    (filed : Filed (store.putJob id hash' hash.level (hash.member id) score).job
      (store.putJob id hash' hash.level (hash.member id) score).lanes)
    (found : store.job id = some hash)
    (key : hash'.uniqueKey = hash.uniqueKey)
    (even : hash'.receipt.isSome = hash'.leasedUntil.isSome)
    (receipts : Lib.ExactOf rcpt (Function.update store.receiptOf id hash'.receipt)) :
    Indexed { store.putJob id hash' hash.level (hash.member id) score with
      rcpt := rcpt } := by
  constructor
  · exact filed
  · exact listed_put indexed (fun inside => inside) (indexed.listed (indexed.filed.members found))
  · exact indexed.scores
  · change Lib.ExactOf rcpt fun other =>
    (Function.update store.job id (some hash') other).bind JobHash.receipt
    rw [bind_update]
    exact receipts
  · change Lib.ExactOf store.unique fun other =>
    (Function.update store.job id (some hash') other).bind JobHash.uniqueKey
    rw [bind_update]
    apply indexed.keys.keep
    rw [Store.keyOf, found]
    exact key.symm
  · exact indexed.leases.put even

theorem Indexed.storeJob {store : Store} (indexed : Indexed store) {id : Text} {hash : JobHash}
    (filed : Filed (store.storeJob id hash).job (store.storeJob id hash).lanes)
    (absent : store.job id = none)
    (free : hash.uniqueKey.bind store.unique = none)
    (idle : hash.receipt = none ∧ hash.leasedUntil = none) :
    Indexed (store.storeJob id hash) := by
  obtain ⟨noReceipt, noLease⟩ := idle
  have missing : ∀ {Value : Type} (field : JobHash → Option Value),
      (store.job id).bind field = none := by
    intro Value field
    rw [absent]
    rfl
  constructor
  · exact filed
  · refine listed_put indexed ?_ (Lib.ZSet.mem_update_zadd.mpr (Or.inl ⟨rfl, rfl⟩))
    intro lane entry inside
    apply Lib.ZSet.mem_update_zadd.mpr
    by_cases own : lane = hash.lane ∧ entry.member = hash.priority
    · have scored := indexed.scores inside
      obtain ⟨score, member⟩ := entry
      obtain ⟨place, rfl⟩ := own
      exact Or.inl ⟨place, by rw [show score = _ from scored]⟩
    · exact Or.inr ⟨inside, fun place member => own ⟨place, member⟩⟩
  · intro lane entry inside
    rcases Lib.ZSet.mem_update_zadd.mp inside with ⟨_, rfl⟩ | ⟨old, _⟩
    · rfl
    · exact indexed.scores old
  · change Lib.ExactOf store.rcpt fun other =>
    (Function.update store.job id (some _) other).bind JobHash.receipt
    rw [bind_update]
    apply indexed.receipts.keep
    exact (missing JobHash.receipt).trans noReceipt.symm
  · change Lib.ExactOf (Lib.assign store.unique hash.uniqueKey (some id)) fun other =>
        (Function.update store.job id (some _) other).bind JobHash.uniqueKey
    rw [bind_update]
    exact indexed.keys.claim (missing JobHash.uniqueKey) free
  · exact indexed.leases.put (by simp [noReceipt, noLease])

theorem Indexed.removeJob (indexed : Indexed store)
    {id : Text} {hash : JobHash} (found : store.job id = some hash) :
    Indexed (store.removeJob id hash hash.level (hash.member id)) := by
  constructor
  · exact indexed.filed.remove found
  · intro lane priority entry inside
    exact indexed.listed (Lib.ZSet.mem_update_zrem.mp inside).1
  · exact indexed.scores
  · change Lib.ExactOf (Lib.assign store.rcpt hash.receipt none) fun other =>
        (Function.update store.job id none other).bind JobHash.receipt
    rw [bind_update]
    have own : store.receiptOf id = hash.receipt := by
      rw [Store.receiptOf, found]
      rfl
    rw [← own]
    exact indexed.receipts.free
  · change Lib.ExactOf (Lib.assign store.unique hash.uniqueKey none) fun other =>
        (Function.update store.job id none other).bind JobHash.uniqueKey
    rw [bind_update]
    have own : store.keyOf id = hash.uniqueKey := by
      rw [Store.keyOf, found]
      rfl
    rw [← own]
    exact indexed.keys.free
  · exact indexed.leases.erase id

theorem Indexed.freed (indexed : Indexed store) (id : Text) :
    Lib.ExactOf (Lib.assign store.rcpt (store.receiptOf id) none)
      (Function.update store.receiptOf id none) :=
  indexed.receipts.free

theorem Indexed.lease {store : Store} (indexed : Indexed store)
    {id member : Text} {hash : JobHash} {args : ReserveArgs}
    {priority : Nat}
    (filed : Filed (store.lease args priority id member hash).job
      (store.lease args priority id member hash).lanes)
    (located : Located store id hash (args.lane, priority) member)
    (fresh : store.rcpt args.receipt = none) :
    Indexed (store.lease args priority id member hash) := by
  obtain ⟨level, rfl⟩ := indexed.filed.place located
  have own : store.receiptOf id = hash.receipt := by
    rw [Store.receiptOf, located.found]
    rfl
  have unheld : (some args.receipt).bind (Lib.assign store.rcpt hash.receipt none) = none := by
    change Lib.assign store.rcpt hash.receipt none args.receipt = none
    cases hash.receipt with
    | none => exact fresh
    | some old =>
      by_cases same : args.receipt = old
      · rw [Lib.assign, same, Function.update_self]
      · rw [Lib.assign, Function.update_of_ne same, fresh]
  have freed := indexed.freed id
  rw [own] at freed
  have claimed := freed.claim (Function.update_self ..) unheld
  rw [Function.update_idem] at claimed
  simp only [Store.lease, level] at filed ⊢
  exact indexed.rewrite filed located.found rfl rfl claimed

variable {jobs : List JobArgs}

variable {burials : List Burial} {minted : List ReservationReceipt}

/-- Every change keeps the index, provided the receipt it hands out is in
nobody's hands. -/
theorem Change.indexed (change : Change jobs store burials minted store') (indexed : Indexed store)
    (fresh : ∀ receipt ∈ minted, store.rcpt receipt = none) :
    Indexed store' := by
  have filed := change.filed indexed.filed
  cases change with
  | stored _ absent free idle =>
    exact indexed.storeJob filed absent free idle
  | leased args located =>
    exact indexed.lease filed located (fresh _ (mem_singleton_self _))
  | removed found => exact indexed.removeJob found
  | @rescheduled receipt id hash attempts availableAt found held =>
    have own : store.receiptOf id = some receipt := by
      rw [Store.receiptOf, found]
      exact held
    have freed := indexed.freed id
    rw [own] at freed
    exact @Indexed.rewrite _ indexed id hash _ _ _ filed found rfl rfl freed
  | @extended receipt id hash leaseUntil found held =>
    have own : store.receiptOf id = hash.receipt := by
      rw [Store.receiptOf, found]
      rfl
    refine indexed.rewrite filed found rfl ?_ (indexed.receipts.keep own)
    change hash.receipt.isSome = true
    rw [held]
    rfl
  | @buried id member hash lane priority error deadAt located =>
    obtain ⟨level, rfl⟩ := indexed.filed.place located
    have gone := indexed.removeJob located.found
    rw [← level] at gone
    exact gone.frame rfl rfl rfl rfl rfl
  | dropped splits => exact indexed.frame rfl rfl rfl rfl rfl
  | unburied found => exact indexed.frame rfl rfl rfl rfl rfl
  | @levelDropped lane priority vacant =>
    refine ⟨indexed.filed, ?_, ?_, indexed.receipts, indexed.keys, indexed.leases⟩
    · intro other level entry inside
      refine Lib.ZSet.mem_update_zrem.mpr ⟨indexed.listed inside, ?_⟩
      rintro rfl (same : level = priority)
      subst same
      have nothing := eq_nil_of_length_eq_zero vacant
      rw [show entry ∈ store.lanes (other, level) ↔
        entry ∈ (store.lanes (other, level)).entries from Iff.rfl,
        nothing] at inside
      cases inside
    · intro other entry inside
      exact indexed.scores (Lib.ZSet.mem_update_zrem.mp inside).1
  | scheduled schedule => exact indexed.frame rfl rfl rfl rfl rfl

theorem Change.receipts_known (change : Change jobs store burials minted store')
    {receipt : ReservationReceipt} (unused : store.rcpt receipt = none)
    (other : receipt ∉ minted) : store'.rcpt receipt = none := by
  have erased : ∀ key, Lib.assign store.rcpt key none receipt = none := by
    intro key
    cases key with
    | none => exact unused
    | some old =>
      by_cases same : receipt = old
      · rw [Lib.assign, same, Function.update_self]
      · rw [Lib.assign, Function.update_of_ne same, unused]
  cases change with
  | leased args located =>
    have different : receipt ≠ args.receipt := by
      rintro rfl
      exact other (mem_singleton_self _)
    simp only [Store.lease]
    rw [Function.update_of_ne different]
    exact erased _
  | removed found => exact erased _
  | @rescheduled held _ _ _ _ _ _ => exact erased (some held)
  | buried error deadAt located => exact erased _
  | _ => exact unused

theorem Trail.receipts_known (trail : Trail jobs store burials minted store')
    {receipt : ReservationReceipt} (unused : store.rcpt receipt = none)
    (other : receipt ∉ minted) : store'.rcpt receipt = none := by
  induction trail with
  | refl store => exact unused
  | step change trail ih =>
    rw [mem_append, not_or] at other
    exact ih (change.receipts_known unused other.1) other.2

theorem Trail.indexed (trail : Trail jobs store burials minted store')
    (indexed : Indexed store) (distinct : minted.Nodup)
    (fresh : ∀ receipt ∈ minted, store.rcpt receipt = none) :
    Indexed store' := by
  induction trail with
  | refl store => exact indexed
  | step change trail ih =>
    obtain ⟨_, later, apart⟩ := nodup_append.mp distinct
    refine ih (change.indexed indexed fun receipt inside =>
      fresh receipt (mem_append_left _ inside)) later ?_
    intro receipt inside
    refine change.receipts_known (fresh receipt (mem_append_right _ inside)) ?_
    intro twice
    exact apart receipt twice receipt inside rfl

/-- The invariant of a run: the index, and every receipt in use was brought
by a script that has run. -/
structure Running (past : List Script) (store : Store) : Prop where
  indexed : Indexed store
  known : ∀ receipt, receipt ∉ receipts past → store.rcpt receipt = none

theorem running_exec (past : List Script) (script : Script)
    (fresh : FreshReceipts (past ++ [script]))
    (running : Running past store) :
    Running (past ++ [script]) (store.exec script).1 := by
  obtain ⟨minted, allowed, trail⟩ := exec_trail store script
  rw [FreshReceipts, receipts_concat] at fresh
  obtain ⟨_, distinct, apart⟩ := nodup_append.mp fresh
  constructor
  · refine trail.indexed running.indexed (distinct.sublist allowed) ?_
    intro receipt inside
    refine running.known receipt fun old => ?_
    exact apart receipt old receipt (allowed.subset inside) rfl
  · intro receipt unseen
    rw [receipts_concat, mem_append, not_or] at unseen
    exact trail.receipts_known (running.known receipt unseen.1)
      fun inside => unseen.2 (allowed.subset inside)

theorem running (scripts : List Script) (fresh : FreshReceipts scripts) :
    Running scripts (server.run scripts) :=
  Lib.Machine.run_invariant server freshReceipts_past ⟨indexed_empty, fun _ _ => rfl⟩
    (fun past script allowed held =>
      running_exec past script allowed held) scripts fresh

/-! ## Counting and finding jobs -/

/-- The ids in the lane sets of the listed levels. -/
def Store.laneIds (store : Store) (lane : Lane) : List Text :=
  (store.prios lane).entries.flatMap fun level =>
    (store.lanes (lane, level.member)).entries.map fun entry =>
      fifoId entry.member

theorem length_laneIds (store : Store) (lane : Lane) :
    (store.laneIds lane).length = store.pendingCount lane := by
  simp [Store.laneIds, Store.pendingCount, length_flatMap, Lib.ZSet.zcard]

section Consequences

variable {store : Store} (indexed : Indexed store)

include indexed in
theorem Indexed.job_of_entry {level : Lane × Nat}
    {entry : Lib.ZEntry Text} (listed : entry ∈ store.lanes level) :
    ∃ hash, store.job (fifoId entry.member) = some hash ∧
      hash.level = level ∧ entry = hash.entry (fifoId entry.member) := by
  obtain ⟨id, hash, found, place, shape⟩ := indexed.filed.hashes listed
  have same : fifoId entry.member = id := by
    rw [shape]
    exact fifoId_member hash id
  exact ⟨hash, same ▸ found, place, same ▸ shape⟩

include indexed in
theorem Indexed.mem_laneIds {lane : Lane} {id : Text} : id ∈ store.laneIds lane ↔
      ∃ hash, store.job id = some hash ∧ hash.lane = lane := by
  constructor
  · intro inside
    obtain ⟨level, _, inside⟩ := mem_flatMap.mp inside
    obtain ⟨entry, listed, rfl⟩ := mem_map.mp inside
    obtain ⟨hash, found, place, _⟩ := indexed.job_of_entry listed
    exact ⟨hash, found, congrArg Prod.fst place⟩
  · rintro ⟨hash, found, rfl⟩
    have listed := indexed.filed.members found
    exact mem_flatMap.mpr ⟨_, indexed.listed listed, mem_map.mpr ⟨_, listed, fifoId_member hash id⟩⟩

include indexed in
theorem Indexed.nodup_laneIds (lane : Lane) : (store.laneIds lane).Nodup := by
  apply nodup_flatMap.mpr
  constructor
  · intro level _
    have entries := List.Nodup.of_map _ (store.lanes (lane, level.member)).distinct
    refine List.Nodup.map_on ?_ entries
    intro first firstListed second secondListed same
    obtain ⟨hash, found, _, shape⟩ := indexed.job_of_entry firstListed
    obtain ⟨hash', found', _, shape'⟩ := indexed.job_of_entry secondListed
    rw [same] at found shape
    rw [found] at found'
    cases found'
    exact shape.trans shape'.symm
  · have levels := pairwise_map.mp (store.prios lane).distinct
    refine levels.imp ?_
    intro first second different id inFirst inSecond
    obtain ⟨entry, listed, rfl⟩ := mem_map.mp inFirst
    obtain ⟨entry', listed', same⟩ := mem_map.mp inSecond
    obtain ⟨hash, found, place, _⟩ := indexed.job_of_entry listed
    obtain ⟨hash', found', place', _⟩ := indexed.job_of_entry listed'
    rw [same, found] at found'
    cases found'
    exact different (congrArg Prod.snd (place.symm.trans place'))

include indexed in
theorem Indexed.mem_levels {lane : Lane} {priority : Nat} {entry : Lib.ZEntry Text}
    (listed : entry ∈ store.lanes (lane, priority)) :
    priority ∈ store.levels lane :=
  mem_reverse.mpr (mem_map.mpr ⟨_, indexed.listed listed, rfl⟩)

end Consequences

variable {args : ReserveArgs}

theorem reserveLevel_unbounded (filed : Filed store.job store.lanes) (unbounded : args.max = 0)
    (priority left : Nat) :
    (((store.lanes (args.lane, priority)).firstUpTo (Lib.toDouble args.now) = none) ∧
      store.reserveLevel args priority (left + 1) = (store, .drained (left + 1), [])) ∨
    (((store.lanes (args.lane, priority)).firstUpTo (Lib.toDouble args.now) ≠ none) ∧
      ∃ envelope attempts, (store.reserveLevel args priority (left + 1)).2.1 =
          .handed envelope attempts) := by
  rw [Store.reserveLevel]
  cases first : (store.lanes (args.lane, priority)).firstUpTo (Lib.toDouble args.now) with
  | none => exact Or.inl ⟨rfl, rfl⟩
  | some entry =>
    obtain ⟨id, hash, found, _, shape⟩ := filed.hashes (Lib.ZSet.firstUpTo_eq_some first).1
    have same : fifoId entry.member = id := by
      rw [shape]
      exact fifoId_member hash id
    have below : ¬ (0 < args.max ∧ args.max < hash.deliveries + 1) := by
      omega
    refine Or.inr ⟨Option.some_ne_none _, hash.envelope, hash.attempts, ?_⟩
    simp only [same, found, if_neg below]

theorem reserveLevels_unbounded (unbounded : args.max = 0) (left : Nat) (levels : List Nat)
    (filed : Filed store.job store.lanes) :
    (store.reserveLevels args levels (left + 1)).2.1 = none ↔ ∀ priority ∈ levels,
        (store.lanes (args.lane, priority)).firstUpTo (Lib.toDouble args.now) = none := by
  induction levels generalizing store with
  | nil => simp [Store.reserveLevels]
  | cons priority rest ih =>
    rw [Store.reserveLevels, forall_mem_cons]
    by_cases vacant : (store.lanes (args.lane, priority)).zcard = 0
    · have nothing := eq_nil_of_length_eq_zero vacant
      have unseen : (store.lanes (args.lane, priority)).firstUpTo
          (Lib.toDouble args.now) = none := by
        rw [Lib.ZSet.firstUpTo, nothing]
        rfl
      rw [if_pos vacant]
      have dropped := @ih
        { store with
          prios := Function.update store.prios args.lane
            ((store.prios args.lane).zrem priority) } filed
      exact dropped.trans (and_iff_right unseen).symm
    · rw [if_neg vacant]
      rcases reserveLevel_unbounded filed unbounded priority left with
        ⟨unseen, ended⟩ | ⟨seen, envelope, attempts, ended⟩
      · rw [ended]
        exact (ih filed).trans (and_iff_right unseen).symm
      · rcases whole : store.reserveLevel args priority (left + 1) with
          ⟨next, outcome, buried⟩
        rw [whole] at ended
        subst ended
        simp [seen]

/-- Without a delivery bound `RESERVE` comes back empty exactly when no job of
the lane is due. -/
theorem Indexed.reserve_eq_none (indexed : Indexed store) (unbounded : args.max = 0) :
    (store.reserve args).2.1 = none ↔ ∀ id hash, store.job id = some hash → hash.lane = args.lane →
        ¬ hash.score ≤ Lib.toDouble args.now := by
  refine (reserveLevels_unbounded unbounded 127 (store.levels args.lane) indexed.filed).trans ?_
  constructor
  · intro unseen id hash found lane due
    have listed := indexed.filed.members found
    rw [JobHash.level, lane] at listed
    exact Lib.ZSet.firstUpTo_eq_none.mp (unseen _ (indexed.mem_levels listed)) _ listed due
  · intro waiting priority _
    apply Lib.ZSet.firstUpTo_eq_none.mpr
    intro entry listed
    obtain ⟨hash, found, place, shape⟩ := indexed.job_of_entry listed
    rw [shape]
    exact waiting _ hash found (congrArg Prod.fst place)

/-! ## Every sequence of scripts -/

/-- The key families of the live jobs agree. -/
structure Consistent (store : Store) : Prop where
  /-- A job has one member over all lane sets: the one its hash names, in the
  set of its lane and priority, with its due time for a score. -/
  member : ∀ id hash, store.job id = some hash → ∀ level entry,
    (entry ∈ store.lanes level ∧ fifoId entry.member = id) ↔ (level = (hash.lane, hash.priority) ∧
        entry = ⟨hash.score, fifoMember hash.seq id⟩)
  due : ∀ id hash, store.job id = some hash → hash.receipt.isSome = hash.leasedUntil.isSome
  hash : ∀ level entry, entry ∈ store.lanes level →
    ∃ hash, store.job (fifoId entry.member) = some hash ∧ level = (hash.lane, hash.priority)
  listed : ∀ lane priority, (store.lanes (lane, priority)).zcard ≠ 0 →
    ∃ entry ∈ store.prios lane, entry.member = priority
  receipt : ∀ receipt id, store.rcpt receipt = some id ↔
    ∃ hash, store.job id = some hash ∧ hash.receipt = some receipt
  key : ∀ key id, store.unique key = some id ↔
    ∃ hash, store.job id = some hash ∧ hash.uniqueKey = some key
  /-- `PENDING_COUNT` counts the live jobs of the lane. -/
  pending : ∀ lane, ∃ ids : List Text, ids.Nodup ∧ (∀ id, id ∈ ids ↔
      ∃ hash, store.job id = some hash ∧ hash.lane = lane) ∧
    store.pendingCount lane = ids.length
  /-- Without a delivery bound `RESERVE` misses no job that is due. -/
  reserve : ∀ args : ReserveArgs, args.max = 0 → ((store.reserve args).2.1 = none ↔
      ∀ id hash, store.job id = some hash → hash.lane = args.lane →
        ¬ hash.score ≤ Lib.toDouble args.now)

theorem Indexed.one_member (indexed : Indexed store)
    {id : Text} {hash : JobHash} (found : store.job id = some hash)
    (level : Lane × Nat) (entry : Lib.ZEntry Text) :
    (entry ∈ store.lanes level ∧ fifoId entry.member = id) ↔
      (level = hash.level ∧ entry = hash.entry id) := by
  constructor
  · rintro ⟨listed, rfl⟩
    obtain ⟨place, shape⟩ := indexed.filed.hash_of_entry listed found
    exact ⟨place.symm, shape⟩
  · rintro ⟨rfl, rfl⟩
    exact ⟨indexed.filed.members found, fifoId_member hash id⟩

theorem Indexed.consistent (indexed : Indexed store) : Consistent store where
  member := fun _ _ found => indexed.one_member found
  due := indexed.leases
  hash := by
    intro level entry listed
    obtain ⟨hash, found, place, _⟩ := indexed.job_of_entry listed
    exact ⟨hash, found, place.symm⟩
  listed := by
    intro lane priority filled
    obtain ⟨entry, inside⟩ := exists_mem_of_length_pos (Nat.pos_of_ne_zero filled)
    exact ⟨_, indexed.listed inside, rfl⟩
  receipt := by
    intro receipt id
    exact (indexed.receipts receipt id).trans Option.bind_eq_some_iff
  key := by
    intro key id
    exact (indexed.keys key id).trans Option.bind_eq_some_iff
  pending := fun lane => ⟨store.laneIds lane, indexed.nodup_laneIds lane,
    fun _ => indexed.mem_laneIds, (length_laneIds store lane).symm⟩
  reserve := fun _ unbounded => indexed.reserve_eq_none unbounded

/-- Whatever scripts have run, in whatever order and at whatever clock
readings, the live key families agree. -/
theorem scripts_keep_index (scripts : List Script) (fresh : FreshReceipts scripts) :
    Consistent (server.run scripts) :=
  (running scripts fresh).indexed.consistent

theorem scripts_keep_index_two_jobs : let lane : Lane := ⟨"default"⟩
    let receipt : ReservationReceipt := ⟨⟨7⟩⟩
    let scripts : List Script :=
      [.enqueue ⟨⟨⟨1⟩⟩, lane, 5, [], "a", 3⟩, .enqueue ⟨⟨⟨2⟩⟩, lane, 5, [], "", 0⟩,
        .reserve ⟨lane, 10, 40, receipt, 0, ⟨0, 0, false⟩⟩,
        .retry receipt 20 (2 ^ 60 + 1)]
    FreshReceipts scripts ∧ Consistent (server.run scripts) :=
  ⟨by decide, scripts_keep_index _ (by decide)⟩

end Worklane.Redis
