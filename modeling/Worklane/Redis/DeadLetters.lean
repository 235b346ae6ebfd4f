import Worklane.Core.Json
import Worklane.Lib.Select
import Worklane.Redis.Broker
import Worklane.Redis.Index

/-!
# The dead-letter store in two halves

`ns:dead:{lane}` orders the dead records and `ns:dead:job:{id}` holds them.
The set member carries the sequence number of the job and the hash only its
id, so the halves stay in step as long as no job is dead-lettered while its id
still has a record.
-/

namespace Worklane.Redis

open List

/-- The entry of a record in the dead set of its lane. -/
def DeadHash.entry (dead : DeadHash) : Lib.ZEntry Text :=
  ⟨Lib.toDouble dead.deadAt, dead.member⟩

/-- Sets and hashes name the same records. -/
structure Lockstep (dead : Lane → Lib.ZSet Text) (deadJob : Text → Option DeadHash) : Prop where
  members : ∀ {id record}, deadJob id = some record →
    record.entry ∈ dead record.lane ∧ fifoId record.member = id
  hashes : ∀ {lane entry}, entry ∈ dead lane →
    ∃ record, deadJob (fifoId entry.member) = some record ∧
      record.lane = lane ∧ entry = record.entry

section Lockstep

variable {dead : Lane → Lib.ZSet Text}
variable {deadJob : Text → Option DeadHash}
variable {id : Text} {record : DeadHash}

/-- A dead-lettering keeps the halves in step exactly when the id has no record
at another place. -/
theorem Lockstep.bury_iff (lockstep : Lockstep dead deadJob) (own : fifoId record.member = id) :
    Lockstep (Function.update dead record.lane
        ((dead record.lane).zadd record.entry.score record.member))
      (Function.update deadJob id (some record)) ↔
    ∀ old, deadJob id = some old → old.lane = record.lane ∧ old.member = record.member := by
  constructor
  · intro after old found
    obtain ⟨listed, same⟩ := lockstep.members found
    by_contra elsewhere
    -- The older entry stays, with the new record behind it.
    obtain ⟨stored, present, place, shape⟩ := after.hashes (Lib.ZSet.mem_update_zadd.mpr
      (Or.inr ⟨listed, fun lane member => elsewhere ⟨lane, member⟩⟩))
    rw [show fifoId old.entry.member = id from same, Function.update_self] at present
    cases present
    exact elsewhere ⟨place.symm, congrArg Lib.ZEntry.member shape⟩
  · intro alike
    constructor
    · intro other stored found
      by_cases same : other = id
      · subst same
        rw [Function.update_self] at found
        cases found
        exact ⟨Lib.ZSet.mem_update_zadd.mpr (Or.inl ⟨rfl, rfl⟩), own⟩
      · rw [Function.update_of_ne same] at found
        obtain ⟨listed, otherId⟩ := lockstep.members found
        refine ⟨Lib.ZSet.mem_update_zadd.mpr (Or.inr ⟨listed, ?_⟩), otherId⟩
        intro _ collide
        apply same
        rw [← otherId, ← own]
        exact congrArg fifoId collide
    · intro lane entry inside
      rcases Lib.ZSet.mem_update_zadd.mp inside with
        ⟨rfl, rfl⟩ | ⟨listed, apart⟩
      · refine ⟨record, ?_, rfl, rfl⟩
        rw [show fifoId (Lib.ZEntry.mk record.entry.score
          record.member).member = id from own, Function.update_self]
      · obtain ⟨stored, found, place, shape⟩ := lockstep.hashes listed
        have different : fifoId entry.member ≠ id := by
          intro same
          rw [same] at found
          obtain ⟨sameLane, sameMember⟩ := alike stored found
          rw [shape] at apart
          exact apart (place.symm.trans sameLane) sameMember
        exact ⟨stored, by rwa [Function.update_of_ne different], place, shape⟩

theorem Lockstep.entry_eq (lockstep : Lockstep dead deadJob)
    {lane other : Lane} {entry second : Lib.ZEntry Text}
    (listed : entry ∈ dead lane) (otherListed : second ∈ dead other)
    (same : fifoId entry.member = fifoId second.member) :
    lane = other ∧ entry = second := by
  obtain ⟨record, found, place, shape⟩ := lockstep.hashes listed
  obtain ⟨record', found', place', shape'⟩ := lockstep.hashes otherListed
  rw [same, found'] at found
  cases found
  exact ⟨place.symm.trans place', shape.trans shape'.symm⟩

theorem Lockstep.unbury (lockstep : Lockstep dead deadJob) (found : deadJob id = some record) :
    Lockstep (Function.update dead record.lane ((dead record.lane).zrem record.member))
      (Function.update deadJob id none) := by
  obtain ⟨ownListed, own⟩ := lockstep.members found
  constructor
  · intro other stored present
    by_cases same : other = id
    · subst same
      rw [Function.update_self] at present
      cases present
    · rw [Function.update_of_ne same] at present
      obtain ⟨listed, otherId⟩ := lockstep.members present
      refine ⟨Lib.ZSet.mem_update_zrem.mpr ⟨listed, ?_⟩, otherId⟩
      intro _ collide
      apply same
      rw [← otherId, ← own]
      exact congrArg fifoId collide
  · intro lane entry inside
    obtain ⟨listed, other⟩ := Lib.ZSet.mem_update_zrem.mp inside
    obtain ⟨stored, present, place, shape⟩ := lockstep.hashes listed
    have different : fifoId entry.member ≠ id := by
      intro same
      obtain ⟨sameLane, sameEntry⟩ := lockstep.entry_eq listed ownListed (same.trans own.symm)
      exact other sameLane (congrArg Lib.ZEntry.member sameEntry)
    exact ⟨stored, by rwa [Function.update_of_ne different], place, shape⟩

theorem Lockstep.gone_iff (lockstep : Lockstep dead deadJob)
    {lane : Lane} {gone : List (Lib.ZEntry Text)}
    (inside : ∀ entry ∈ gone, entry ∈ dead lane)
    (found : deadJob id = some record) :
    (id ∈ gone.map fun entry => fifoId entry.member) ↔
      (record.lane = lane ∧ record.entry ∈ gone) := by
  obtain ⟨listed, own⟩ := lockstep.members found
  rw [mem_map]
  constructor
  · rintro ⟨entry, going, same⟩
    obtain ⟨place, shape⟩ := lockstep.entry_eq listed (inside entry going) (own.trans same.symm)
    exact ⟨place, shape ▸ going⟩
  · rintro ⟨_, going⟩
    exact ⟨record.entry, going, own⟩

theorem Lockstep.drop (lockstep : Lockstep dead deadJob) {lane : Lane}
    {gone : List (Lib.ZEntry Text)} {kept : Lib.ZSet Text}
    (splits : Splits (dead lane) gone kept) :
    Lockstep (Function.update dead lane kept)
      (del deadJob (gone.map fun entry => fifoId entry.member)) := by
  have parts : ∀ entry, entry ∈ dead lane ↔ entry ∈ gone ∨ entry ∈ kept :=
    fun entry => splits.mem_iff.trans mem_append
  have goneInside : ∀ entry ∈ gone, entry ∈ dead lane :=
    fun entry going => (parts entry).mpr (Or.inl going)
  have apart : ∀ entry ∈ gone, entry ∉ kept := by
    intro entry going staying
    have distinct := splits.nodup_iff.mp (List.Nodup.of_map _ (dead lane).distinct)
    exact (nodup_append.mp distinct).2.2 entry going entry staying rfl
  constructor
  · intro other stored present
    unfold del at present
    split at present
    · cases present
    · next stays =>
      obtain ⟨listed, own⟩ := lockstep.members present
      refine ⟨?_, own⟩
      by_cases place : stored.lane = lane
      · rw [place, Function.update_self]
        have remains := mt (lockstep.gone_iff goneInside present).mpr stays
        exact ((parts _).mp (place ▸ listed)).resolve_left fun going => remains ⟨place, going⟩
      · rwa [Function.update_of_ne place]
  · intro other entry inside
    have listed : entry ∈ dead other ∧ (other = lane → entry ∈ kept) := by
      by_cases place : other = lane
      · subst place
        rw [Function.update_self] at inside
        exact ⟨(parts entry).mpr (Or.inr inside), fun _ => inside⟩
      · rw [Function.update_of_ne place] at inside
        exact ⟨inside, fun same => absurd same place⟩
    obtain ⟨stored, present, place, shape⟩ := lockstep.hashes listed.1
    refine ⟨stored, ?_, place, shape⟩
    have stays := mt (lockstep.gone_iff goneInside present).mp
      fun going => apart entry (shape ▸ going.2) (listed.2 (place.symm.trans going.1))
    rw [del, if_neg stays, present]

end Lockstep

/-! ## The invariant -/

/-- Lockstep, with a record for every hash in the log of the dead-letterings
performed. -/
structure Interred (serde : SerdeJson) (log : List Burial) (store : Store) : Prop where
  filed : Filed store.job store.lanes
  lockstep : Lockstep store.dead store.deadJob
  logged : Lib.Every store.deadJob fun id dead => (id, dead) ∈ log
  live : Lib.Every store.job fun _ hash =>
    Encodes serde hash.envelope hash.lane
  dead : Lib.Every store.deadJob fun _ dead =>
    Encodes serde dead.envelope dead.lane

theorem interred_empty (serde : SerdeJson) : Interred serde [] Store.empty where
  filed := indexed_empty.filed
  lockstep := ⟨fun found => (nomatch found), fun listed => absurd listed (Lib.ZSet.not_mem_empty _)⟩
  logged := fun _ _ found => (nomatch found)
  live := fun _ _ found => (nomatch found)
  dead := fun _ _ found => (nomatch found)

section Changes

variable {serde : SerdeJson} {log : List Burial} {jobs : List JobArgs}
variable {store store' : Store} {burials : List Burial}
variable {minted : List ReservationReceipt}

theorem every_del {Value : Type} {table : Text → Option Value}
    {property : Text → Value → Prop} (every : Lib.Every table property)
    (ids : List Text) : Lib.Every (del table ids) property := by
  intro id value found
  unfold del at found
  split at found
  · cases found
  · exact every id value found

theorem Change.live_encoded (change : Change jobs store burials minted store')
    (encoded : ∀ args ∈ jobs, Encodes serde args.env args.lane)
    (interred : Interred serde log store) :
    Lib.Every store'.job fun _ hash =>
      Encodes serde hash.envelope hash.lane := by
  have live := interred.live
  cases change with
  | stored source absent free idle =>
    refine live.put ?_
    rcases source with ⟨args, brought, _, rfl⟩ | ⟨dead, now, found, rfl⟩
    · exact encoded args brought
    · exact interred.dead _ dead found
  | leased args located =>
    have own := live _ _ located.found
    exact live.put own
  | removed found => exact live.erase _
  | rescheduled attempts availableAt found held =>
    have own := live _ _ found
    exact live.put own
  | extended leaseUntil found held =>
    have own := live _ _ found
    exact live.put own
  | buried error deadAt located => exact live.erase _
  | _ => exact live

theorem DeadHash.over_none (record : DeadHash) : record.over none = record := by
  simp [DeadHash.over]

theorem Located.id_eq {id member : Text} {hash : JobHash}
    {level : Lane × Nat} (located : Located store id hash level member) :
    fifoId member = id := by
  rcases located.place with ⟨_, rfl⟩ | ⟨_, _, _, same⟩
  · exact fifoId_member hash id
  · exact same

theorem Change.interred (change : Change jobs store burials minted store')
    (encoded : ∀ args ∈ jobs, Encodes serde args.env args.lane)
    (absent : ∀ burial ∈ burials, store.deadJob burial.1 = none)
    (interred : Interred serde log store) :
    Interred serde (log ++ burials) store' := by
  have filed := change.filed interred.filed
  have live := change.live_encoded encoded interred
  -- changes that leave the dead half alone
  have kept : store'.dead = store.dead → store'.deadJob = store.deadJob → burials = [] →
      Interred serde (log ++ burials) store' := by
    intro sets hashes none
    subst none
    rw [append_nil]
    exact ⟨filed, by rw [sets, hashes]; exact interred.lockstep,
      by rw [hashes]; exact interred.logged, live,
      by rw [hashes]; exact interred.dead⟩
  cases change with
  | @buried id member hash lane priority error deadAt located =>
    have unburied := absent _ (mem_singleton_self _)
    have level := congrArg Prod.fst (interred.filed.place located).1
    have written : ((store.bury id (hash.deadRecord lane priority member error
          deadAt)).removeJob id hash (lane, priority) member).deadJob =
        Function.update store.deadJob id (some (hash.deadRecord lane priority member error
            deadAt)) := by
      change Function.update store.deadJob id (some (DeadHash.over _ (store.deadJob id))) = _
      rw [unburied, DeadHash.over_none]
    refine ⟨filed, ?_, ?_, live, ?_⟩
    · rw [written]
      refine (interred.lockstep.bury_iff located.id_eq).mpr fun old found => ?_
      rw [unburied] at found
      cases found
    · rw [written]
      refine Lib.Every.put (interred.logged.imp fun _ _ inside =>
        mem_append_left _ inside) ?_
      exact mem_append_right _ (mem_singleton_self _)
    · rw [written]
      refine interred.dead.put ?_
      change Encodes serde hash.envelope lane
      rw [show lane = hash.lane from level]
      exact interred.live _ _ located.found
  | dropped splits =>
    rw [append_nil]
    exact ⟨filed, interred.lockstep.drop splits,
      every_del interred.logged _, live, every_del interred.dead _⟩
  | unburied found =>
    rw [append_nil]
    exact ⟨filed, interred.lockstep.unbury found,
      interred.logged.erase _, live, interred.dead.erase _⟩
  | _ => exact kept rfl rfl rfl

theorem Change.unburied_of (change : Change jobs store burials minted store') {id : Text}
    (absent : store.deadJob id = none)
    (other : id ∉ burials.map Prod.fst) : store'.deadJob id = none := by
  cases change with
  | @buried buriedId _ _ _ _ _ _ located =>
    have different : id ≠ buriedId := by
      rintro rfl
      exact other (mem_singleton_self _)
    change Function.update store.deadJob buriedId _ id = none
    rw [Function.update_of_ne different, absent]
  | dropped splits =>
    change del store.deadJob _ id = none
    unfold del
    rw [absent, ite_self]
  | @unburied freed dead found =>
    change Function.update store.deadJob freed none id = none
    by_cases same : id = freed
    · rw [same, Function.update_self]
    · rw [Function.update_of_ne same, absent]
  | _ => exact absent

theorem Trail.interred (trail : Trail jobs store burials minted store')
    (encoded : ∀ args ∈ jobs, Encodes serde args.env args.lane)
    (distinct : (burials.map Prod.fst).Nodup)
    (absent : ∀ burial ∈ burials, store.deadJob burial.1 = none)
    (interred : Interred serde log store) :
    Interred serde (log ++ burials) store' := by
  induction trail generalizing log with
  | refl store =>
    rw [append_nil]
    exact interred
  | step change trail ih =>
    rw [map_append] at distinct
    obtain ⟨_, later, apart⟩ := nodup_append.mp distinct
    rw [← append_assoc]
    refine ih later ?_ (change.interred encoded (fun burial inside =>
      absent burial (mem_append_left _ inside)) interred)
    intro burial inside
    refine change.unburied_of (absent burial (mem_append_right _ inside)) ?_
    intro twice
    exact apart burial.1 twice burial.1 (mem_map_of_mem inside) rfl

end Changes

/-! ## Runs without a second dead-lettering -/

/-- The dead-letterings of a run. -/
def burials (scripts : List Script) : List Burial :=
  (server.replies scripts).flatten

/-- No script dead-letters a job whose id has a dead record.  Otherwise the
script leaves the halves apart (`Lockstep.bury_iff`), unless its pruning takes the
older record before or both of them after. -/
def DeadOnce (scripts : List Script) : Prop :=
  ∀ step ∈ server.steps scripts, ∀ burial ∈ (step.1.exec step.2).2, step.1.deadJob burial.1 = none

instance (scripts : List Script) : Decidable (DeadOnce scripts) :=
  inferInstanceAs (Decidable (∀ step ∈ server.steps scripts,
    ∀ burial ∈ (step.1.exec step.2).2, step.1.deadJob burial.1 = none))

/-- The scripts the theorem is about. -/
structure Careful (serde : SerdeJson) (scripts : List Script) : Prop where
  encoded : ∀ script ∈ scripts, script.Encoded serde
  once : DeadOnce scripts

theorem careful_past (serde : SerdeJson) : Lib.Machine.PrefixClosed (Careful serde) := by
  intro past script careful
  constructor
  · intro other member
    exact careful.encoded other (mem_append_left _ member)
  · intro step member
    apply careful.once
    rw [Lib.Machine.steps_concat]
    exact mem_append_left _ member

theorem run_interred {serde : SerdeJson} (scripts : List Script) (careful : Careful serde scripts) :
    Interred serde (burials scripts) (server.run scripts) := by
  refine @Lib.Machine.run_invariant _ _ _ server (Careful serde)
    (fun past store => Interred serde (burials past) store)
    (careful_past serde) (interred_empty serde) ?_ scripts careful
  intro past script allowed interred
  obtain ⟨minted, _, trail⟩ := exec_trail (server.run past) script
  have log : burials (past ++ [script]) = burials past ++ ((server.run past).exec script).2 := by
    unfold burials
    rw [Lib.Machine.replies_concat, flatten_append]
    exact congrArg _ (append_nil _)
  rw [log]
  refine trail.interred ?_ (exec_burials_nodup _ script) ?_ interred
  · exact allowed.encoded script (mem_append_right _ (mem_singleton_self _))
  · apply allowed.once (server.run past, script)
    rw [Lib.Machine.steps_concat]
    exact mem_append_right _ (mem_singleton_self _)

/-! ## Reading, pruning and requeueing -/

section Consequences

variable {serde : SerdeJson} {log : List Burial} {store : Store}

theorem Lockstep.deadRows (lockstep : Lockstep store.dead store.deadJob) {lane : Lane}
    {limit : Nat} (whole : (store.dead lane).zcard ≤ min limit i64Max) :
    List.Forall₂ (fun entry record => store.deadJob
        (fifoId (Lib.ZEntry.member entry)) = some record ∧
        record.lane = lane)
      (store.dead lane).entries (store.deadRows lane limit) := by
  unfold Store.deadRows
  rw [take_of_length_le whole]
  apply Lib.filterMap_aligned
  intro entry listed
  obtain ⟨record, found, place, _⟩ := lockstep.hashes listed
  exact ⟨record, found, found, place⟩

theorem Interred.read (interred : Interred serde log store) {lane : Lane}
    {limit : Nat} (safe : laneKeySegment lane = .ok ())
    (whole : (store.dead lane).zcard ≤ min limit i64Max)
    (small : ∀ id dead, store.deadJob id = some dead → dead.lane = lane → dead.attempts ≤ u32Max) :
    ∃ letters, readDeadLetters serde store lane limit = .ok letters ∧
      countDeadLetters store lane = .ok letters.length ∧
      ∀ letter ∈ letters, letter.envelope.lane = lane := by
  have rows := interred.lockstep.deadRows whole
  have count : countDeadLetters store lane = .ok (store.deadRows lane limit).length := by
    rw [countDeadLetters, safe, ← rows.length_eq]
    rfl
  have decoded : ∀ record ∈ store.deadRows lane limit,
      ∃ letter, deadLetter serde record = .ok letter ∧ letter.envelope.lane = lane := by
    intro record member
    obtain ⟨entry, _, found, place⟩ := Lib.exists_left_of_mem rows member
    obtain ⟨envelope, encoded, inLane⟩ := interred.dead _ record found
    exact ⟨_, deadLetter_ok encoded (small _ record found place), inLane.trans place⟩
  obtain ⟨letters, mapped, aligned⟩ := Lib.mapM_aligned decoded
  by_cases nothing : limit = 0
  · have vacant : (store.dead lane).zcard = 0 := by omega
    refine ⟨[], by rw [readDeadLetters, if_pos nothing], ?_,
      fun _ member => absurd member not_mem_nil⟩
    rw [count, ← rows.length_eq]
    exact congrArg _ vacant
  · refine ⟨letters, ?_, ?_, ?_⟩
    · rw [readDeadLetters, if_neg nothing, safe]
      exact mapped
    · rw [count, aligned.length_eq]
    · intro letter member
      obtain ⟨_, _, inLane⟩ := Lib.exists_left_of_mem aligned member
      exact inLane

variable {record : DeadHash}

theorem Lockstep.del_eq (lockstep : Lockstep store.dead store.deadJob)
    {lane : Lane} {gone : List (Lib.ZEntry Text)}
    (inside : ∀ entry ∈ gone, entry ∈ store.dead lane)
    {id : Text}
    (found : store.deadJob id = some record) :
    del store.deadJob (gone.map fun entry => fifoId entry.member) id =
      if record.lane = lane ∧ record.entry ∈ gone then none
      else some record := by
  have goes := lockstep.gone_iff inside found
  unfold del
  rw [found]
  exact if_congr goes rfl rfl

theorem Lockstep.pruneByAge (lockstep : Lockstep store.dead store.deadJob) (lane : Lane)
    (bounds : Bounds) {id : Text}
    (found : store.deadJob id = some record) :
    (store.pruneByAge lane bounds).deadJob id = if bounds.hasAgeBound = true ∧ record.lane = lane ∧
        bounds.aged record.entry = true then none else some record := by
  unfold Store.pruneByAge
  by_cases bounded : bounds.hasAgeBound
  · rw [if_pos bounded]
    refine (lockstep.del_eq (fun entry going =>
      (mem_filter.mp going).1) found).trans (if_congr ?_ rfl rfl)
    rw [mem_filter]
    constructor
    · rintro ⟨place, _, aged⟩
      exact ⟨bounded, place, aged⟩
    · rintro ⟨_, place, aged⟩
      exact ⟨place, place ▸ (lockstep.members found).1, aged⟩
  · rw [if_neg bounded, if_neg fun exceeded => bounded exceeded.1, found]

theorem Lockstep.pruneByCount (lockstep : Lockstep store.dead store.deadJob) (lane : Lane)
    (bounds : Bounds) {id : Text}
    (found : store.deadJob id = some record) :
    (store.pruneByCount lane bounds).deadJob id = if 0 < bounds.maxCount ∧ record.lane = lane ∧
        record.entry ∈ (store.dead lane).entries.take
          ((store.dead lane).zcard - Lib.toDouble bounds.maxCount)
      then none else some record := by
  simp only [Store.pruneByCount]
  by_cases exceeded : 0 < bounds.maxCount ∧
      0 < (store.dead lane).zcard - Lib.toDouble bounds.maxCount
  · rw [if_pos exceeded]
    refine (lockstep.del_eq (fun entry going =>
      mem_of_mem_take going) found).trans (if_congr ?_ rfl rfl)
    exact ⟨fun going => ⟨exceeded.1, going⟩, And.right⟩
  · rw [if_neg exceeded, if_neg, found]
    rintro ⟨bounded, _, going⟩
    have none : (store.dead lane).zcard - Lib.toDouble bounds.maxCount = 0 := by
      by_contra some
      exact exceeded ⟨bounded, Nat.pos_of_ne_zero some⟩
    rw [none] at going
    cases going

theorem Lockstep.requeue (lockstep : Lockstep store.dead store.deadJob) (id : JobId)
    (now : Nat) {other : Text} (different : other ≠ id.toText) :
    (store.requeue id now).1.deadJob other = store.deadJob other ∧
      ∀ lane entry, fifoId entry.member = other → (entry ∈ (store.requeue id now).1.dead lane ↔
          entry ∈ store.dead lane) := by
  simp only [Store.requeue]
  cases found : store.deadJob id.toText with
  | none => exact ⟨rfl, fun _ _ _ => Iff.rfl⟩
  | some dead =>
    by_cases live : (store.job id.toText).isSome
    · simp only [if_pos live]
      exact ⟨trivial, fun _ _ _ => trivial⟩
    · by_cases held : (dead.uniqueKey.bind store.unique).isSome
      · simp only [if_neg live, if_pos held]
        exact ⟨trivial, fun _ _ _ => trivial⟩
      · simp only [if_neg live, if_neg held]
        constructor
        · exact Function.update_of_ne different ..
        · intro lane entry own
          refine Lib.ZSet.mem_update_zrem.trans (and_iff_left fun _ collide => different ?_)
          rw [← own, collide]
          exact (lockstep.members found).2

end Consequences

/-- The dead-letter store agrees with itself and with what was dead-lettered. -/
structure DeadConsistent (serde : SerdeJson) (log : List Burial) (store : Store) : Prop where
  /-- A hash has one member over all dead sets: the one it names, in the set
  of its lane. -/
  member : ∀ id dead, store.deadJob id = some dead → ∀ lane entry,
    (entry ∈ store.dead lane ∧ fifoId entry.member = id) ↔ (lane = dead.lane ∧
        entry = ⟨Lib.toDouble dead.deadAt, dead.member⟩)
  hash : ∀ lane entry, entry ∈ store.dead lane →
    ∃ dead, store.deadJob (fifoId entry.member) = some dead ∧
      dead.lane = lane ∧ dead.member = entry.member
  /-- All the fields of a hash were written by one dead-lettering. -/
  origin : ∀ id dead, store.deadJob id = some dead → (id, dead) ∈ log
  /-- A full read returns as many letters as are counted, all of the lane. -/
  read : ∀ lane limit, laneKeySegment lane = .ok () → (store.dead lane).zcard ≤ min limit i64Max →
    (∀ id dead, store.deadJob id = some dead → dead.lane = lane → dead.attempts ≤ u32Max) →
    ∃ letters, readDeadLetters serde store lane limit = .ok letters ∧
      countDeadLetters store lane = .ok letters.length ∧
      ∀ letter ∈ letters, letter.envelope.lane = lane
  /-- Pruning removes the records over the bound and no others. -/
  prunedByAge : ∀ lane bounds id dead, store.deadJob id = some dead →
    (store.pruneByAge lane bounds).deadJob id = if bounds.hasAgeBound = true ∧ dead.lane = lane ∧
        bounds.aged dead.entry = true then none else some dead
  prunedByCount : ∀ lane bounds id dead, store.deadJob id = some dead →
    (store.pruneByCount lane bounds).deadJob id = if 0 < bounds.maxCount ∧ dead.lane = lane ∧
        dead.entry ∈ (store.dead lane).entries.take
          ((store.dead lane).zcard - Lib.toDouble bounds.maxCount)
      then none else some dead
  /-- Requeueing a record neither removes nor hides another. -/
  requeued : ∀ (id : JobId) now other, other ≠ id.toText →
    (store.requeue id now).1.deadJob other = store.deadJob other ∧
      ∀ lane entry, fifoId entry.member = other → (entry ∈ (store.requeue id now).1.dead lane ↔
          entry ∈ store.dead lane)

theorem Interred.consistent {serde : SerdeJson} {log : List Burial}
    {store : Store} (interred : Interred serde log store) :
    DeadConsistent serde log store where
  member := by
    intro id dead found lane entry
    obtain ⟨listed, own⟩ := interred.lockstep.members found
    constructor
    · rintro ⟨inside, same⟩
      exact interred.lockstep.entry_eq inside listed (same.trans own.symm)
    · rintro ⟨rfl, rfl⟩
      exact ⟨listed, own⟩
  hash := by
    intro lane entry listed
    obtain ⟨dead, found, place, shape⟩ := interred.lockstep.hashes listed
    exact ⟨dead, found, place, by rw [shape]; rfl⟩
  origin := interred.logged
  read := fun _ _ => interred.read
  prunedByAge := fun lane bounds _ _ =>
    interred.lockstep.pruneByAge lane bounds
  prunedByCount := fun lane bounds _ _ =>
    interred.lockstep.pruneByCount lane bounds
  requeued := fun id now _ => interred.lockstep.requeue id now

/-- As long as no job is dead-lettered over a record of its id, the two halves
of the dead-letter store stay in lockstep. -/
theorem dead_letters_in_step (serde : SerdeJson) (scripts : List Script)
    (encoded : ∀ script ∈ scripts, script.Encoded serde)
    (once : DeadOnce scripts) :
    DeadConsistent serde (burials scripts) (server.run scripts) :=
  (run_interred scripts ⟨encoded, once⟩).consistent

theorem dead_letters_in_step_one_failure : let job : NewJob :=
      ⟨⟨⟨1⟩⟩, ⟨"mail"⟩, "send", [1, 2], 3, 0, some "key", 5, none⟩
    let blob := Json.serde.toVec job.intoEnvelope
    let scripts : List Script :=
      [.enqueue ⟨job.id, job.lane, 1, blob, "key", 5⟩,
        .reserve ⟨job.lane, 2, 30, ⟨⟨7⟩⟩, 0, ⟨0, 0, false⟩⟩,
        .fail ⟨⟨7⟩⟩ 3 "boom" ⟨0, 0, false⟩]
    (∀ script ∈ scripts, script.Encoded Json.serde) ∧ DeadOnce scripts ∧
      DeadConsistent Json.serde (burials scripts) (server.run scripts) := by
  intro job blob scripts
  have encoded : ∀ script ∈ scripts, script.Encoded Json.serde := by
    intro script member args brought
    have same : args = ⟨job.id, job.lane, 1, blob, "key", 5⟩ := by
      simp only [scripts, mem_cons, not_mem_nil, or_false] at member
      rcases member with rfl | rfl | rfl
      · exact mem_singleton.mp brought
      · cases brought
      · cases brought
    rw [same]
    exact ⟨job.intoEnvelope, by decide +kernel, rfl⟩
  have once : DeadOnce scripts := by decide +kernel
  exact ⟨encoded, once, dead_letters_in_step Json.serde scripts encoded once⟩

/-- A job id that fails, is enqueued again and fails again has two members and
one hash.  After a requeue the lane counts one dead letter and reads none. -/
theorem dead_letters_out_of_step : let job : NewJob :=
      ⟨⟨⟨1⟩⟩, ⟨"mail"⟩, "send", [], 3, 0, none, 0, none⟩
    let inputs : List Input :=
      [⟨1, ⟨⟨0⟩⟩, .enqueue job⟩, ⟨2, ⟨⟨7⟩⟩, .reserve ⟨"mail"⟩⟩,
        ⟨3, ⟨⟨0⟩⟩, .fail ⟨⟨7⟩⟩ "first"⟩, ⟨4, ⟨⟨0⟩⟩, .enqueue job⟩,
        ⟨5, ⟨⟨8⟩⟩, .reserve ⟨"mail"⟩⟩, ⟨6, ⟨⟨0⟩⟩, .fail ⟨⟨8⟩⟩ "second"⟩]
    let broker := machine Json.serde ⟨30, ⟨none, none⟩, none⟩
    ((broker.run inputs).dead ⟨"mail"⟩).entries.map (fun entry => fifoId entry.member) =
      [job.id.toText, job.id.toText] ∧
    (broker.replies (inputs ++ [⟨7, ⟨⟨0⟩⟩, .requeue job.id⟩, ⟨8, ⟨⟨0⟩⟩, .countDeadLetters ⟨"mail"⟩⟩,
          ⟨9, ⟨⟨0⟩⟩, .readDeadLetters ⟨"mail"⟩ 100⟩])).drop 6 =
      [.ok .done, .ok (.count 1), .ok (.deadLetters [])] := by
  decide +kernel

end Worklane.Redis
