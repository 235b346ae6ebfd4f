import Worklane.Memory.Retention
import Worklane.Redis.Naming
import Worklane.Redis.Reservations

/-!
# Dead letters beside an in-memory ledger

Every dead-lettering of a Redis run is also entered in a ledger that is pruned
as the in-memory broker prunes its records.  Under conditions on each entry,
the dead set of a lane lists the records of the ledger.
-/

namespace Worklane.Redis

open List
open Worklane.Memory (DeadEntry isYoung excess)

/-- A dead-lettering as the in-memory broker files it, with the record Redis
wrote for it. -/
structure Letter where
  entry : DeadEntry
  record : DeadHash
  deriving DecidableEq, Repr

def Letter.lane (letter : Letter) : Lane := letter.entry.lane

def Letter.id (letter : Letter) : Text := letter.entry.id.toText

def Letter.place (letter : Letter) : Lib.ZEntry Text := letter.record.entry

def filedLetter (serde : SerdeJson) (now : Nat) (burial : Burial) :
    Option Letter :=
  (decodeEnvelope serde burial.2.envelope).toOption.map fun envelope =>
    { entry :=
        { letter :=
            { envelope := { envelope with attempts := burial.2.attempts }
              error := burial.2.error }
          uniqueKey := burial.2.uniqueKey
          deadAt := now }
      record := burial.2 }

/-- What `prune_dead` of the in-memory broker keeps. -/
def retained (policy : RetentionPolicy) (lane : Lane) (now : Nat)
    (letters : List Letter) : List Letter :=
  let kept := (Memory.pruneDead policy lane now (letters.map Letter.entry)).1
  letters.filter fun letter => letter.entry ∈ kept

/-- One dead-lettering is entered and its lane pruned. -/
def enter (serde : SerdeJson) (policy : RetentionPolicy) (now : Nat)
    (letters : List Letter) (burial : Burial) : List Letter :=
  match filedLetter serde now burial with
  | none => letters
  | some letter => retained policy letter.lane now (letters ++ [letter])

/-- The letters of a lane. -/
def ofLane (lane : Lane) (letters : List Letter) : List Letter :=
  letters.filter fun letter => letter.lane = lane

/-- The letters of the lane that are not too old when `letter` joins them. -/
def youngWith (policy : RetentionPolicy) (now : Nat) (letters : List Letter)
    (letter : Letter) : List Letter :=
  (ofLane letter.lane (letters ++ [letter])).filter fun other => isYoung policy now other.entry

/-- The Redis script prunes this dead-lettering as the in-memory broker does:
the count bound is not the zero that means none and is not changed by
rounding, no rounding moves a record across the age cutoff, and the records over
the count bound stand before the others in the dead set. -/
structure Faithful (policy : RetentionPolicy) (now : Nat)
    (letters : List Letter) (letter : Letter) : Prop where
  positive : policy.maxCount ≠ some 0
  counted : ∀ count ∈ policy.maxCount, Lib.toDouble (min count i64Max) = count ∨
      (ofLane letter.lane (letters ++ [letter])).length ≤
        min count (Lib.toDouble (min count i64Max))
  aged : ∀ age ∈ policy.maxAge, ∀ other ∈ ofLane letter.lane (letters ++ [letter]),
      (bounds policy (nanos now)).aged other.place = decide (other.entry.deadAt < now - age)
  oldest : ∀ old ∈ (youngWith policy now letters letter).take
        (excess policy (youngWith policy now letters letter).length),
      ∀ other ∈ (youngWith policy now letters letter).drop
        (excess policy (youngWith policy now letters letter).length),
      old.place.Before other.place

instance (policy : RetentionPolicy) (now : Nat) (letters : List Letter)
    (letter : Letter) : Decidable (Faithful policy now letters letter) :=
  decidable_of_iff (policy.maxCount ≠ some 0 ∧ (∀ count ∈ policy.maxCount,
        Lib.toDouble (min count i64Max) = count ∨
          (ofLane letter.lane (letters ++ [letter])).length ≤
            min count (Lib.toDouble (min count i64Max))) ∧
      (∀ age ∈ policy.maxAge, ∀ other ∈ ofLane letter.lane (letters ++ [letter]),
          (bounds policy (nanos now)).aged other.place = decide (other.entry.deadAt < now - age)) ∧
      ∀ old ∈ (youngWith policy now letters letter).take
          (excess policy (youngWith policy now letters letter).length),
        ∀ other ∈ (youngWith policy now letters letter).drop
          (excess policy (youngWith policy now letters letter).length),
        old.place.Before other.place)
    ⟨fun ⟨positive, counted, aged, oldest⟩ => ⟨positive, counted, aged, oldest⟩,
      fun ⟨positive, counted, aged, oldest⟩ => ⟨positive, counted, aged, oldest⟩⟩

/-! ## What pruning keeps -/

section Retained

variable {policy : RetentionPolicy} {lane : Lane} {now : Nat}
variable {letters : List Letter}

theorem mem_ofLane {letter : Letter} :
    letter ∈ ofLane lane letters ↔ letter ∈ letters ∧ letter.lane = lane := by
  simp [ofLane]

theorem map_entry_filter (keep : DeadEntry → Bool) :
    (letters.filter fun letter => keep letter.entry).map Letter.entry =
      (letters.map Letter.entry).filter keep := by
  rw [filter_map]
  rfl

theorem retained_sublist : (retained policy lane now letters).Sublist letters :=
  filter_sublist

/-- The letters of the lane that pruning keeps. -/
def keptOf (policy : RetentionPolicy) (now : Nat) (letters : List Letter) :
    List Letter :=
  let young := letters.filter fun letter => isYoung policy now letter.entry
  young.drop (excess policy young.length)

theorem retained_lane (distinct : ((ofLane lane letters).map Letter.entry).Nodup) :
    ofLane lane (retained policy lane now letters) = keptOf policy now (ofLane lane letters) := by
  let own := ofLane lane letters
  have sublist : (keptOf policy now own).Sublist own := (drop_sublist ..).trans filter_sublist
  rw [← Lib.filter_mem_map_of_sublist sublist distinct]
  have commute : ofLane lane (retained policy lane now letters) =
      own.filter fun letter => letter.entry ∈
        (Memory.pruneDead policy lane now (letters.map Letter.entry)).1 := by
    simp only [own, ofLane, retained, filter_filter, Bool.and_comm]
  rw [commute]
  apply filter_congr
  intro letter member
  have here := (mem_ofLane.mp member).2
  -- Only the records of the lane decide about a record of the lane.
  have part : (Memory.pruneDead policy lane now
      (letters.map Letter.entry)).1.filter (fun entry => entry.lane = lane) =
      (keptOf policy now own).map Letter.entry := by
    rw [Memory.pruneDead_filter policy fun entry _ same => decide_eq_true same,
      ← map_entry_filter, Memory.pruneDead_lane policy]
    · rw [keptOf, map_drop, map_entry_filter, ← length_map Letter.entry, map_entry_filter]
      rfl
    · intro entry inside
      obtain ⟨other, found, rfl⟩ := mem_map.mp inside
      exact of_decide_eq_true (mem_filter.mp found).2
  rw [decide_eq_decide, ← part, mem_filter]
  exact (and_iff_left (decide_eq_true here)).symm

theorem retained_other {other : Lane} (different : other ≠ lane) :
    ofLane other (retained policy lane now letters) =
      ofLane other letters := by
  have kept : (Memory.pruneDead policy lane now
      (letters.map Letter.entry)).1.filter (fun entry => entry.lane = other) =
      (letters.map Letter.entry).filter fun entry => entry.lane = other := by
    refine Memory.pruneDead_outside policy fun entry _ same => ?_
    exact decide_eq_false fun elsewhere =>
      different (elsewhere.symm.trans same)
  simp only [ofLane, retained, filter_filter]
  apply filter_congr
  intro letter member
  by_cases here : letter.lane = other
  · have inside : letter.entry ∈ (Memory.pruneDead policy lane now
        (letters.map Letter.entry)).1.filter (fun entry => entry.lane = other) := by
      rw [kept]
      exact mem_filter.mpr ⟨mem_map_of_mem member, decide_eq_true here⟩
    simp [here, (mem_filter.mp inside).1]
  · simp [here]

end Retained

/-! ## The dead set and the ledger -/

/-- The dead sets list the letters of their lanes, and the hashes hold their
records. -/
structure Shelved (store : Store) (letters : List Letter) : Prop where
  entries : ∀ lane, (store.dead lane).entries.Perm ((ofLane lane letters).map Letter.place)
  records : ∀ letter ∈ letters, store.deadJob letter.id = some letter.record ∧
      letter.record.lane = letter.lane ∧
      fifoId letter.record.member = letter.id

section Shelved

variable {store : Store} {letters : List Letter}

theorem Shelved.congr {store' : Store} (shelved : Shelved store letters)
    (dead : store'.dead = store.dead)
    (deadJob : store'.deadJob = store.deadJob) : Shelved store' letters := by
  refine ⟨?_, ?_⟩
  · rw [dead]
    exact shelved.entries
  · rw [deadJob]
    exact shelved.records

theorem Shelved.distinct (shelved : Shelved store letters) (lane : Lane) :
    ((ofLane lane letters).map Letter.entry).Nodup := by
  have members := ((shelved.entries lane).map _).nodup_iff.mp (store.dead lane).distinct
  rw [map_map] at members
  refine List.Nodup.map_on ?_ members.of_map
  intro first inside second listed same
  have ids : first.id = second.id := congrArg (fun entry =>
    JobId.toText (DeadEntry.id entry)) same
  have record : first.record = second.record := by
    have left := (shelved.records first (mem_ofLane.mp inside).1).1
    have right := (shelved.records second (mem_ofLane.mp listed).1).1
    rw [ids] at left
    exact Option.some.inj (left.symm.trans right)
  cases first
  cases second
  cases same
  cases record
  rfl

end Shelved

section Pruning

variable {store : Store} {lane : Lane} {args : Bounds} {id : Text}
variable {record : DeadHash}

theorem pruneByAge_deadJob (found : (store.pruneByAge lane args).deadJob id = some record) :
    store.deadJob id = some record := by
  unfold Store.pruneByAge at found
  split at found
  · have kept : del store.deadJob _ id = some record := found
    unfold del at kept
    split at kept
    · cases kept
    · exact kept
  · exact found

theorem pruneByCount_deadJob (found : (store.pruneByCount lane args).deadJob id = some record) :
    store.deadJob id = some record := by
  simp only [Store.pruneByCount] at found
  split at found
  · have kept : del store.deadJob _ id = some record := found
    unfold del at kept
    split at kept
    · cases kept
    · exact kept
  · exact found

theorem pruneByAge_entries (other : Lane) : ((store.pruneByAge lane args).dead other).entries =
      if other = lane ∧ args.hasAgeBound then
        (store.dead other).entries.filter fun entry => !args.aged entry
      else
        (store.dead other).entries := by
  unfold Store.pruneByAge
  by_cases bounded : args.hasAgeBound = true
  · rw [if_pos bounded]
    by_cases same : other = lane
    · subst same
      rw [if_pos ⟨rfl, bounded⟩]
      change (Function.update store.dead other _ other).entries = _
      rw [Function.update_self]
      rfl
    · rw [if_neg fun here => same here.1]
      change (Function.update store.dead lane _ other).entries = _
      rw [Function.update_of_ne same]
  · rw [if_neg bounded, if_neg fun here => bounded here.2]

theorem pruneByCount_entries (other : Lane) : ((store.pruneByCount lane args).dead other).entries =
      if other = lane ∧ 0 < args.maxCount then
        (store.dead other).entries.drop
          ((store.dead other).entries.length - Lib.toDouble args.maxCount)
      else
        (store.dead other).entries := by
  simp only [Store.pruneByCount]
  by_cases same : other = lane
  · subst same
    by_cases bounded : 0 < args.maxCount
    · rw [if_pos (⟨rfl, bounded⟩ : other = other ∧ 0 < args.maxCount)]
      by_cases exceeded : 0 < (store.dead other).zcard - Lib.toDouble args.maxCount
      · rw [if_pos ⟨bounded, exceeded⟩]
        change (Function.update store.dead other _ other).entries = _
        rw [Function.update_self]
        rfl
      · rw [if_neg fun both => exceeded both.2]
        have none : (store.dead other).entries.length -
            Lib.toDouble args.maxCount = 0 := Nat.eq_zero_of_not_pos exceeded
        rw [none, drop_zero]
    · rw [if_neg fun both => bounded both.1, if_neg fun both => bounded both.2]
  · have elsewhere : ¬ (other = lane ∧ 0 < args.maxCount) := fun both => same both.1
    rw [if_neg elsewhere]
    split
    · change (Function.update store.dead lane _ other).entries = _
      rw [Function.update_of_ne same]
    · rfl

end Pruning

/-! ## One dead-lettering -/

/-- The dead-letter store, the live jobs beside it and the ledger. -/
structure Kept (serde : SerdeJson) (store : Store) (letters : List Letter) : Prop where
  interred : ∃ log, Interred serde log store
  named : Named serde store
  apart : ∀ id, store.job id ≠ none → store.deadJob id = none
  shelved : Shelved store letters

section Move

variable {serde : SerdeJson} {store : Store} {letters : List Letter}
variable {id member : Text} {hash : JobHash} {lane : Lane} {priority : Nat}

theorem Kept.filedLetter (kept : Kept serde store letters)
    (located : Located store id hash (lane, priority) member)
    (error : String) (deadAt now : Nat) :
    ∃ letter, filedLetter serde now (id, hash.deadRecord lane priority member error deadAt) =
          some letter ∧
      letter.record = hash.deadRecord lane priority member error deadAt ∧
      letter.lane = lane ∧ letter.id = id ∧ letter.entry.deadAt = now := by
  obtain ⟨_, interred⟩ := kept.interred
  have level := congrArg Prod.fst (interred.filed.place located).1
  obtain ⟨envelope, encoded, own⟩ := kept.named.jobs _ _ located.found
  obtain ⟨second, encoded', inLane⟩ := interred.live _ _ located.found
  have same : envelope = second := Except.ok.inj
    ((decode_of_encode encoded).symm.trans (decode_of_encode encoded'))
  subst same
  refine ⟨⟨⟨⟨{ envelope with attempts := hash.attempts }, error⟩,
    hash.uniqueKey, now⟩, hash.deadRecord lane priority member error deadAt⟩,
    ?_, rfl, ?_, ?_, rfl⟩
  · have decoded := decode_of_encode encoded
    simp only [Redis.filedLetter, JobHash.deadRecord, decoded]
    rfl
  · exact inLane.trans level.symm
  · exact own

theorem Kept.bury (kept : Kept serde store letters) {error : String} {deadAt : Nat}
    (located : Located store id hash (lane, priority) member)
    {letter : Letter}
    (record : letter.record = hash.deadRecord lane priority member error deadAt)
    (inLane : letter.lane = lane) (own : letter.id = id) :
    Shelved ((store.bury id (hash.deadRecord lane priority member error
      deadAt)).removeJob id hash (lane, priority) member)
      (letters ++ [letter]) := by
  obtain ⟨_, interred⟩ := kept.interred
  have absent : store.deadJob id = none := kept.apart id (by
    rw [located.found]
    exact Option.some_ne_none hash)
  have written : ((store.bury id (hash.deadRecord lane priority member error
      deadAt)).removeJob id hash (lane, priority) member).deadJob =
      Function.update store.deadJob id (some letter.record) := by
    change Function.update store.deadJob id (some (DeadHash.over _ (store.deadJob id))) = _
    rw [absent, DeadHash.over_none, record]
  have place : letter.place = ⟨Lib.toDouble deadAt, member⟩ := by
    rw [Letter.place, record]
    rfl
  constructor
  · intro other
    change (Function.update store.dead lane _ other).entries.Perm _
    by_cases same : other = lane
    · subst same
      have added : ofLane other (letters ++ [letter]) = ofLane other letters ++ [letter] := by
        simp [ofLane, inLane]
      have fresh : ∀ entry ∈ store.dead other, entry.member ≠ member := by
        intro entry inside collide
        obtain ⟨old, found, _⟩ := interred.lockstep.hashes inside
        rw [collide, located.id_eq, absent] at found
        cases found
      rw [Function.update_self, added, map_append, map_singleton, place]
      exact (Lib.ZSet.zadd_perm fresh).trans ((kept.shelved.entries other).append_right _)
    · have unchanged : ofLane other (letters ++ [letter]) =
          ofLane other letters := by
        simp [ofLane, inLane, Ne.symm same]
      rw [Function.update_of_ne same, unchanged]
      exact kept.shelved.entries other
  · intro other inside
    rw [written]
    rcases mem_append.mp inside with old | new
    · obtain ⟨found, rest⟩ := kept.shelved.records other old
      have different : other.id ≠ id := by
        rintro rfl
        cases absent.symm.trans found
      rw [Function.update_of_ne different]
      exact ⟨found, rest⟩
    · cases mem_singleton.mp new
      rw [own, Function.update_self]
      refine ⟨rfl, ?_, ?_⟩
      · rw [record, inLane]
        rfl
      · rw [record]
        exact located.id_eq

end Move

section Prune

variable {policy : RetentionPolicy} {now : Nat} {store : Store}
variable {letters : List Letter} {lane : Lane}

theorem young_of_aged (aged : ∀ age, policy.maxAge = some age → ∀ other ∈ ofLane lane letters,
        (bounds policy (nanos now)).aged other.place = decide (other.entry.deadAt < now - age)) :
    (if (bounds policy (nanos now)).hasAgeBound then
      ((ofLane lane letters).map Letter.place).filter fun entry =>
        !(bounds policy (nanos now)).aged entry
      else (ofLane lane letters).map Letter.place) =
      ((ofLane lane letters).filter fun letter =>
        isYoung policy now letter.entry).map Letter.place := by
  cases limit : policy.maxAge with
  | none =>
    have unbounded : ¬ (bounds policy (nanos now)).hasAgeBound = true := by
      simp [bounds, limit]
    rw [if_neg unbounded]
    refine congrArg (List.map Letter.place) ?_
    refine (filter_eq_self.mpr fun letter _ => ?_).symm
    simp [isYoung, limit]
  | some age =>
    have bounded : (bounds policy (nanos now)).hasAgeBound = true := by
      simp [bounds, limit]
    rw [if_pos bounded, filter_map]
    refine congrArg (List.map Letter.place) (filter_congr ?_)
    intro letter member
    have same := aged age limit letter member
    simp only [Function.comp, same, isYoung, limit, Option.all_some]
    rw [← decide_not, decide_eq_decide]
    exact Nat.not_lt

theorem excess_of_counted (positive : policy.maxCount ≠ some 0) {total : Nat}
    (counted : ∀ count, policy.maxCount = some count → Lib.toDouble (min count i64Max) = count ∨
        total ≤ min count (Lib.toDouble (min count i64Max)))
    {size : Nat} (fewer : size ≤ total) :
    (if 0 < (bounds policy (nanos now)).maxCount then
      size - Lib.toDouble (bounds policy (nanos now)).maxCount else 0) =
      excess policy size := by
  cases limit : policy.maxCount with
  | none => simp [bounds, RetentionPolicy.keepCount, excess, limit]
  | some count =>
    have some : 0 < count := by
      refine Nat.pos_of_ne_zero ?_
      rintro rfl
      exact positive limit
    have keep : (bounds policy (nanos now)).maxCount = min count i64Max := by
      simp [bounds, RetentionPolicy.keepCount, limit]
    have large : 0 < i64Max := by decide
    rw [keep, if_pos (by omega), excess, limit]
    rcases counted count limit with exact | few
    · simp only [exact]
    · simp only
      omega

theorem excess_le (total : Nat) : excess policy total ≤ total := by
  unfold excess
  split
  · exact Nat.zero_le _
  · exact Nat.sub_le ..

theorem drop_young {set : Lib.ZSet Text} {young : List Letter}
    (listed : set.entries.Perm (young.map Letter.place))
    (oldest : ∀ old ∈ young.take (excess policy young.length),
      ∀ other ∈ young.drop (excess policy young.length), old.place.Before other.place) :
    (set.entries.drop (excess policy young.length)).Perm
      ((young.drop (excess policy young.length)).map Letter.place) := by
  have width : ((young.take (excess policy young.length)).map Letter.place).length =
      excess policy young.length := by
    rw [length_map, length_take, Nat.min_eq_left (excess_le _)]
  rw [← take_append_drop (excess policy young.length) young, map_append] at listed
  have left := Lib.ZEntry.drop_perm set.sorted listed (by
    intro early front late back
    obtain ⟨old, first, rfl⟩ := mem_map.mp front
    obtain ⟨other, rest, rfl⟩ := mem_map.mp back
    exact oldest old first other rest)
  rwa [width] at left

theorem Shelved.prune (shelved : Shelved store letters) (lockstep : Lockstep
      ((store.pruneByAge lane (bounds policy (nanos now))).pruneByCount lane
        (bounds policy (nanos now))).dead
      ((store.pruneByAge lane (bounds policy (nanos now))).pruneByCount lane
        (bounds policy (nanos now))).deadJob)
    (positive : policy.maxCount ≠ some 0)
    (counted : ∀ count, policy.maxCount = some count → Lib.toDouble (min count i64Max) = count ∨
        (ofLane lane letters).length ≤ min count (Lib.toDouble (min count i64Max)))
    (aged : ∀ age, policy.maxAge = some age → ∀ other ∈ ofLane lane letters,
        (bounds policy (nanos now)).aged other.place = decide (other.entry.deadAt < now - age))
    (oldest : let young := (ofLane lane letters).filter fun other => isYoung policy now other.entry
      ∀ old ∈ young.take (excess policy young.length),
        ∀ other ∈ young.drop (excess policy young.length), old.place.Before other.place) :
    Shelved ((store.pruneByAge lane (bounds policy (nanos now))).pruneByCount lane
        (bounds policy (nanos now)))
      (retained policy lane now letters) := by
  let args := bounds policy (nanos now)
  have entries : ∀ other, (((store.pruneByAge lane args).pruneByCount lane args).dead
        other).entries.Perm
      ((ofLane other (retained policy lane now letters)).map Letter.place) := by
    intro other
    by_cases same : other = lane
    · subst same
      have young : ((store.pruneByAge other args).dead other).entries.Perm
          (((ofLane other letters).filter fun letter =>
            isYoung policy now letter.entry).map Letter.place) := by
        rw [pruneByAge_entries, ← young_of_aged aged]
        simp only [true_and]
        split
        · exact (shelved.entries other).filter _
        · exact shelved.entries other
      have fewer := length_filter_le (fun letter : Letter =>
        isYoung policy now letter.entry) (ofLane other letters)
      have dropped : (((store.pruneByAge other args).pruneByCount other args).dead other).entries =
          ((store.pruneByAge other args).dead other).entries.drop (excess policy
            ((ofLane other letters).filter fun letter =>
              isYoung policy now letter.entry).length) := by
        rw [pruneByCount_entries, ← @excess_of_counted policy now positive _ counted _ fewer,
          young.length_eq, length_map]
        simp only [true_and]
        by_cases bounded : 0 < args.maxCount
        · rw [if_pos bounded, if_pos bounded]
        · rw [if_neg bounded, if_neg bounded, drop_zero]
      rw [dropped, retained_lane (shelved.distinct other), keptOf]
      exact drop_young young oldest
    · rw [pruneByCount_entries, pruneByAge_entries, if_neg fun both => same both.1,
        if_neg fun both => same both.1, retained_other same]
      exact shelved.entries other
  refine ⟨entries, ?_⟩
  intro letter member
  obtain ⟨found, inLane, own⟩ := shelved.records letter (retained_sublist.subset member)
  refine ⟨?_, inLane, own⟩
  -- The set still lists the letter, so there is a hash, and it is the old one.
  have listed : letter.place ∈ ((store.pruneByAge lane args).pruneByCount lane args).dead
        letter.lane := by
    exact (entries _).symm.subset (mem_map_of_mem (mem_ofLane.mpr ⟨member, rfl⟩))
  obtain ⟨record, present, _⟩ := lockstep.hashes listed
  have sameId : fifoId letter.place.member = letter.id := own
  rw [sameId] at present
  have old := pruneByAge_deadJob (pruneByCount_deadJob present)
  rw [found] at old
  rw [old]
  exact present

end Prune

/-- One dead-lettering, filed and pruned on both sides. -/
theorem Kept.move {serde : SerdeJson} {policy : RetentionPolicy} {now : Nat}
    {store : Store} {letters : List Letter} {id member : Text}
    {hash : JobHash} {lane : Lane} {priority deadAt : Nat} {error : String}
    (kept : Kept serde store letters)
    (located : Located store id hash (lane, priority) member)
    {letter : Letter}
    (filed : Redis.filedLetter serde now
      (id, hash.deadRecord lane priority member error deadAt) = some letter)
    (faithful : Faithful policy now letters letter) :
    Kept serde (store.deadLetterMove id hash lane priority member error deadAt
        (bounds policy (nanos now)))
      (enter serde policy now letters (id, hash.deadRecord lane priority member error deadAt)) := by
  obtain ⟨same, sameFiled, record, inLane, own, _⟩ := kept.filedLetter located error deadAt now
  cases sameFiled.symm.trans filed
  have entered : enter serde policy now letters
      (id, hash.deadRecord lane priority member error deadAt) =
      retained policy lane now (letters ++ [letter]) := by
    rw [enter, filed]
    simp only [inLane]
  rw [entered]
  have absent : store.deadJob id = none := kept.apart id (by
    rw [located.found]
    exact Option.some_ne_none hash)
  obtain ⟨log, interred⟩ := kept.interred
  have sweep := @deadLetterMove_sweep [] store id member hash lane priority
    error deadAt (bounds policy (nanos now)) located
  have next : Interred serde _ _ :=
    sweep.trail.interred (fun _ brought => (nomatch brought)) sweep.distinct
      (fun burial inside => by
        rw [mem_singleton.mp inside]
        exact absent) interred
  have named : Named serde _ := sweep.trail.named (fun _ brought => (nomatch brought)) kept.named
  obtain ⟨positive, counted, aged, oldest⟩ := faithful
  unfold youngWith at oldest
  rw [inLane] at counted aged oldest
  have buried := kept.bury located record inLane own
  refine ⟨⟨_, next⟩, named, ?_, buried.prune next.lockstep positive counted aged oldest⟩
  intro other live
  rw [deadLetterMove_job] at live
  have different : other ≠ id := by
    rintro rfl
    exact live (Function.update_self ..)
  rw [Function.update_of_ne different] at live
  have before := kept.apart other live
  cases after : (store.deadLetterMove id hash lane priority member error
      deadAt (bounds policy (nanos now))).deadJob other with
  | none => rfl
  | some written =>
    have old := pruneByAge_deadJob (pruneByCount_deadJob after)
    have old : Function.update store.deadJob id _ other = some written := old
    rw [Function.update_of_ne different, before] at old
    cases old

end Worklane.Redis
