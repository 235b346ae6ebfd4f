import Worklane.Redis.Index

/-!
# Which job `RESERVE` hands out

The lane sets are ordered by due times rounded to doubles, ties by member.  For
jobs that were never handed out and share a priority, `RESERVE` hands out the
first by that order, and the theorem says when this is the job that has waited
longest.
-/

namespace Worklane.Redis

open List
open Lib (toDouble)

/-! ## Sequence numbers -/

/-- The value of the counter that each live job was stored under.  The hash has
it as a double. -/
structure Numbering (job : Text → Option JobHash) (seq : Nat) (number : Text → Nat) : Prop where
  recorded : Lib.Every job fun id hash => hash.seq = toDouble (number id)
  drawn : Lib.Every job fun id _ => number id ≤ seq

section Numbering

variable {job : Text → Option JobHash} {seq : Nat} {number : Text → Nat}
variable {id : Text} {hash hash' : JobHash}

theorem Numbering.rewrite (numbering : Numbering job seq number) (found : job id = some hash)
    (same : hash'.seq = hash.seq) :
    Numbering (Function.update job id (some hash')) seq number :=
  ⟨numbering.recorded.put (same.trans (numbering.recorded id hash found)),
    numbering.drawn.put (numbering.drawn id hash found)⟩

theorem Numbering.erase (numbering : Numbering job seq number) (id : Text) :
    Numbering (Function.update job id none) seq number :=
  ⟨numbering.recorded.erase id, numbering.drawn.erase id⟩

theorem Numbering.store (numbering : Numbering job seq number) (absent : job id = none)
    (counted : hash.seq = toDouble (seq + 1)) :
    Numbering (Function.update job id (some hash)) (seq + 1)
      (Function.update number id (seq + 1)) := by
  have other : ∀ {key stored}, job key = some stored →
      Function.update number id (seq + 1) key = number key := by
    intro key stored found
    apply Function.update_of_ne
    rintro rfl
    cases absent.symm.trans found
  constructor
  · refine Lib.Every.put ?_ ?_
    · intro key stored found
      rw [other found]
      exact numbering.recorded key stored found
    · rw [Function.update_self, counted]
  · refine Lib.Every.put ?_ ?_
    · intro key stored found
      rw [other found]
      exact Nat.le_succ_of_le (numbering.drawn key stored found)
    · rw [Function.update_self]

end Numbering

/-- What the scripts keep true of the hashes: each has drawn a number, and one
that was never handed out has no receipt. -/
structure Waiting (store : Store) : Prop where
  numbered : ∃ number, Numbering store.job store.seq number
  unheld : Lib.Every store.job fun _ hash => hash.deliveries = 0 → hash.receipt = none

section Waiting

variable {store store' : Store} {jobs : List JobArgs} {burials : List Burial}
variable {minted : List ReservationReceipt}

theorem Change.waiting (change : Change jobs store burials minted store')
    (waiting : Waiting store) : Waiting store' := by
  obtain ⟨⟨number, numbering⟩, unheld⟩ := waiting
  cases change with
  | stored source absent free idle =>
    exact ⟨⟨_, numbering.store absent rfl⟩, unheld.put fun _ => idle.1⟩
  | leased args located =>
    refine ⟨⟨number, numbering.rewrite located.found rfl⟩, unheld.put ?_⟩
    exact fun never => absurd never (Nat.succ_ne_zero _)
  | removed found => exact ⟨⟨number, numbering.erase _⟩, unheld.erase _⟩
  | @rescheduled _ _ hash _ _ found held =>
    exact ⟨⟨number, @Numbering.rewrite _ _ _ _ hash _ numbering found rfl⟩, unheld.put fun _ => rfl⟩
  | @extended _ id hash leaseUntil found held =>
    exact ⟨⟨number, numbering.rewrite found rfl⟩, unheld.put (unheld id hash found)⟩
  | buried error deadAt located => exact ⟨⟨number, numbering.erase _⟩, unheld.erase _⟩
  | _ => exact ⟨⟨number, numbering⟩, unheld⟩

theorem Trail.waiting (trail : Trail jobs store burials minted store')
    (waiting : Waiting store) : Waiting store' := by
  induction trail with
  | refl store => exact waiting
  | step change trail ih => exact ih (change.waiting waiting)

theorem waiting_run (scripts : List Script) : Waiting (server.run scripts) := by
  induction scripts using List.reverseRecOn with
  | nil =>
    exact ⟨⟨fun _ => 0, fun _ _ found => (by cases found), fun _ _ found => (by cases found)⟩,
      fun _ _ found => (by cases found)⟩
  | append_singleton past script ih =>
    rw [Lib.Machine.run_concat]
    obtain ⟨_, _, trail⟩ := exec_trail (server.run past) script
    exact trail.waiting ih

end Waiting

/-! ## The job a lane hands out -/

section Reserve

variable {store : Store} {args : ReserveArgs} {number : Text → Nat}

/-- The script answers with the job and its receipt leads to it. -/
structure Handed (store : Store) (args : ReserveArgs) (id : Text) (hash : JobHash) : Prop where
  answer : (store.reserve args).2.1 = some (hash.envelope, hash.attempts)
  receipt : (store.reserve args).1.rcpt args.receipt = some id

theorem reserveLevels_single (unbounded : args.max = 0) (left : Nat) {levels : List Nat}
    {priority : Nat} {entry : Lib.ZEntry Text} {hash : JobHash}
    (vacant : ∀ level ∈ levels, level ≠ priority → (store.lanes (args.lane, level)).zcard = 0)
    (listed : priority ∈ levels)
    (first : (store.lanes (args.lane, priority)).firstUpTo (toDouble args.now) = some entry)
    (found : store.job (fifoId entry.member) = some hash) :
    (store.reserveLevels args levels (left + 1)).2.1 = some (hash.envelope, hash.attempts) ∧
      (store.reserveLevels args levels (left + 1)).1.rcpt args.receipt =
        some (fifoId entry.member) := by
  induction levels generalizing store with
  | nil => cases listed
  | cons level rest ih =>
    rw [Store.reserveLevels]
    by_cases same : level = priority
    · subst same
      have filled : (store.lanes (args.lane, level)).zcard ≠ 0 :=
        Nat.ne_of_gt (length_pos_of_mem (Lib.ZSet.firstUpTo_eq_some first).1)
      have below : ¬ (0 < args.max ∧ args.max < hash.deliveries + 1) := by omega
      have ended : store.reserveLevel args level (left + 1) =
          (store.lease args level (fifoId entry.member) entry.member hash,
            .handed hash.envelope hash.attempts, []) := by
        simp only [Store.reserveLevel, first, found, if_neg below]
      rw [if_neg filled, ended]
      exact ⟨rfl, Function.update_self ..⟩
    · rw [if_pos (vacant level (mem_cons_self ..) same)]
      exact ih (fun other inside => vacant other (mem_cons_of_mem _ inside))
        ((mem_cons.mp listed).resolve_left (Ne.symm same)) first found

/-- The live jobs of the lane were never handed out and share a priority. -/
def Unserved (store : Store) (lane : Lane) (priority : Nat) : Prop :=
  ∀ id hash, store.job id = some hash → hash.lane = lane →
    hash.priority = priority ∧ hash.deliveries = 0

/-- The job is visible and the lane set has it before every other visible one. -/
structure Foremost (store : Store) (args : ReserveArgs) (id : Text) (hash : JobHash) : Prop where
  found : store.job id = some hash
  lane : hash.lane = args.lane
  visible : hash.score ≤ toDouble args.now
  before : ∀ other stored, store.job other = some stored → stored.lane = args.lane →
    stored.score ≤ toDouble args.now →
    other = id ∨ (hash.entry id).Before (stored.entry other)

theorem Indexed.reserve_foremost (indexed : Indexed store) (unbounded : args.max = 0)
    {priority : Nat} (unserved : Unserved store args.lane priority)
    {id : Text} {hash : JobHash} (found : store.job id = some hash) (lane : hash.lane = args.lane)
    (visible : hash.score ≤ toDouble args.now) :
    ∃ id hash, Foremost store args id hash ∧ Handed store args id hash := by
  have place : ∀ {id hash}, store.job id = some hash → hash.lane = args.lane →
      hash.entry id ∈ store.lanes (args.lane, priority) := by
    intro id hash found lane
    have inside := indexed.filed.members found
    rwa [JobHash.level, lane, (unserved id hash found lane).1] at inside
  cases first : (store.lanes (args.lane, priority)).firstUpTo (toDouble args.now) with
  | none => exact absurd visible (Lib.ZSet.firstUpTo_eq_none.mp first _ (place found lane))
  | some entry =>
    obtain ⟨inside, due, earliest⟩ := Lib.ZSet.firstUpTo_eq_some first
    obtain ⟨chosen, chosenFound, level, shape⟩ := indexed.job_of_entry inside
    have vacant : ∀ level ∈ store.levels args.lane, level ≠ priority →
        (store.lanes (args.lane, level)).zcard = 0 := by
      intro level _ other
      rw [Lib.ZSet.zcard, length_eq_zero_iff, eq_nil_iff_forall_not_mem]
      intro member stray
      obtain ⟨hash, present, filedAt, _⟩ := indexed.job_of_entry stray
      have lane := congrArg Prod.fst filedAt
      have own := congrArg Prod.snd filedAt
      exact other (own.symm.trans (unserved _ hash present lane).1)
    obtain ⟨answer, receipt⟩ := reserveLevels_single unbounded 127 vacant
      (indexed.mem_levels inside) first chosenFound
    refine ⟨_, chosen, ⟨chosenFound, congrArg Prod.fst level, ?_, ?_⟩, answer, receipt⟩
    · rw [shape] at due
      exact due
    · intro other stored present lane visible
      rcases earliest _ (place present lane) visible with same | before
      · left
        rw [← fifoId_member stored other]
        exact congrArg (fun entry => fifoId entry.member) same
      · right
        rwa [← shape]

end Reserve

/-! ## The job that has waited longest -/

section Order

variable {store : Store} {args : ReserveArgs} {number : Text → Nat}
variable {id other : Text} {hash stored : JobHash}

/-- The job is available, and every other available job of the lane became so
later, or at the same time and was enqueued after it. -/
structure FirstDue (store : Store) (number : Text → Nat) (args : ReserveArgs)
    (id : Text) (hash : JobHash) : Prop where
  found : store.job id = some hash
  lane : hash.lane = args.lane
  due : hash.availableAt ≤ args.now
  least : ∀ other stored, store.job other = some stored → stored.lane = args.lane →
    stored.availableAt ≤ args.now →
    hash.availableAt < stored.availableAt ∨
      (hash.availableAt = stored.availableAt ∧ number id ≤ number other)

/-- `RESERVE` hands out the first due job, and nothing when no job is due. -/
def ReservesFirst (store : Store) (number : Text → Nat) (args : ReserveArgs) : Prop :=
  (∃ id hash, FirstDue store number args id hash ∧ Handed store args id hash) ∨
    ((∀ id hash, store.job id = some hash → hash.lane = args.lane →
        args.now < hash.availableAt) ∧ (store.reserve args).2.1 = none)

/-- The doubles cannot tell the two times apart, and by the doubles of their
numbers `other` comes first. -/
def Overtakes (number : Text → Nat) (other : Text) (stored : JobHash)
    (id : Text) (hash : JobHash) : Prop :=
  toDouble stored.availableAt = toDouble hash.availableAt ∧
    (toDouble (number other) < toDouble (number id) ∨
      (toDouble (number other) = toDouble (number id) ∧ other < id))

/-- No job overtakes the first due one, and no job is visible too early when
none is due. -/
def ToldApart (store : Store) (number : Text → Nat) (args : ReserveArgs) : Prop :=
  (∃ id hash, FirstDue store number args id hash ∧
      ∀ other stored, store.job other = some stored → stored.lane = args.lane →
        ¬ Overtakes number other stored id hash) ∨
    ∀ id hash, store.job id = some hash → hash.lane = args.lane →
      toDouble args.now < toDouble hash.availableAt

theorem fifoMember_lt_of_number {seq : Nat} (numbering : Numbering store.job seq number)
    (counter : seq < 2 ^ 63) (found : store.job id = some hash)
    (present : store.job other = some stored)
    (less : toDouble (number other) < toDouble (number id) ∨
      (toDouble (number other) = toDouble (number id) ∧ other < id)) :
    stored.member other < hash.member id := by
  unfold JobHash.member
  rw [numbering.recorded id hash found, numbering.recorded other stored present]
  rcases less with below | ⟨same, below⟩
  · have top : toDouble (number id) ≤ toDouble (2 ^ 63) :=
      Lib.toDouble_mono (Nat.le_of_lt (Nat.lt_of_le_of_lt (numbering.drawn id hash found) counter))
    have power : toDouble (2 ^ 63) < 10 ^ 20 := by decide +kernel
    exact fifoMember_lt below (Nat.lt_of_le_of_lt top power) other id
  · rw [same]
    exact append_left_lt (cons_lt_cons_iff.mpr (Or.inr ⟨rfl, below⟩))

/-- The lane set has its jobs by the times they are available from. -/
def Scored (store : Store) (lane : Lane) : Prop :=
  ∀ id hash, store.job id = some hash → hash.lane = lane → hash.score = toDouble hash.availableAt

theorem FirstDue.visible (due : FirstDue store number args id hash)
    (scores : Scored store args.lane) : hash.score ≤ toDouble args.now := by
  rw [scores id hash due.found due.lane]
  exact Lib.toDouble_mono due.due

theorem Foremost.not_overtaken {seq : Nat} (foremost : Foremost store args id hash)
    (numbering : Numbering store.job seq number) (counter : seq < 2 ^ 63)
    (scores : Scored store args.lane)
    (present : store.job other = some stored) (lane : stored.lane = args.lane) :
    ¬ Overtakes number other stored id hash := by
  rintro ⟨times, less⟩
  have member := fifoMember_lt_of_number numbering counter foremost.found present less
  have equal : stored.score = hash.score := by
    rw [scores other stored present lane, scores id hash foremost.found foremost.lane, times]
  rcases foremost.before other stored present lane (equal ▸ foremost.visible) with rfl | before
  · cases foremost.found.symm.trans present
    exact lt_irrefl _ member
  · rcases before with sooner | ⟨_, lower⟩
    · exact absurd sooner (Nat.not_lt_of_le equal.le)
    · exact lt_asymm lower member

/-- A first due job that nothing overtakes is foremost, and there is one such
job only. -/
theorem Foremost.eq_of_firstDue {seq : Nat} {first : Text} {firstHash : JobHash}
    (foremost : Foremost store args id hash)
    (numbering : Numbering store.job seq number) (counter : seq < 2 ^ 63)
    (scores : Scored store args.lane)
    (due : FirstDue store number args first firstHash)
    (kept : ¬ Overtakes number id hash first firstHash) : first = id := by
  rcases foremost.before first firstHash due.found due.lane (due.visible scores) with same | before
  · exact same
  · exfalso
    have earlier : firstHash.availableAt ≤ hash.availableAt := by
      by_cases available : hash.availableAt ≤ args.now
      · rcases due.least id hash foremost.found foremost.lane available with less | ⟨same, _⟩
        · exact Nat.le_of_lt less
        · exact same.le
      · have := due.due
        omega
    have order := Lib.toDouble_mono earlier
    rw [← scores first firstHash due.found due.lane,
      ← scores id hash foremost.found foremost.lane] at order
    rcases before with sooner | ⟨times, lower⟩
    · exact absurd sooner (Nat.not_lt_of_le order)
    · have times : toDouble hash.availableAt = toDouble firstHash.availableAt := by
        rw [← scores first firstHash due.found due.lane,
          ← scores id hash foremost.found foremost.lane]
        exact times
      -- not overtaken, the first due job has the lower member
      have reversed : toDouble (number first) < toDouble (number id) ∨
          (toDouble (number first) = toDouble (number id) ∧ first < id) := by
        rcases Nat.lt_trichotomy (toDouble (number id)) (toDouble (number first)) with
          less | same | more
        · exact absurd ⟨times, Or.inl less⟩ kept
        · rcases lt_trichotomy id first with less | rfl | more
          · exact absurd ⟨times, Or.inr ⟨same, less⟩⟩ kept
          · cases foremost.found.symm.trans due.found
            exact absurd lower (lt_irrefl _)
          · exact Or.inr ⟨same.symm, more⟩
        · exact Or.inl more
      exact lt_asymm lower
        (fifoMember_lt_of_number numbering counter foremost.found due.found reversed)

end Order

/-- For a lane whose jobs were never handed out and share a priority, and
without a delivery bound, `RESERVE` hands out the first due job exactly when the
doubles tell it from the others.  The counter of Redis is a signed 64-bit number. -/
theorem reserves_first_iff (scripts : List Script) (fresh : FreshReceipts scripts)
    (number : Text → Nat)
    (numbering : Numbering (server.run scripts).job (server.run scripts).seq number)
    (counter : (server.run scripts).seq < 2 ^ 63) (args : ReserveArgs)
    (unbounded : args.max = 0) (priority : Nat)
    (unserved : Unserved (server.run scripts) args.lane priority) :
    ReservesFirst (server.run scripts) number args ↔
      ToldApart (server.run scripts) number args := by
  have indexed := (running scripts fresh).indexed
  have scores : Scored (server.run scripts) args.lane := by
    intro id hash found lane
    have never := (unserved id hash found lane).2
    rw [JobHash.score, JobHash.dueAt, (waiting_run scripts).unheld id hash found never]
    rfl
  have unseen := indexed.reserve_eq_none unbounded
  constructor
  · rintro (⟨first, firstHash, due, handed⟩ | ⟨_, nothing⟩)
    · left
      obtain ⟨id, hash, foremost, given⟩ :=
        indexed.reserve_foremost unbounded unserved due.found due.lane (due.visible scores)
      cases Option.some.inj (handed.receipt.symm.trans given.receipt)
      cases foremost.found.symm.trans due.found
      exact ⟨first, firstHash, due, fun other stored present lane =>
        foremost.not_overtaken numbering counter scores present lane⟩
    · right
      intro id hash found lane
      have late := unseen.mp nothing id hash found lane
      rw [scores id hash found lane] at late
      exact Nat.lt_of_not_le late
  · rintro (⟨first, firstHash, due, kept⟩ | late)
    · left
      obtain ⟨id, hash, foremost, given⟩ :=
        indexed.reserve_foremost unbounded unserved due.found due.lane (due.visible scores)
      have same := foremost.eq_of_firstDue numbering counter scores due
        (kept id hash foremost.found foremost.lane)
      subst same
      cases foremost.found.symm.trans due.found
      exact ⟨first, firstHash, due, given⟩
    · right
      constructor
      · intro id hash found lane
        exact Nat.lt_of_not_le fun due =>
          Nat.not_lt_of_le (Lib.toDouble_mono due) (late id hash found lane)
      · refine unseen.mpr fun id hash found lane => ?_
        rw [scores id hash found lane]
        exact Nat.not_le_of_lt (late id hash found lane)

section TwoJobs

/-- A job with this id, available from this time. -/
def plainJob (id : Nat) (lane : Lane) (availableAt : Nat) : JobArgs :=
  ⟨⟨⟨id⟩⟩, lane, availableAt, [], "", 0⟩

def twoJobs (lane : Lane) (first second : Nat) : List Script :=
  [.enqueue (plainJob 1 lane first), .enqueue (plainJob 2 lane second)]

def twoNumbers (id : Text) : Nat := if id = JobId.toText ⟨⟨1⟩⟩ then 1 else 2

variable (lane : Lane) (first second : Nat)

theorem enqueue_stored {store : Store} {args : JobArgs}
    (absent : store.job args.id.toText = none) (free : args.key.bind store.unique = none) :
    (store.enqueue args).1 = store.storeJob args.id.toText args.hash := by
  simp [Store.enqueue, absent, free]

theorem twoJobs_run : server.run (twoJobs lane first second) =
    (Store.empty.storeJob (JobId.toText ⟨⟨1⟩⟩) (plainJob 1 lane first).hash).storeJob
      (JobId.toText ⟨⟨2⟩⟩) (plainJob 2 lane second).hash := by
  have apart : JobId.toText ⟨⟨2⟩⟩ ≠ JobId.toText ⟨⟨1⟩⟩ := by decide
  have keyless : ∀ id time, (plainJob id lane time).key = none := fun _ _ => rfl
  have one : (Store.empty.enqueue (plainJob 1 lane first)).1 =
      Store.empty.storeJob (JobId.toText ⟨⟨1⟩⟩) (plainJob 1 lane first).hash :=
    enqueue_stored rfl (by rw [keyless]; rfl)
  have absent : (Store.empty.storeJob (JobId.toText ⟨⟨1⟩⟩) (plainJob 1 lane first).hash).job
      (JobId.toText ⟨⟨2⟩⟩) = none := by
    simp only [Store.storeJob, Store.putJob]
    exact Function.update_of_ne apart ..
  change ((Store.empty.enqueue _).1.enqueue _).1 = _
  rw [one]
  exact enqueue_stored absent (by rw [keyless]; rfl)

theorem twoJobs_every {property : Text → JobHash → Prop}
    (one : property (JobId.toText ⟨⟨1⟩⟩) { (plainJob 1 lane first).hash with seq := toDouble 1 })
    (two : property (JobId.toText ⟨⟨2⟩⟩) { (plainJob 2 lane second).hash with seq := toDouble 2 }) :
    Lib.Every (server.run (twoJobs lane first second)).job property := by
  rw [twoJobs_run]
  refine Lib.Every.put (Lib.Every.put ?_ one) two
  intro id hash found
  cases found

theorem twoJobs_numbering : Numbering (server.run (twoJobs lane first second)).job
      (server.run (twoJobs lane first second)).seq twoNumbers := by
  have ones : twoNumbers (JobId.toText ⟨⟨1⟩⟩) = 1 := by decide
  have twos : twoNumbers (JobId.toText ⟨⟨2⟩⟩) = 2 := by decide
  have seq : (server.run (twoJobs lane first second)).seq = 2 := by
    rw [twoJobs_run]
    rfl
  constructor
  · exact twoJobs_every lane first second (by rw [ones]) (by rw [twos])
  · exact twoJobs_every lane first second (by rw [ones, seq]; decide) (by rw [twos, seq])

theorem twoJobs_unserved : Unserved (server.run (twoJobs lane first second)) lane 0 :=
  twoJobs_every lane first second (fun _ => ⟨rfl, rfl⟩) (fun _ => ⟨rfl, rfl⟩)

end TwoJobs

theorem near_times_reserved : let lane : Lane := ⟨"default"⟩
    let scripts := twoJobs lane 9 8
    let args : ReserveArgs := ⟨lane, 9, 40, ⟨⟨7⟩⟩, 0, ⟨0, 0, false⟩⟩
    ReservesFirst (server.run scripts) twoNumbers args ↔
      ToldApart (server.run scripts) twoNumbers args :=
  reserves_first_iff _ (by decide) _ (twoJobs_numbering ..) (by decide) _ rfl 0
    (twoJobs_unserved _ _ _)

/-- A nanosecond apart, past the times that doubles hold exactly: the job that
was enqueued first is handed out although the other one was due before it. -/
theorem later_job_reserved : let lane : Lane := ⟨"default"⟩
    let scripts := twoJobs lane (2 ^ 60 + 1) (2 ^ 60)
    let args : ReserveArgs := ⟨lane, 2 ^ 60 + 1, 2 ^ 60 + 2, ⟨⟨7⟩⟩, 0, ⟨0, 0, false⟩⟩
    FreshReceipts scripts ∧ Numbering (server.run scripts).job (server.run scripts).seq twoNumbers ∧
      (server.run scripts).seq < 2 ^ 63 ∧
      Unserved (server.run scripts) lane 0 ∧
      ¬ ReservesFirst (server.run scripts) twoNumbers args := by
  refine ⟨by decide, twoJobs_numbering .., by decide, twoJobs_unserved _ _ _, ?_⟩
  rintro (⟨id, hash, due, handed⟩ | ⟨_, nothing⟩)
  · have one : ((server.run (twoJobs ⟨"default"⟩ (2 ^ 60 + 1) (2 ^ 60))).reserve
        ⟨⟨"default"⟩, 2 ^ 60 + 1, 2 ^ 60 + 2, ⟨⟨7⟩⟩, 0, ⟨0, 0, false⟩⟩).1.rcpt ⟨⟨7⟩⟩ =
          some (JobId.toText ⟨⟨1⟩⟩) := by
      decide +kernel
    cases Option.some.inj (handed.receipt.symm.trans one)
    have own : hash.availableAt = 2 ^ 60 + 1 := by
      cases due.found
      rfl
    rcases due.least (JobId.toText ⟨⟨2⟩⟩) _ rfl rfl (Nat.le_succ _) with less | ⟨same, _⟩
    · rw [own] at less
      exact absurd less (by decide)
    · rw [own] at same
      exact absurd same (by decide)
  · exact absurd nothing (by decide +kernel)

end Worklane.Redis
