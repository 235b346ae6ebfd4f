import Worklane.Redis.Store

/-!
# The Lua scripts

Redis runs a script to its end before it does anything else, so a script is one
step on the store.  Every function below is one script of `scripts.rs` with the
arguments of its `ARGV`.  A lane-set member without a job hash does not occur
(`Indexed.hashes`), and the branches that would meet one leave the store alone.

What is added to the source: `fail` and `reserve` also return the records that
`dead_letter_move` wrote.
-/

namespace Worklane.Redis

/-- A dead-lettering: the id and the record written for it. -/
abbrev Burial := Text × DeadHash

/-- The arguments of one job in `ENQUEUE`, `ENQUEUE_BATCH` and
`ENQUEUE_SCHEDULED`; an empty `ukey` is no key. -/
structure JobArgs where
  id : JobId
  lane : Lane
  availableAt : Nat
  env : Blob
  ukey : String
  priority : Nat
  deriving DecidableEq, Repr

def JobArgs.key (args : JobArgs) : Option String :=
  if args.ukey = "" then none else some args.ukey

/-- The hash a new job starts with, before its sequence number is drawn. -/
def JobArgs.hash (args : JobArgs) : JobHash where
  envelope := args.env
  lane := args.lane
  priority := args.priority
  availableAt := args.availableAt
  attempts := 0
  deliveries := 0
  seq := 0
  uniqueKey := args.key
  leasedUntil := none
  receipt := none

/-- `HSET` of a job hash and `ZADD` of its lane member. -/
def Store.putJob (store : Store) (id : Text) (hash : JobHash)
    (level : Lane × Nat) (member : Text) (score : Nat) : Store :=
  { store with
    job := Function.update store.job id (some hash)
    lanes := Function.update store.lanes level ((store.lanes level).zadd score member) }

/-- The block that stores a job: `INCR ns:seq`, the hash, the unique key, the
lane member and `prio_add`. -/
def Store.storeJob (store : Store) (id : Text) (hash : JobHash) : Store :=
  let seq := Lib.toDouble (store.seq + 1)
  let level := (hash.lane, hash.priority)
  { store.putJob id { hash with seq := seq } level (fifoMember seq id)
      (Lib.toDouble hash.availableAt) with
    seq := store.seq + 1
    unique := Lib.assign store.unique hash.uniqueKey (some id)
    prios := Function.update store.prios hash.lane
      ((store.prios hash.lane).zadd hash.priority hash.priority) }

/-- `HGET ns:job:{id} envelope`. -/
def Store.envelopeOf (store : Store) (id : Text) : Option Blob :=
  (store.job id).map JobHash.envelope

/-- `ENQUEUE`: the id is looked up first, then the unique key. -/
def Store.enqueue (store : Store) (args : JobArgs) : Store × Option Blob :=
  let id := args.id.toText
  if (store.job id).isSome then
    (store, store.envelopeOf id)
  else
    match args.key.bind store.unique with
    | some existing => (store, store.envelopeOf existing)
    | none => (store.storeJob id args.hash, some args.env)

/-- `ENQUEUE_BATCH`. -/
def Store.enqueueBatch : Store → List JobArgs → Store × List (Option Blob)
  | store, [] => (store, [])
  | store, args :: rest =>
    let first := store.enqueue args
    let later := enqueueBatch first.1 rest
    (later.1, first.2 :: later.2)

/-- `ENQUEUE_SCHEDULED`: the watermark is compared as text, and once it is
written the job is stored as `ENQUEUE` stores it. -/
def Store.enqueueScheduled (store : Store) (scheduleId : String)
    (occ : Text) (args : JobArgs) : Store × Nat :=
  if (store.schedule scheduleId).any fun current => decide (occ ≤ current)
  then
    (store, 0)
  else
    let claimed :=
      { store with
        schedule := Function.update store.schedule scheduleId (some occ) }
    ((claimed.enqueue args).1, 1)

/-- The arguments of `RESERVE`; a `max` of zero is no delivery bound. -/
structure ReserveArgs where
  lane : Lane
  now : Nat
  leaseUntil : Nat
  receipt : ReservationReceipt
  max : Nat
  bounds : Bounds
  deriving DecidableEq, Repr

/-- The branch of `RESERVE` that hands a job out. -/
def Store.lease (store : Store) (args : ReserveArgs) (priority : Nat)
    (id member : Text) (hash : JobHash) : Store :=
  let leaseUntil := Lib.toDouble args.leaseUntil
  let leased :=
    { hash with
      deliveries := hash.deliveries + 1
      leasedUntil := some leaseUntil
      receipt := some args.receipt }
  { store.putJob id leased (args.lane, priority) member leaseUntil with
    rcpt := Function.update (Lib.assign store.rcpt hash.receipt none) args.receipt (some id) }

/-- How the loop over one priority level ends: a job is handed out, the sweep
cap is reached, or nothing visible is left and so many sweeps are. -/
inductive LevelEnd where
  | handed (envelope : Blob) (attempts : Nat)
  | capped
  | drained (left : Nat)
  deriving DecidableEq, Repr

/-- The `while` loop of `RESERVE` on one level.  The counter is how many jobs
may still be swept. -/
def Store.reserveLevel (args : ReserveArgs) (priority : Nat) :
    Nat → Store → Store × LevelEnd × List Burial
  | 0, store => (store, .capped, [])
  | left + 1, store =>
    match (store.lanes (args.lane, priority)).firstUpTo (Lib.toDouble args.now) with
    | none => (store, .drained (left + 1), [])
    | some entry =>
      let id := fifoId entry.member
      match store.job id with
      | none => (store, .capped, [])
      | some hash =>
        if 0 < args.max ∧ args.max < hash.deliveries + 1 then
          let error := overDeliveredText args.max
          let moved := store.deadLetterMove id hash args.lane priority
            entry.member error (Lib.toDouble args.now) args.bounds
          let record := hash.deadRecord args.lane priority
            entry.member error (Lib.toDouble args.now)
          let rest := reserveLevel args priority left moved
          (rest.1, rest.2.1, (id, record) :: rest.2.2)
        else
          (store.lease args priority id entry.member hash, .handed hash.envelope hash.attempts, [])

/-- The `for` loop of `RESERVE` over the levels that `ZREVRANGE` listed. -/
def Store.reserveLevels (args : ReserveArgs) :
    List Nat → Nat → Store → Store × Option (Blob × Nat) × List Burial
  | [], _, store => (store, none, [])
  | priority :: rest, left, store =>
    if (store.lanes (args.lane, priority)).zcard = 0 then
      reserveLevels args rest left
        { store with
          prios := Function.update store.prios args.lane ((store.prios args.lane).zrem priority) }
    else
      match store.reserveLevel args priority left with
      | (next, .handed envelope attempts, buried) =>
        (next, some (envelope, attempts), buried)
      | (next, .capped, buried) => (next, none, buried)
      | (next, .drained left, buried) =>
        let later := reserveLevels args rest left next
        (later.1, later.2.1, buried ++ later.2.2)

/-- `ZREVRANGE ns:lane:{lane}:prios 0 -1`. -/
def Store.levels (store : Store) (lane : Lane) : List Nat :=
  ((store.prios lane).entries.map Lib.ZEntry.member).reverse

/-- `RESERVE`. -/
def Store.reserve (store : Store) (args : ReserveArgs) :
    Store × Option (Blob × Nat) × List Burial :=
  store.reserveLevels args (store.levels args.lane) maxDeadLetterSweep

/-! ## Resolving a receipt -/

/-- `GUARD`: the job of a receipt that is current and not expired. -/
def Store.guard (store : Store) (receipt : ReservationReceipt)
    (now : Nat) : Option (Text × JobHash) :=
  (store.rcpt receipt).bind fun id =>
    (store.job id).bind fun hash =>
      if hash.receipt = some receipt ∧ hash.leasedUntil.any fun endsAt =>
            decide (Lib.toDouble now < Lib.toDouble endsAt) then
        some (id, hash)
      else
        none

def JobHash.level (hash : JobHash) : Lane × Nat :=
  (hash.lane, hash.priority)

def JobHash.member (hash : JobHash) (id : Text) : Text :=
  fifoMember hash.seq id

/-- The scripts that `GUARD` opens answer 0 when it refuses. -/
def Store.guarded (store : Store) (receipt : ReservationReceipt)
    (now : Nat) (change : Text → JobHash → Store) : Store × Nat :=
  match store.guard receipt now with
  | none => (store, 0)
  | some (id, hash) => (change id hash, 1)

def Store.ack (store : Store) (receipt : ReservationReceipt) (now : Nat) : Store × Nat :=
  store.guarded receipt now fun id hash =>
    store.removeJob id hash hash.level (hash.member id)

/-- The lease is given up and the job scheduled for `availableAt`. -/
def Store.reschedule (store : Store) (receipt : ReservationReceipt)
    (id : Text) (hash : JobHash) (availableAt : Nat) : Store :=
  let free :=
    { hash with
      availableAt := availableAt
      leasedUntil := none
      receipt := none }
  { store.putJob id free hash.level (hash.member id)
      (Lib.toDouble availableAt) with
    rcpt := Function.update store.rcpt receipt none }

def Store.retry (store : Store) (receipt : ReservationReceipt)
    (now availableAt : Nat) : Store × Nat :=
  store.guarded receipt now fun id hash =>
    store.reschedule receipt id { hash with attempts := hash.attempts + 1 } availableAt

def Store.defer (store : Store) (receipt : ReservationReceipt)
    (now availableAt : Nat) : Store × Nat :=
  store.guarded receipt now fun id hash =>
    store.reschedule receipt id hash availableAt

def Store.extend (store : Store) (receipt : ReservationReceipt)
    (now leaseUntil : Nat) : Store × Nat :=
  store.guarded receipt now fun id hash =>
    store.putJob id { hash with leasedUntil := some leaseUntil } hash.level
      (hash.member id) (Lib.toDouble leaseUntil)

def Store.fail (store : Store) (receipt : ReservationReceipt) (now : Nat)
    (error : String) (bounds : Bounds) : Store × Nat :=
  store.guarded receipt now fun id hash =>
    store.deadLetterMove id hash hash.lane hash.priority (hash.member id) error now bounds

/-- The dead-lettering of `fail`. -/
def Store.failBurials (store : Store) (receipt : ReservationReceipt)
    (now : Nat) (error : String) : List Burial :=
  match store.guard receipt now with
  | none => []
  | some (id, hash) =>
    [(id, hash.deadRecord hash.lane hash.priority (hash.member id) error now)]

/-! ## The dead-letter store -/

/-- The live hash a dead record comes back as. -/
def DeadHash.revived (dead : DeadHash) (now : Nat) : JobHash where
  envelope := dead.envelope
  lane := dead.lane
  priority := dead.priority
  availableAt := Lib.toDouble now
  attempts := dead.attempts
  deliveries := 0
  seq := 0
  uniqueKey := dead.uniqueKey
  leasedUntil := none
  receipt := none

/-- The member and the hash of a dead record are deleted. -/
def Store.unbury (store : Store) (id : Text) (dead : DeadHash) : Store :=
  { store with
    dead := Function.update store.dead dead.lane ((store.dead dead.lane).zrem dead.member)
    deadJob := Function.update store.deadJob id none }

/-- `REQUEUE`: 0 without a record, 3 when the id is live, 2 when the key is
held, and 1 when the job is live again. -/
def Store.requeue (store : Store) (jobId : JobId) (now : Nat) : Store × Nat :=
  let id := jobId.toText
  match store.deadJob id with
  | none => (store, 0)
  | some dead =>
    if (store.job id).isSome then
      (store, 3)
    else if (dead.uniqueKey.bind store.unique).isSome then
      (store, 2)
    else
      ((store.storeJob id (dead.revived now)).unbury id dead, 1)

/-- `PURGE_DEAD`. -/
def Store.purgeDead (store : Store) (lane : Lane) : Store × Nat :=
  (store.dropDead lane (store.dead lane).entries ∅, (store.dead lane).zcard)

/-- `PENDING_COUNT`. -/
def Store.pendingCount (store : Store) (lane : Lane) : Nat :=
  ((store.prios lane).entries.map fun entry =>
    (store.lanes (lane, entry.member)).zcard).sum

/-- `CLASSIFY`. -/
def Store.classify (store : Store) (jobId : JobId) : Int :=
  if (store.job jobId.toText).isSome then 1
  else if (store.deadJob jobId.toText).isSome then 2
  else 0

/-! ## Sequences of scripts -/

/-- The scripts that write, with their arguments, and the one `DEL` the broker
sends by itself. -/
inductive Script where
  | enqueue (args : JobArgs)
  | enqueueBatch (batch : List JobArgs)
  | reserve (args : ReserveArgs)
  | ack (receipt : ReservationReceipt) (now : Nat)
  | retry (receipt : ReservationReceipt) (now availableAt : Nat)
  | defer (receipt : ReservationReceipt) (now availableAt : Nat)
  | fail (receipt : ReservationReceipt) (now : Nat) (error : String) (bounds : Bounds)
  | extend (receipt : ReservationReceipt) (now leaseUntil : Nat)
  | requeue (id : JobId) (now : Nat)
  | purgeDead (lane : Lane)
  | enqueueScheduled (scheduleId : String) (occ : Text) (args : JobArgs)
  | delSchedule (scheduleId : String)
  deriving DecidableEq, Repr

def Store.delSchedule (store : Store) (scheduleId : String) : Store :=
  { store with schedule := Function.update store.schedule scheduleId none }

/-- One script, with the dead-letterings it performed. -/
def Store.exec (store : Store) : Script → Store × List Burial
  | .enqueue args => ((store.enqueue args).1, [])
  | .enqueueBatch batch => ((store.enqueueBatch batch).1, [])
  | .reserve args => ((store.reserve args).1, (store.reserve args).2.2)
  | .ack receipt now => ((store.ack receipt now).1, [])
  | .retry receipt now availableAt =>
    ((store.retry receipt now availableAt).1, [])
  | .defer receipt now availableAt =>
    ((store.defer receipt now availableAt).1, [])
  | .fail receipt now error bounds =>
    ((store.fail receipt now error bounds).1, store.failBurials receipt now error)
  | .extend receipt now leaseUntil =>
    ((store.extend receipt now leaseUntil).1, [])
  | .requeue id now => ((store.requeue id now).1, [])
  | .purgeDead lane => ((store.purgeDead lane).1, [])
  | .enqueueScheduled scheduleId occ args =>
    ((store.enqueueScheduled scheduleId occ args).1, [])
  | .delSchedule scheduleId => (store.delSchedule scheduleId, [])

/-- The server that runs the scripts one after the other. -/
def server : Lib.Machine Store Script (List Burial) where
  initial := Store.empty
  step := Store.exec

/-- The receipt a script brings along. -/
def Script.minted : Script → List ReservationReceipt
  | .reserve args => [args.receipt]
  | _ => []

/-- The jobs a script brings along. -/
def Script.jobs : Script → List JobArgs
  | .enqueue args => [args]
  | .enqueueBatch batch => batch
  | .enqueueScheduled _ _ args => [args]
  | _ => []

def receipts (scripts : List Script) : List ReservationReceipt :=
  scripts.flatMap Script.minted

/-- No two `RESERVE` scripts carry one receipt. -/
def FreshReceipts (scripts : List Script) : Prop := (receipts scripts).Nodup

instance (scripts : List Script) : Decidable (FreshReceipts scripts) :=
  inferInstanceAs (Decidable (receipts scripts).Nodup)

@[simp]
theorem receipts_concat (past : List Script) (script : Script) :
    receipts (past ++ [script]) = receipts past ++ script.minted := by
  simp [receipts]

theorem freshReceipts_past : Lib.Machine.PrefixClosed FreshReceipts := by
  intro past script fresh
  rw [FreshReceipts, receipts_concat] at fresh
  exact (List.nodup_append.mp fresh).1

end Worklane.Redis
