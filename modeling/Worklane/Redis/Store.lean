import Mathlib.Data.Char
import Mathlib.Data.List.Lex
import Worklane.Core.Broker
import Worklane.Lib.Index
import Worklane.Lib.Rounding
import Worklane.Lib.ZSet

/-!
# The Redis key space

The keys of one namespace, family by family.  Lanes and schedule ids reach a
script only after `lane_key_segment` and `checked_key_segment`, so the families
`ns:lane:{lane}:p:{priority}`, `ns:dead:{lane}`, `ns:dead:job:{id}`, ... do not
overlap and each is a function of what its key is made from.

A number that a script passes through Lua is a double (`Lib.toDouble`); an
argument that is written as it came stays the integer it was.
-/

namespace Worklane.Redis

abbrev Text := List Char

/-- The hash `ns:job:{id}`. -/
structure JobHash where
  envelope : Blob
  lane : Lane
  priority : Nat
  availableAt : Nat
  attempts : Nat
  deliveries : Nat
  seq : Nat
  uniqueKey : Option String
  leasedUntil : Option Nat
  receipt : Option ReservationReceipt
  deriving DecidableEq, Repr

/-- The hash `ns:dead:job:{id}`. -/
structure DeadHash where
  envelope : Blob
  error : String
  lane : Lane
  priority : Nat
  attempts : Nat
  deadAt : Nat
  member : Text
  uniqueKey : Option String
  deriving DecidableEq, Repr

/-- `ns:lane:{lane}:p:{priority}` is `lanes (lane, priority)` and
`ns:lane:{lane}:prios` is `prios lane`. -/
structure Store where
  job : Text → Option JobHash
  lanes : Lane × Nat → Lib.ZSet Text
  prios : Lane → Lib.ZSet Nat
  rcpt : ReservationReceipt → Option Text
  unique : String → Option Text
  dead : Lane → Lib.ZSet Text
  deadJob : Text → Option DeadHash
  seq : Nat
  schedule : String → Option Text

/-- A namespace nothing was written to. -/
def Store.empty : Store where
  job := fun _ => none
  lanes := fun _ => ∅
  prios := fun _ => ∅
  rcpt := fun _ => none
  unique := fun _ => none
  dead := fun _ => ∅
  deadJob := fun _ => none
  seq := 0
  schedule := fun _ => none

/-! ## The Lua helpers -/

/-- `fifo_member`: the sequence number to twenty digits, which hold every
value of the 64-bit counter, and the id. -/
def fifoMember (seq : Nat) (id : Text) : Text :=
  Lib.fixedText 10 20 seq ++ ':' :: id

/-- `fifo_id`: what follows the digits and the colon. -/
def fifoId (member : Text) : Text :=
  (member.dropWhile Char.isDigit).drop 1

@[simp]
theorem fifoId_fifoMember (seq : Nat) (id : Text) : fifoId (fifoMember seq id) = id := by
  have digits : ∀ char ∈ Lib.fixedText 10 20 seq, char.isDigit = true := by
    intro char member
    obtain ⟨digit, inside, rfl⟩ := List.mem_map.mp member
    exact Lib.digitChar_isDigit (Lib.fixedDigits_lt (by decide) inside)
  unfold fifoId fifoMember
  rw [List.dropWhile_append_of_pos digits]
  rfl

theorem id_eq_of_fifoMember {seq other : Nat} {id otherId : Text}
    (same : fifoMember seq id = fifoMember other otherId) :
    id = otherId := by
  have ids := congrArg fifoId same
  rwa [fifoId_fifoMember, fifoId_fifoMember] at ids

theorem fifoMember_lt {seq seq' : Nat} (less : seq < seq') (fits : seq' < 10 ^ 20) (id id' : Text) :
    fifoMember seq id < fifoMember seq' id' := by
  apply Lib.append_lt_append
  · rw [Lib.fixedText_length, Lib.fixedText_length]
  · exact (Lib.fixedText_lt_iff (by decide) (by decide) (Nat.lt_trans less fits) fits).mpr less

/-- `DEL` of every key in a list. -/
def del {Value : Type} (index : Text → Option Value) (ids : List Text) : Text → Option Value :=
  fun id => if id ∈ ids then none else index id

/-- The number a Lua number is read back as after `..` wrote it: `%.14g`. -/
def throughText (number : Nat) : Nat :=
  Lib.toDouble (Lib.roundDigits 10 14 (Lib.toDouble number))

/-- The retention arguments of `fail` and `reserve`: a count of zero means no
bound, and `ageCutoff` is read only when `hasAgeBound` is set. -/
structure Bounds where
  maxCount : Nat
  ageCutoff : Int
  hasAgeBound : Bool
  deriving DecidableEq, Repr

/-- Whether a dead record lies below the age cutoff. -/
def Bounds.aged (bounds : Bounds) (entry : Lib.ZEntry Text) : Bool :=
  decide ((entry.score : Int) < bounds.ageCutoff.sign * (throughText bounds.ageCutoff.natAbs : Int))

/-- `ns:dead:{lane}` shrinks to `kept` and the hashes of the entries that went
are deleted. -/
def Store.dropDead (store : Store) (lane : Lane)
    (gone : List (Lib.ZEntry Text)) (kept : Lib.ZSet Text) : Store :=
  { store with
    dead := Function.update store.dead lane kept
    deadJob := del store.deadJob (gone.map fun entry => fifoId entry.member) }

/-- The age half of the pruning in `dead_letter_move`. -/
def Store.pruneByAge (store : Store) (lane : Lane) (bounds : Bounds) :
    Store :=
  if bounds.hasAgeBound then
    store.dropDead lane ((store.dead lane).entries.filter bounds.aged)
      ((store.dead lane).keep fun entry => !bounds.aged entry)
  else
    store

/-- The count half. -/
def Store.pruneByCount (store : Store) (lane : Lane) (bounds : Bounds) :
    Store :=
  let excess := (store.dead lane).zcard - Lib.toDouble bounds.maxCount
  if 0 < bounds.maxCount ∧ 0 < excess then
    store.dropDead lane ((store.dead lane).entries.take excess) ((store.dead lane).dropFirst excess)
  else
    store

/-- What `dead_letter_move` writes down about a job. -/
def JobHash.deadRecord (hash : JobHash) (lane : Lane) (priority : Nat)
    (member : Text) (error : String) (deadAt : Nat) : DeadHash where
  envelope := hash.envelope
  error := error
  lane := lane
  priority := priority
  attempts := hash.attempts
  deadAt := deadAt
  member := member
  uniqueKey := hash.uniqueKey

/-- `HSET` of a dead record.  The field `unique_key` is written only when
there is a key, so that of an earlier record stays. -/
def DeadHash.over (record : DeadHash) (old : Option DeadHash) : DeadHash :=
  { record with
    uniqueKey := record.uniqueKey <|> old.bind DeadHash.uniqueKey }

/-- The keys of a live job are freed: unique key, lane member, receipt and
hash. -/
def Store.removeJob (store : Store) (id : Text) (hash : JobHash)
    (level : Lane × Nat) (member : Text) : Store :=
  { store with
    unique := Lib.assign store.unique hash.uniqueKey none
    lanes := Function.update store.lanes level ((store.lanes level).zrem member)
    rcpt := Lib.assign store.rcpt hash.receipt none
    job := Function.update store.job id none }

/-- A record and its member enter the dead-letter store of the lane. -/
def Store.bury (store : Store) (id : Text) (record : DeadHash) : Store :=
  { store with
    dead := Function.update store.dead record.lane
      ((store.dead record.lane).zadd (Lib.toDouble record.deadAt) record.member)
    deadJob := Function.update store.deadJob id (some (record.over (store.deadJob id))) }

/-- `dead_letter_move`, for the hash of `ns:job:{id}`. -/
def Store.deadLetterMove (store : Store) (id : Text) (hash : JobHash)
    (lane : Lane) (priority : Nat) (member : Text) (error : String)
    (deadAt : Nat) (bounds : Bounds) : Store :=
  let record := hash.deadRecord lane priority member error deadAt
  let moved := (store.bury id record).removeJob id hash (lane, priority) member
  (moved.pruneByAge lane bounds).pruneByCount lane bounds

end Worklane.Redis
