import Worklane.Core.Spi
import Worklane.Lib.Threads

/-!
# Opening a SQLite database

`migrate` sends its statements one by one, with no transaction around them, so
processes that open one database at the same time interleave, and each of
them may stop half way.
-/

namespace Worklane.Sqlite.Schema

open List
open Lib (Program Event own)
open Lib.Program

/-- The tables and indexes of the baseline. -/
inductive Item where
  | jobs | dead | uniqueKeys | results | schedules
  | jobsReserve | jobsId | jobsReceipt | deadId | deadLane
  deriving DecidableEq, Repr

def baseline : List Item :=
  [.jobs, .dead, .uniqueKeys, .results, .schedules, .jobsReserve, .jobsId, .jobsReceipt, .deadId,
    .deadLane]

def schemaVersion : Int64 := 1

inductive SchemaVersionCheck where
  | fresh
  | same
  | mismatch (found : Int64)

def checkSchemaVersion : Option Int64 → SchemaVersionCheck
  | none => .fresh
  | some found => if found = schemaVersion then .same else .mismatch found

inductive Op where
  | userVersion
  | create (item : Item)
  | stamp (version : Int64)

abbrev Op.Value : Op → Type
  | .userVersion => Int64
  | _ => Unit

abbrev Op.Answer (op : Op) : Type := Except Error op.Value

def mismatchText (found : Int64) : String :=
  s!"sqlite storage schema version {found} is not the supported baseline {schemaVersion}; worklane is pre-1.0 and does not migrate between schema generations — drop and recreate the database"

/-- The loop over `BASELINE`, then the version. -/
def createAll : List Item → Program Op Op.Answer (Except Error Unit)
  | [] => .act (.stamp schemaVersion) .done
  | item :: rest => .act (.create item) fun
    | .error failure => .done (.error failure)
    | .ok _ => createAll rest

def migrate : Program Op Op.Answer (Except Error Unit) :=
  .act .userVersion fun
    | .error failure => .done (.error failure)
    | .ok version =>
      match checkSchemaVersion (if version ≠ 0 then some version else none) with
      | .fresh => createAll baseline
      | .same => .done (.ok ())
      | .mismatch found => .done (.error (.broker (mismatchText found)))

structure Database where
  userVersion : Int64
  items : List Item

/-- A database that carries the version has the whole baseline. -/
def Database.Sound (db : Database) : Prop :=
  db.userVersion = schemaVersion → ∀ item ∈ baseline, item ∈ db.items

/-- A statement may fail, for want of a table or a lock; then it changes
nothing. -/
def answers (db : Database) : (op : Op) → op.Answer → Database → Prop
  | _, .error _, next => next = db
  | .userVersion, .ok found, next => found = db.userVersion ∧ next = db
  | .create item, .ok _, next => next = { db with items := db.items.insert item }
  | .stamp version, .ok _, next => next = { db with userVersion := version }

/-- Processes that open one database. -/
def system (start : Database) : Lib.System Unit Op Op.Answer (Except Error Unit) Database where
  body := fun _ => migrate
  initial := start
  answers := fun _ => answers

abbrev Past := List (Step Op Op.Answer)

/-- When `migrate` sends a statement. -/
def law (past : Past) : Op → Prop
  | .userVersion => True
  | .create _ => ⟨.userVersion, .ok 0⟩ ∈ past
  | .stamp version => version = schemaVersion ∧ ⟨.userVersion, .ok 0⟩ ∈ past ∧
      ∀ item ∈ baseline, ⟨.create item, .ok ()⟩ ∈ past

/-- What has happened when `migrate` returns. -/
def post (result : Except Error Unit) (past : Past) : Prop :=
  result = .ok () → ⟨.userVersion, .ok schemaVersion⟩ ∈ past ∨
    ⟨.stamp schemaVersion, .ok ()⟩ ∈ past

/-- What a statement of the log says of the database later on. -/
def Fact (start db : Database) : (op : Op) → op.Answer → Prop
  | _, .error _ => True
  | .userVersion, .ok found => found = start.userVersion ∨ found = db.userVersion
  | .create item, .ok _ => item ∈ db.items
  | .stamp version, .ok _ => version = schemaVersion → db.userVersion = schemaVersion

structure Kept (start : Database) (log : List (Event Op Op.Answer)) (db : Database) : Prop where
  facts : ∀ event ∈ log, Fact start db event.op event.answer
  sound : db.Sound
  origin : db = start ∨ start.userVersion = 0 ∧ db.userVersion ∈ [0, schemaVersion]

variable {start db next : Database} {log : List (Event Op Op.Answer)} {thread : Nat}

/-- Only a database without a version is written to. -/
theorem Kept.unset (kept : Kept start log db) (read : ⟨.userVersion, .ok 0⟩ ∈ own thread log) :
    start.userVersion = 0 := by
  rcases kept.origin with rfl | ⟨zero, _⟩
  · exact (kept.facts _ (Lib.mem_own.mp read)).elim Eq.symm Eq.symm
  · exact zero

theorem Fact.mono {op : Op} {answer : op.Answer} (fact : Fact start db op answer)
    (items : ∀ item ∈ db.items, item ∈ next.items)
    (version : db.userVersion = next.userVersion ∨
      db.userVersion = start.userVersion ∧ next.userVersion = schemaVersion) :
    Fact start next op answer := by
  cases op <;> cases answer <;> grind [Fact]

theorem Kept.step (kept : Kept start log db) {op : Op} {answer : op.Answer}
    (lawful : law (own thread log) op) (answered : answers db op answer next) :
    Kept start (log ++ [⟨thread, op, answer⟩]) next := by
  obtain ⟨facts, sound, origin⟩ := kept
  have extended (older : ∀ event ∈ log, Fact start next event.op event.answer)
      (latest : Fact start next op answer) :
      ∀ event ∈ log ++ [⟨thread, op, answer⟩], Fact start next event.op event.answer :=
    forall_mem_append.mpr ⟨older, forall_mem_singleton.mpr latest⟩
  rcases answer with failure | value
  · obtain rfl : next = db := by cases op <;> exact answered
    exact ⟨extended facts (by cases op <;> trivial), sound, origin⟩
  · cases op with
    | userVersion =>
      obtain ⟨rfl, rfl⟩ := answered
      exact ⟨extended facts (Or.inr rfl), sound, origin⟩
    | create item =>
      cases answered
      have zero := Kept.unset ⟨facts, sound, origin⟩ lawful
      have more : ∀ other ∈ db.items, other ∈ db.items.insert item := by simp +contextual
      refine ⟨extended ?_ (by simp [Fact]), ?_, Or.inr ⟨zero, by grind⟩⟩
      · exact fun event member => (facts event member).mono more (Or.inl rfl)
      · exact fun stamped other listed => more other (sound stamped other listed)
    | stamp version =>
      cases answered
      obtain ⟨rfl, read, created⟩ := lawful
      have zero := Kept.unset ⟨facts, sound, origin⟩ read
      refine ⟨extended ?_ (fun _ => rfl), ?_, Or.inr ⟨zero, by simp⟩⟩
      · exact fun event member => (facts event member).mono (fun _ => id) (by grind)
      · exact fun _ item listed => facts _ (Lib.mem_own.mp (created item listed))

end Worklane.Sqlite.Schema
