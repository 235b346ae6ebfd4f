import Mathlib.Logic.Function.Basic
import Mathlib.Tactic.Common

/-!
# Scripts over a key space

A server keeps one value a key: a string, a hash or a sorted set.  A script is
a sequence of commands that runs alone; a command on a value of another kind
raises an error, which ends the script and undoes nothing.

A script that does not touch a key runs the same whatever is stored there
(`Ignores`).
-/

namespace Lib

abbrev Bytes := List UInt8

/-- What a key holds. -/
inductive Stored (Score : Type) where
  | string (bytes : Bytes)
  | hash (fields : Bytes → Option Bytes)
  | zset (scores : Bytes → Option Score)

/-- The errors that end a script. -/
inductive Fault where
  | wrongType
  | notInteger
  | notFloat
  /-- The script used a number that is none. -/
  | noNumber
  deriving DecidableEq, Repr

abbrev Keyspace (Score : Type) := Bytes → Option (Stored Score)

/-- A script that returns an `α`. -/
abbrev Script (Score α : Type) := ExceptT Fault (StateM (Keyspace Score)) α

namespace Script

variable {Score α β : Type}

/-- What a script returns from a key space, and what it leaves there. -/
def apply (script : Script Score α) (keys : Keyspace Score) : Except Fault α × Keyspace Score :=
  script.run.run keys

@[simp]
theorem apply_pure (value : α) (keys : Keyspace Score) :
    apply (pure value : Script Score α) keys = (.ok value, keys) := rfl

theorem apply_bind (first : Script Score α) (next : α → Script Score β) (keys : Keyspace Score) :
    apply (first >>= next) keys = match apply first keys with
      | (.ok value, later) => apply (next value) later
      | (.error fault, later) => (.error fault, later) := by
  change (first >>= next).run.run keys = _
  simp only [ExceptT.run_bind, StateT.run_bind, apply]
  cases first.run.run keys with
  | mk result later =>
    cases result with
    | ok value => rfl
    | error fault => rfl

/-! ## Commands -/

/-- A command: what it returns and what it writes. -/
def command (run : Keyspace Score → Except Fault α × Keyspace Score) :
    Script Score α :=
  run

@[simp]
theorem apply_command (run : Keyspace Score → Except Fault α × Keyspace Score)
    (keys : Keyspace Score) : apply (command run) keys = run keys := rfl

section Commands

variable (key : Bytes)

/-- A command on one key: from what is stored there, the answer and what is
stored then. -/
def onKey (act : Option (Stored Score) → Except Fault α × Option (Stored Score)) :
    Script Score α :=
  command fun keys =>
    ((act (keys key)).1, Function.update keys key (act (keys key)).2)

/-- `EXISTS`. -/
def existsKey : Script Score Bool :=
  onKey key fun stored => (.ok stored.isSome, stored)

/-- `GET`. -/
def get : Script Score (Option Bytes) :=
  onKey key fun stored =>
    match stored with
    | none => (.ok none, stored)
    | some (.string bytes) => (.ok (some bytes), stored)
    | some _ => (.error .wrongType, stored)

/-- `SET`. -/
def set (bytes : Bytes) : Script Score Unit :=
  onKey key fun _ => (.ok (), some (.string bytes))

/-- `HGET`. -/
def hget (field : Bytes) : Script Score (Option Bytes) :=
  onKey key fun stored =>
    match stored with
    | none => (.ok none, stored)
    | some (.hash fields) => (.ok (fields field), stored)
    | some _ => (.error .wrongType, stored)

/-- The fields of a hash after `HSET`, from the first to the last. -/
def setFields (entries : List (Bytes × Bytes))
    (fields : Bytes → Option Bytes) : Bytes → Option Bytes :=
  entries.foldl (fun fields entry =>
    Function.update fields entry.1 (some entry.2)) fields

/-- `HSET`. -/
def hset (entries : List (Bytes × Bytes)) : Script Score Unit :=
  onKey key fun stored =>
    match stored with
    | none => (.ok (), some (.hash (setFields entries fun _ => none)))
    | some (.hash fields) => (.ok (), some (.hash (setFields entries fields)))
    | some _ => (.error .wrongType, stored)

/-- `INCR`, for a reading and a printing of the integers it counts. -/
def incr (read : Bytes → Option Int) (print : Int → Bytes) :
    Script Score Int :=
  onKey key fun stored =>
    match stored with
    | none => (.ok 1, some (.string (print 1)))
    | some (.string bytes) =>
      match read bytes with
      | some count => (.ok (count + 1), some (.string (print (count + 1))))
      | none => (.error .notInteger, stored)
    | some _ => (.error .wrongType, stored)

/-- `ZADD` of one member, for a reading of scores. -/
def zadd (read : Bytes → Option Score) (score member : Bytes) :
    Script Score Unit :=
  onKey key fun stored =>
    match read score with
    | none => (.error .notFloat, stored)
    | some value =>
      match stored with
      | none =>
        (.ok (), some (.zset (Function.update (fun _ => none) member (some value))))
      | some (.zset scores) =>
        (.ok (), some (.zset (Function.update scores member (some value))))
      | some _ => (.error .wrongType, stored)

end Commands

/-- A number the script needs. -/
def need (number : Option α) : Script Score α :=
  match number with
  | some value => pure value
  | none => throw .noNumber

/-! ## Scripts that do not touch a key -/

/-- The script runs the same whatever this key holds, and leaves it alone. -/
def Ignores (key : Bytes) (script : Script Score α) : Prop :=
  ∀ keys stored, apply script (Function.update keys key stored) =
    ((apply script keys).1, Function.update (apply script keys).2 key stored)

section Ignores

variable {key : Bytes}

theorem ignores_pure (value : α) : Ignores key (pure value : Script Score α) :=
  fun _ _ => rfl

theorem ignores_need (number : Option α) : Ignores key (need number : Script Score α) := by
  cases number with
  | none => exact fun _ _ => rfl
  | some value => exact fun _ _ => rfl

theorem ignores_bind {first : Script Score α} {next : α → Script Score β}
    (early : Ignores key first) (late : ∀ value, Ignores key (next value)) :
    Ignores key (first >>= next) := by
  intro keys stored
  rw [apply_bind, apply_bind, early keys stored]
  obtain ⟨result, later⟩ := apply first keys
  cases result with
  | ok value => exact late value later stored
  | error fault => rfl

theorem ignores_onKey {other : Bytes} (apart : other ≠ key)
    (act : Option (Stored Score) → Except Fault α × Option (Stored Score)) :
    Ignores key (onKey other act) := by
  intro keys stored
  simp only [onKey, apply_command, Function.update_of_ne apart]
  rw [Function.update_comm apart]

theorem ignores_hget {other : Bytes} (apart : other ≠ key) (field : Bytes) :
    Ignores key (hget other field : Script Score (Option Bytes)) :=
  ignores_onKey apart _

theorem ignores_zadd {other : Bytes} (apart : other ≠ key)
    (read : Bytes → Option Score) (score member : Bytes) :
    Ignores key (zadd other read score member) :=
  ignores_onKey apart _

end Ignores

end Script

end Lib
