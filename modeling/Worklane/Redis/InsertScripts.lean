import Mathlib.Data.List.GetD
import Worklane.Lib.Codec
import Worklane.Lib.Keyspace

/-!
# The insert scripts, command by command

`ENQUEUE`, `ENQUEUE_BATCH` and `ENQUEUE_SCHEDULED` as they stand in
`scripts.rs`: each with its own layout of `ARGV`, its own control flow and its
own copy of the insert.  The key space is any key space, whatever its keys
hold.

What Lua and Redis make of numbers is a parameter.  `ENQUEUE` reads the
priority as a number and prints it again, `ENQUEUE_BATCH` passes the text on;
the one assumption is that the 256 priorities are printed as they were read.
-/

namespace Worklane.Redis.Lua

open List
open Lib (Bytes Fault Keyspace Script)
open Lib.Format (number utf8)
open Lib.Script (existsKey hget hset incr need zadd)

/-- A number in decimal. -/
abbrev decimal (value : Nat) : Bytes := number.print value

/-- The numbers of Lua and the scores and counters of Redis. -/
structure Runtime where
  Number : Type
  Score : Type
  /-- `tonumber` of a string. -/
  toNumber : Bytes → Option Number
  /-- A number as an argument of `redis.call`. -/
  argument : Number → Bytes
  /-- A number that `..` joins to a string. -/
  concat : Number → Bytes
  /-- `string.format('%020d', number)`. -/
  padded : Number → Bytes
  /-- An integer reply. -/
  ofReply : Int → Number
  /-- The counter that `INCR` can count up. -/
  readInteger : Bytes → Option Int
  printInteger : Int → Bytes
  readScore : Bytes → Option Score
  /-- Priorities are printed as they were read. -/
  priorities : ∀ level < 256, ∃ value, toNumber (decimal level) = some value ∧
    argument value = decimal level ∧ concat value = decimal level

section Scripts

variable (runtime : Runtime)

/-- `ARGV[index]`. -/
def argAt (argv : List Bytes) (index : Nat) : Bytes :=
  argv.getD (index - 1) []

def jobKey (ns id : Bytes) : Bytes := ns ++ utf8 ":job:" ++ id

def uniqueKey (ns ukey : Bytes) : Bytes := ns ++ utf8 ":unique:" ++ ukey

def seqKey (ns : Bytes) : Bytes := ns ++ utf8 ":seq"

def laneKey (ns lane : Bytes) (priority : Bytes) : Bytes :=
  ns ++ utf8 ":lane:" ++ lane ++ utf8 ":p:" ++ priority

def priosKey (ns lane : Bytes) : Bytes :=
  ns ++ utf8 ":lane:" ++ lane ++ utf8 ":prios"

/-- `fifo_member`. -/
def fifoMember (seq : runtime.Number) (id : Bytes) : Bytes :=
  runtime.padded seq ++ utf8 ":" ++ id

/-- `INCR ns:seq`. -/
def nextSeq (ns : Bytes) : Script runtime.Score runtime.Number := do
  let count ← incr (seqKey ns) runtime.readInteger runtime.printInteger
  return runtime.ofReply count

/-- `ZADD` with a number for a score. -/
def zaddNumber (key : Bytes) (score : runtime.Number) (member : Bytes) :
    Script runtime.Score Unit :=
  zadd key runtime.readScore (runtime.argument score) member

/-- `prio_add` of a number. -/
def prioAdd (ns lane : Bytes) (priority : runtime.Number) : Script runtime.Score Unit :=
  zaddNumber runtime (priosKey ns lane) priority (runtime.argument priority)

/-- `prio_add` of a text. -/
def prioAddText (ns lane priority : Bytes) : Script runtime.Score Unit := do
  let score ← need (runtime.toNumber priority)
  zaddNumber runtime (priosKey ns lane) score priority

/-- `ENQUEUE`. -/
def enqueue (argv : List Bytes) : Script runtime.Score (Option Bytes) := do
  let ns := argAt argv 1
  let id := argAt argv 2
  let lane := argAt argv 3
  let availableAt := argAt argv 4
  let env := argAt argv 5
  let ukey := argAt argv 6
  let priority ← need (runtime.toNumber (argAt argv 7))
  if ← existsKey (jobKey ns id) then
    return ← hget (jobKey ns id) (utf8 "envelope")
  if ukey ≠ [] then
    if let some existing := ← Script.get (uniqueKey ns ukey) then
      return ← hget (jobKey ns existing) (utf8 "envelope")
  let job := jobKey ns id
  let seq ← nextSeq runtime ns
  hset job [(utf8 "envelope", env), (utf8 "lane", lane),
      (utf8 "priority", runtime.argument priority),
      (utf8 "available_at", availableAt), (utf8 "attempts", decimal 0),
      (utf8 "deliveries", decimal 0), (utf8 "seq", runtime.argument seq)]
  if ukey ≠ [] then
    hset job [(utf8 "unique_key", ukey)]
    Script.set (uniqueKey ns ukey) id
  let score ← need (runtime.toNumber availableAt)
  zaddNumber runtime (laneKey ns lane (runtime.concat priority)) score (fifoMember runtime seq id)
  prioAdd runtime ns lane priority
  return some env

/-- One round of the loop of `ENQUEUE_BATCH`: what it puts into `results`. -/
def enqueueBatchRound (argv : List Bytes) (i : Nat) : Script runtime.Score (Option Bytes) := do
  let ns := argAt argv 1
  let offset := 2 + i * 6
  let id := argAt argv offset
  let lane := argAt argv (offset + 1)
  let availableAt := argAt argv (offset + 2)
  let env := argAt argv (offset + 3)
  let ukey := argAt argv (offset + 4)
  let priority := argAt argv (offset + 5)
  let mut result := none
  let mut skip := false
  if ← existsKey (jobKey ns id) then
    result ← hget (jobKey ns id) (utf8 "envelope")
    skip := true
  if !skip && ukey ≠ [] then
    if let some existing := ← Script.get (uniqueKey ns ukey) then
      result ← hget (jobKey ns existing) (utf8 "envelope")
      skip := true
  if !skip then
    let job := jobKey ns id
    let seq ← nextSeq runtime ns
    hset job [(utf8 "envelope", env), (utf8 "lane", lane),
        (utf8 "priority", priority), (utf8 "available_at", availableAt),
        (utf8 "attempts", decimal 0), (utf8 "deliveries", decimal 0),
        (utf8 "seq", runtime.argument seq)]
    if ukey ≠ [] then
      hset job [(utf8 "unique_key", ukey)]
      Script.set (uniqueKey ns ukey) id
    let score ← need (runtime.toNumber availableAt)
    zaddNumber runtime (laneKey ns lane priority) score (fifoMember runtime seq id)
    prioAddText runtime ns lane priority
    result := some env
  return result

/-- `ENQUEUE_BATCH`. -/
def enqueueBatch (argv : List Bytes) : Script runtime.Score (List (Option Bytes)) :=
  let count := (argv.length - 1) / 6
  (List.range count).mapM (enqueueBatchRound runtime argv)

/-- `ENQUEUE_SCHEDULED` from where it has written its claim. -/
def storeScheduled (argv : List Bytes) : Script runtime.Score Nat := do
  let ns := argAt argv 2
  let id := argAt argv 3
  let lane := argAt argv 4
  let availableAt := argAt argv 5
  let env := argAt argv 6
  let ukey := argAt argv 7
  let priority ← need (runtime.toNumber (argAt argv 8))
  if ← existsKey (jobKey ns id) then
    return 1
  if ukey ≠ [] then
    let existing ← Script.get (uniqueKey ns ukey)
    if existing.isNone then
      let job := jobKey ns id
      let seq ← nextSeq runtime ns
      hset job [(utf8 "envelope", env), (utf8 "lane", lane),
          (utf8 "priority", runtime.argument priority),
          (utf8 "available_at", availableAt), (utf8 "attempts", decimal 0),
          (utf8 "deliveries", decimal 0),
          (utf8 "seq", runtime.argument seq)]
      hset job [(utf8 "unique_key", ukey)]
      Script.set (uniqueKey ns ukey) id
      let score ← need (runtime.toNumber availableAt)
      zaddNumber runtime (laneKey ns lane (runtime.concat priority)) score
        (fifoMember runtime seq id)
      prioAdd runtime ns lane priority
  else
    let job := jobKey ns id
    let seq ← nextSeq runtime ns
    hset job [(utf8 "envelope", env), (utf8 "lane", lane),
        (utf8 "priority", runtime.argument priority),
        (utf8 "available_at", availableAt), (utf8 "attempts", decimal 0),
        (utf8 "deliveries", decimal 0), (utf8 "seq", runtime.argument seq)]
    let score ← need (runtime.toNumber availableAt)
    zaddNumber runtime (laneKey ns lane (runtime.concat priority)) score (fifoMember runtime seq id)
    prioAdd runtime ns lane priority
  return 1

/-- `ENQUEUE_SCHEDULED`. -/
def enqueueScheduled (key : Bytes) (argv : List Bytes) : Script runtime.Score Nat := do
  let occ := argAt argv 1
  if let some current := ← Script.get key then
    if occ ≤ current then
      return 0
  Script.set key occ
  storeScheduled runtime argv

end Scripts

/-! ## The arguments -/

/-- A job as the broker passes it on. -/
structure JobText where
  id : Bytes
  lane : Bytes
  availableAt : Bytes
  env : Bytes
  ukey : Bytes
  priority : UInt8

/-- The six arguments of a job. -/
def JobText.args (job : JobText) : List Bytes :=
  [job.id, job.lane, job.availableAt, job.env, job.ukey, decimal job.priority.toNat]

/-- `ARGV` of `ENQUEUE`. -/
def enqueueArgv (ns : Bytes) (job : JobText) : List Bytes := ns :: job.args

/-- `ARGV` of `ENQUEUE_BATCH`. -/
def enqueueBatchArgv (ns : Bytes) (jobs : List JobText) : List Bytes :=
  ns :: jobs.flatMap JobText.args

/-- `ARGV` of `ENQUEUE_SCHEDULED`. -/
def enqueueScheduledArgv (occ ns : Bytes) (job : JobText) : List Bytes :=
  occ :: ns :: job.args

/-- `KEYS[1]` of `ENQUEUE_SCHEDULED`. -/
def scheduleKey (ns scheduleId : Bytes) : Bytes :=
  ns ++ utf8 ":schedule:" ++ scheduleId

/-! ## The batch -/

theorem getD_flatMap_args {jobs : List JobText} {job : JobText} {i : Nat}
    (found : jobs[i]? = some job) (place : Nat) (within : place < 6) :
    (jobs.flatMap JobText.args).getD (i * 6 + place) [] = job.args.getD place [] := by
  induction jobs generalizing i with
  | nil => cases found
  | cons first rest ih =>
    have six : first.args.length = 6 := rfl
    rw [flatMap_cons]
    cases i with
    | zero =>
      cases found
      rw [Nat.zero_mul, Nat.zero_add, getD_append _ _ _ _ (by rw [six]; exact within)]
    | succ i =>
      rw [getD_append_right _ _ _ _ (by rw [six]; omega), six,
        show (i + 1) * 6 + place - 6 = i * 6 + place by omega]
      exact ih found

theorem argAt_batch {ns : Bytes} {jobs : List JobText} {job : JobText}
    {i : Nat} (found : jobs[i]? = some job) (place : Nat)
    (within : place < 6) :
    argAt (enqueueBatchArgv ns jobs) (2 + i * 6 + place) = job.args.getD place [] := by
  rw [argAt, show 2 + i * 6 + place - 1 = (i * 6 + place) + 1 by omega,
    enqueueBatchArgv, getD_cons_succ]
  exact getD_flatMap_args found place within

section Agreement

variable (runtime : Runtime)

theorem round_eq_enqueue {ns : Bytes} {jobs : List JobText} {job : JobText}
    {i : Nat} (found : jobs[i]? = some job) :
    enqueueBatchRound runtime (enqueueBatchArgv ns jobs) i =
      enqueue runtime (enqueueArgv ns job) := by
  obtain ⟨value, read, argument, concat⟩ :=
    runtime.priorities job.priority.toNat job.priority.toNat_lt
  have first : argAt (enqueueBatchArgv ns jobs) (2 + i * 6) = job.id :=
    argAt_batch found 0 (by decide)
  have last : argAt (enqueueArgv ns job) 7 = decimal job.priority.toNat := rfl
  simp only [enqueueBatchRound, first, argAt_batch found 1 (by decide),
    argAt_batch found 2 (by decide), argAt_batch found 3 (by decide),
    argAt_batch found 4 (by decide), argAt_batch found 5 (by decide),
    enqueue, last, read, need, pure_bind]
  refine bind_congr fun live => ?_
  cases live with
  | true => exact bind_pure _
  | false =>
    have priority : job.args.getD 5 [] = decimal job.priority.toNat := rfl
    simp only [Bool.not_false, Bool.true_and, decide_eq_true_eq, if_true,
      Bool.false_eq_true, if_false, priority, prioAdd, prioAddText, read,
      need, pure_bind, argument, concat]
    by_cases keyed : job.ukey ≠ []
    · refine (if_pos keyed).trans (Eq.trans ?_ (if_pos keyed).symm)
      refine bind_congr fun holder => ?_
      cases holder with
      | none => rfl
      | some existing => exact bind_pure _
    · exact (if_neg keyed).trans (if_neg keyed).symm

theorem length_args (jobs : List JobText) :
    (jobs.flatMap JobText.args).length = jobs.length * 6 := by
  induction jobs with
  | nil => rfl
  | cons job rest ih =>
    have six : job.args.length = 6 := rfl
    rw [flatMap_cons, length_append, ih, six, length_cons]
    omega

theorem mapM_range {Score α β : Type} {items : List α}
    {read : Nat → Script Score β} {each : α → Script Score β}
    (same : ∀ i item, items[i]? = some item → read i = each item) :
    (List.range items.length).mapM read = items.mapM each := by
  induction items generalizing read with
  | nil => rfl
  | cons item rest ih =>
    have later := @ih (read ∘ Nat.succ) fun i other found => same (i + 1) other found
    rw [length_cons, range_succ_eq_map, mapM_cons, mapM_cons, same 0 item rfl, mapM_map, later]

/-- `ENQUEUE_BATCH` is `ENQUEUE` for one job after the other. -/
theorem enqueueBatch_eq (ns : Bytes) (jobs : List JobText) :
    enqueueBatch runtime (enqueueBatchArgv ns jobs) =
      jobs.mapM fun job => enqueue runtime (enqueueArgv ns job) := by
  have count : ((enqueueBatchArgv ns jobs).length - 1) / 6 =
      jobs.length := by
    rw [enqueueBatchArgv, length_cons, length_args]
    omega
  rw [enqueueBatch, count]
  exact mapM_range fun i job found => round_eq_enqueue runtime found

end Agreement

/-! ## The scheduled insert -/

open Lib.Script (Ignores apply apply_bind ignores_bind ignores_hget
  ignores_need ignores_onKey ignores_pure ignores_zadd)

/-- The scripts write the same; where the second one returns, the first one
answers with this. -/
def Mirrors {Score α β : Type} (answer : α) (left : Script Score α)
    (right : Script Score β) : Prop :=
  ∀ keys, (apply left keys).2 = (apply right keys).2 ∧ ∀ value, (apply right keys).1 = .ok value →
      (apply left keys).1 = .ok answer

section Mirrors

variable {Score α β γ : Type} {answer : α}

theorem Mirrors.done (value : β) : Mirrors answer (pure answer : Script Score α) (pure value) :=
  fun _ => ⟨rfl, fun _ _ => rfl⟩

theorem Mirrors.bind {first : Script Score γ} {left : γ → Script Score α}
    {right : γ → Script Score β}
    (later : ∀ value, Mirrors answer (left value) (right value)) :
    Mirrors answer (first >>= left) (first >>= right) := by
  intro keys
  rw [apply_bind, apply_bind]
  obtain ⟨result, next⟩ := apply first keys
  cases result with
  | ok value => exact later value next
  | error fault => exact ⟨rfl, fun _ returned => by cases returned⟩

theorem Mirrors.read (key field : Bytes) :
    Mirrors answer (pure answer : Script Score α) (hget key field) := by
  intro keys
  refine ⟨?_, fun _ _ => rfl⟩
  simp only [hget, Lib.Script.onKey, Lib.Script.apply_command, Lib.Script.apply_pure]
  split
  · exact (Function.update_eq_self _ _).symm
  · exact (Function.update_eq_self _ _).symm
  · exact (Function.update_eq_self _ _).symm

end Mirrors

section Scheduled

variable (runtime : Runtime)

/-- Once it has won its claim, `ENQUEUE_SCHEDULED` writes what `ENQUEUE`
writes. -/
theorem storeScheduled_mirrors (occ ns : Bytes) (job : JobText) :
    Mirrors 1 (storeScheduled runtime (enqueueScheduledArgv occ ns job))
      (enqueue runtime (enqueueArgv ns job)) := by
  refine Mirrors.bind fun priority => ?_
  refine Mirrors.bind fun live => ?_
  cases live with
  | true => exact Mirrors.read _ _
  | false =>
    by_cases keyed : job.ukey ≠ []
    · change Mirrors 1 (ite (job.ukey ≠ []) _ _) (ite (job.ukey ≠ []) _ _)
      rw [if_pos keyed, if_pos keyed]
      refine Mirrors.bind fun holder => ?_
      cases holder with
      | some existing => exact Mirrors.read _ _
      | none =>
        refine Mirrors.bind fun seq => Mirrors.bind fun _ => ?_
        change Mirrors 1 _ (ite (job.ukey ≠ []) _ _)
        rw [if_pos keyed]
        refine Mirrors.bind fun _ => Mirrors.bind fun _ => ?_
        refine Mirrors.bind fun score => Mirrors.bind fun _ => ?_
        exact Mirrors.bind fun _ => Mirrors.done _
    · change Mirrors 1 (ite (job.ukey ≠ []) _ _) (ite (job.ukey ≠ []) _ _)
      rw [if_neg keyed, if_neg keyed]
      refine Mirrors.bind fun seq => Mirrors.bind fun _ => ?_
      change Mirrors 1 _ (ite (job.ukey ≠ []) _ _)
      rw [if_neg keyed]
      refine Mirrors.bind fun score => Mirrors.bind fun _ => ?_
      exact Mirrors.bind fun _ => Mirrors.done _

theorem apart_of_byte {ns family other : Bytes} (rest tail : Bytes)
    (place : Nat) (inside : place < family.length)
    (within : place < other.length)
    (differ : family[place]? ≠ other[place]?) :
    ns ++ family ++ rest ≠ ns ++ other ++ tail := by
  intro same
  rw [append_assoc, append_assoc] at same
  have byte := congrArg (fun bytes => bytes[place]?) (append_cancel_left same)
  simp only [getElem?_append_left inside, getElem?_append_left within] at byte
  exact differ byte

section Keys

variable (ns scheduleId : Bytes)

theorem jobKey_ne (id : Bytes) : jobKey ns id ≠ scheduleKey ns scheduleId :=
  apart_of_byte id scheduleId 1 (by decide) (by decide) (by decide)

theorem uniqueKey_ne (ukey : Bytes) : uniqueKey ns ukey ≠ scheduleKey ns scheduleId :=
  apart_of_byte ukey scheduleId 1 (by decide) (by decide) (by decide)

theorem seqKey_ne : seqKey ns ≠ scheduleKey ns scheduleId := by
  rw [seqKey, ← append_nil (ns ++ _)]
  exact apart_of_byte [] scheduleId 2 (by decide) (by decide) (by decide)

theorem laneKey_ne (lane priority : Bytes) :
    laneKey ns lane priority ≠ scheduleKey ns scheduleId := by
  rw [laneKey, append_assoc, append_assoc]
  exact apart_of_byte _ scheduleId 1 (by decide) (by decide) (by decide)

theorem priosKey_ne (lane : Bytes) : priosKey ns lane ≠ scheduleKey ns scheduleId := by
  rw [priosKey, append_assoc]
  exact apart_of_byte _ scheduleId 1 (by decide) (by decide) (by decide)

end Keys

/-- `ENQUEUE` from where it has found neither the id nor the key. -/
def insertNew (ns : Bytes) (job : JobText) (priority : runtime.Number) :
    Script runtime.Score (Option Bytes) := do
  let seq ← nextSeq runtime ns
  hset (jobKey ns job.id) [(utf8 "envelope", job.env), (utf8 "lane", job.lane),
      (utf8 "priority", runtime.argument priority),
      (utf8 "available_at", job.availableAt), (utf8 "attempts", decimal 0),
      (utf8 "deliveries", decimal 0), (utf8 "seq", runtime.argument seq)]
  if job.ukey ≠ [] then
    hset (jobKey ns job.id) [(utf8 "unique_key", job.ukey)]
    Script.set (uniqueKey ns job.ukey) job.id
  let score ← need (runtime.toNumber job.availableAt)
  zaddNumber runtime (laneKey ns job.lane (runtime.concat priority)) score
    (fifoMember runtime seq job.id)
  prioAdd runtime ns job.lane priority
  return some job.env

theorem insertNew_ignores (ns scheduleId : Bytes) (job : JobText) (priority : runtime.Number) :
    Ignores (scheduleKey ns scheduleId) (insertNew runtime ns job priority) := by
  have hashed := jobKey_ne ns scheduleId job.id
  have claimed := uniqueKey_ne ns scheduleId job.ukey
  refine ignores_bind (ignores_bind (ignores_onKey
    (seqKey_ne ns scheduleId) _) fun _ => ignores_pure _) fun seq => ?_
  refine ignores_bind (ignores_onKey hashed _) fun _ => ?_
  have placed : Ignores (scheduleKey ns scheduleId) (do
      let score ← need (runtime.toNumber job.availableAt)
      zaddNumber runtime (laneKey ns job.lane (runtime.concat priority)) score
        (fifoMember runtime seq job.id)
      prioAdd runtime ns job.lane priority
      return some job.env) := by
    refine ignores_bind (ignores_need _) fun score => ?_
    refine ignores_bind (ignores_zadd (laneKey_ne ns scheduleId _ _) _ _ _) fun _ => ?_
    exact ignores_bind (ignores_zadd (priosKey_ne ns scheduleId _) _ _ _) fun _ => ignores_pure _
  split
  · refine ignores_bind (ignores_onKey hashed _) fun _ => ?_
    exact ignores_bind (ignores_onKey claimed _) fun _ => placed
  · exact placed

theorem enqueue_ignores (ns scheduleId : Bytes) (job : JobText) :
    Ignores (scheduleKey ns scheduleId) (enqueue runtime (enqueueArgv ns job)) := by
  refine ignores_bind (ignores_need _) fun priority => ?_
  refine ignores_bind (ignores_onKey (jobKey_ne ns scheduleId _) _) fun live => ?_
  have inserted := insertNew_ignores runtime ns scheduleId job priority
  cases live with
  | true => exact ignores_hget (jobKey_ne ns scheduleId job.id) _
  | false =>
    change Ignores _ (ite (job.ukey ≠ []) _ _)
    split
    · refine ignores_bind (ignores_onKey (uniqueKey_ne ns scheduleId _) _) fun holder => ?_
      cases holder with
      | some existing =>
        exact ignores_hget (jobKey_ne ns scheduleId existing) _
      | none => exact inserted
    · exact inserted

theorem apply_enqueueScheduled (key : Bytes) (argv : List Bytes) (keys : Keyspace runtime.Score) :
    apply (enqueueScheduled runtime key argv) keys = match keys key with
      | none => apply (storeScheduled runtime argv)
          (Function.update keys key (some (.string (argAt argv 1))))
      | some (.string current) =>
        if argAt argv 1 ≤ current then
          (.ok 0, keys)
        else
          apply (storeScheduled runtime argv)
            (Function.update keys key (some (.string (argAt argv 1))))
      | some _ => (.error .wrongType, keys) := by
  have same := Function.update_eq_self key keys
  have written : apply (do
      Script.set key (argAt argv 1)
      storeScheduled runtime argv) keys = apply (storeScheduled runtime argv)
        (Function.update keys key (some (.string (argAt argv 1)))) := by
    rw [apply_bind]
    rfl
  rw [enqueueScheduled, apply_bind]
  simp only [Lib.Script.get, Lib.Script.onKey, Lib.Script.apply_command]
  cases stored : keys key with
  | none =>
    rw [stored] at same
    simp only [same]
    exact written
  | some value =>
    rw [stored] at same
    cases value with
    | string current =>
      simp only [same]
      split
      · rfl
      · exact written
    | hash fields => simp only [same]
    | zset scores => simp only [same]

end Scheduled

/-- **The three insert scripts agree**, on every key space: a batch is its
jobs one after the other, to the first error if there is one; a claim that
loses changes nothing; and one that wins writes its occurrence and otherwise
what `ENQUEUE` writes. -/
theorem insert_scripts_agree (runtime : Runtime) (ns : Bytes)
    (jobs : List JobText) (job : JobText) (scheduleId occ : Bytes)
    (keys : Lib.Keyspace runtime.Score) :
    enqueueBatch runtime (enqueueBatchArgv ns jobs) =
        (jobs.mapM fun job => enqueue runtime (enqueueArgv ns job)) ∧
      (∀ current, keys (scheduleKey ns scheduleId) = some (.string current) → occ ≤ current →
        apply (enqueueScheduled runtime (scheduleKey ns scheduleId)
          (enqueueScheduledArgv occ ns job)) keys = (.ok 0, keys)) ∧
      ((keys (scheduleKey ns scheduleId) = none ∨ ∃ current,
          keys (scheduleKey ns scheduleId) = some (.string current) ∧ ¬ occ ≤ current) →
        (apply (enqueueScheduled runtime (scheduleKey ns scheduleId)
            (enqueueScheduledArgv occ ns job)) keys).2 =
          Function.update (apply (enqueue runtime (enqueueArgv ns job)) keys).2
            (scheduleKey ns scheduleId) (some (.string occ)) ∧
        ∀ envelope, (apply (enqueue runtime (enqueueArgv ns job)) keys).1 = .ok envelope →
          (apply (enqueueScheduled runtime (scheduleKey ns scheduleId)
            (enqueueScheduledArgv occ ns job)) keys).1 = .ok 1) := by
  refine ⟨enqueueBatch_eq runtime ns jobs, ?_, ?_⟩
  · intro current stored late
    rw [apply_enqueueScheduled, stored]
    exact if_pos late
  · intro won
    have mirrors := storeScheduled_mirrors runtime occ ns job
    have ignores := enqueue_ignores runtime ns scheduleId job keys (some (.string occ))
    have claimed : apply (enqueueScheduled runtime (scheduleKey ns scheduleId)
        (enqueueScheduledArgv occ ns job)) keys =
          apply (storeScheduled runtime (enqueueScheduledArgv occ ns job))
            (Function.update keys (scheduleKey ns scheduleId) (some (.string occ))) := by
      rw [apply_enqueueScheduled]
      rcases won with absent | ⟨current, stored, early⟩
      · rw [absent]
        rfl
      · rw [stored]
        exact if_neg early
    obtain ⟨writes, answers⟩ := mirrors
      (Function.update keys (scheduleKey ns scheduleId) (some (.string occ)))
    rw [claimed, writes, ignores]
    refine ⟨rfl, fun envelope returned => answers envelope ?_⟩
    rw [ignores]
    exact returned

/-- Numbers that are natural and printed in decimal throughout. -/
def plainRuntime : Runtime where
  Number := Nat
  Score := Nat
  toNumber := number.readAll
  argument := decimal
  concat := decimal
  padded := fun value =>
    List.replicate (20 - (decimal value).length) 48 ++ decimal value
  ofReply := Int.toNat
  readInteger := fun bytes => (number.readAll bytes).map Int.ofNat
  printInteger := fun count => decimal count.toNat
  readScore := number.readAll
  priorities := fun level _ => ⟨level, by simp, rfl, rfl⟩

/-- A job of priority 5 with a unique key. -/
def reportText : JobText :=
  ⟨utf8 "a1", utf8 "mail", decimal 7, utf8 "report", utf8 "daily", 5⟩

theorem nightly_first_claim : (apply (enqueueScheduled plainRuntime
        (scheduleKey (utf8 "wl") (utf8 "nightly"))
        (enqueueScheduledArgv (utf8 "1") (utf8 "wl") reportText))
        fun _ => none).2 =
      Function.update (apply (enqueue plainRuntime (enqueueArgv (utf8 "wl") reportText))
          fun _ => none).2
        (scheduleKey (utf8 "wl") (utf8 "nightly"))
        (some (.string (utf8 "1"))) :=
  ((insert_scripts_agree plainRuntime (utf8 "wl") [reportText] reportText
    (utf8 "nightly") (utf8 "1") fun _ => none).2.2 (.inl rfl)).1

end Worklane.Redis.Lua
