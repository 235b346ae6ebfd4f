import Mathlib.Data.Fin.VecNotation
import Mathlib.Data.Fintype.EquivFin
import Mathlib.Data.String.Basic
import Worklane.Lib.Locks
import Worklane.Postgres.Broker

/-!
# The key locks of `enqueue_batch`

A batch takes one advisory lock for each of its unique keys, in ascending key
order, and holds them until its transaction ends.  A lock is named by the
hashes of the schema and of the key, so two keys may share one: the order of
the keys is an order of the locks only as far as the hashes allow it.
-/

namespace Worklane.Postgres

open List
open Lib.Locks

/-- One call of `enqueue_batch`: the schema of its broker and its jobs. -/
structure Batch where
  schema : String
  jobs : List NewJob

abbrev LockName := BitVec 32 × BitVec 32

section Locks

variable (hashtext : String → BitVec 32)

/-- `pg_advisory_xact_lock(hashtext(schema), hashtext(key))`. -/
def lockName (schema key : String) : LockName :=
  (hashtext schema, hashtext key)

/-- The locks of a batch in the order `lock_unique_key` is called. -/
def Batch.locks (batch : Batch) : List LockName :=
  (lockKeys batch.jobs).map (lockName hashtext batch.schema)

/-- No two keys of the batches share a lock. -/
def Collisionless {Index : Type} (batches : Index → Batch) : Prop :=
  ∀ index other key otherKey, key ∈ lockKeys (batches index).jobs →
    otherKey ∈ lockKeys (batches other).jobs →
    lockName hashtext (batches index).schema key =
      lockName hashtext (batches other).schema otherKey →
    key = otherKey

/-- The locks can be ranked so that every batch meets each new lock above
those it took before. -/
def Rankable {Index : Type} (batches : Index → Batch) : Prop :=
  ∃ rank : LockName → String, ∀ index, Ascends rank ((batches index).locks hashtext)

end Locks

theorem lockKeys_ascend (jobs : List NewJob) : (lockKeys jobs).Pairwise (· < ·) := by
  unfold lockKeys
  have sorted : ((jobs.filterMap NewJob.uniqueKey).insertionSort
      (· ≤ ·)).Pairwise (· ≤ ·) := pairwise_insertionSort (· ≤ ·) _
  have kept := sorted.sublist (destutter_sublist (· ≠ ·) _)
  have apart := isChain_destutter (· ≠ ·) ((jobs.filterMap NewJob.uniqueKey).insertionSort (· ≤ ·))
  rw [← isChain_iff_pairwise, isChain_iff_forall_rel_of_append_cons_cons] at kept ⊢
  rw [isChain_iff_forall_rel_of_append_cons_cons] at apart
  intro key later before after split
  exact lt_of_le_of_ne (kept split) (apart split)

theorem Collisionless.rankable {Index : Type}
    {hashtext : String → BitVec 32} {batches : Index → Batch}
    (collisionless : Collisionless hashtext batches) :
    Rankable hashtext batches := by
  classical
  let names : LockName → String → Prop := fun lock key =>
    ∃ index, key ∈ lockKeys (batches index).jobs ∧
      lockName hashtext (batches index).schema key = lock
  let rank : LockName → String := fun lock =>
    if named : ∃ key, names lock key then named.choose else ""
  have ranked : ∀ index key, key ∈ lockKeys (batches index).jobs →
      rank (lockName hashtext (batches index).schema key) = key := by
    intro index key member
    have named : ∃ other, names (lockName hashtext (batches index).schema key) other :=
      ⟨key, index, member, rfl⟩
    obtain ⟨other, found, same⟩ := named.choose_spec
    have chosen : rank (lockName hashtext (batches index).schema key) =
        named.choose := dif_pos named
    rw [chosen]
    exact collisionless other index _ key found member same
  refine ⟨rank, fun index => ascends_of_pairwise ?_⟩
  unfold Batch.locks
  rw [pairwise_map]
  refine (lockKeys_ascend (batches index).jobs).imp_of_mem ?_
  intro key later member inside below
  rw [ranked index key member, ranked index later inside]
  exact below

/-- No state that batches reach has a circle of waiting batches, and some batch
can always go on, exactly if their locks cannot be cut into such a circle.
Locks that can be ranked cannot. -/
theorem key_locks_never_deadlock (hashtext : String → BitVec 32)
    {Index : Type} [Finite Index] [DecidableEq Index] (batches : Index → Batch) :
    let plan := fun index => (batches index).locks hashtext
    ((∀ state, Reachable plan state → (∀ index, ¬ Relation.TransGen (Waits state) index index) ∧
          ((∃ index, (state index).ended = false) → ∃ index next, Advance index state next)) ↔
        ¬ Entangled plan) ∧
      (Rankable hashtext batches → ¬ Entangled plan) := by
  intro plan
  refine ⟨never_deadlock_iff plan, ?_⟩
  rintro ⟨rank, ascending⟩
  exact not_entangled_of_ascends ascending

/-- A job with a unique key and nothing else of interest. -/
def keyedJob (id : BitVec 128) (key : String) : NewJob :=
  ⟨⟨⟨id⟩⟩, ⟨"mail"⟩, "send", [], 3, 0, some key, 0, none⟩

/-- Two batches with the same two keys in opposite order.  The first one has its
locks, and the second waits for it. -/
theorem key_locks_never_deadlock_opposite_order : let hashtext : String → BitVec 32 := fun text =>
      if text = "a" then 2 else if text = "b" then 1 else 0
  let batches : Fin 2 → Batch :=
    ![⟨"public", [keyedJob 1 "a", keyedJob 2 "b"]⟩, ⟨"public", [keyedJob 3 "b", keyedJob 4 "a"]⟩]
  let plan := fun index => (batches index).locks hashtext
  let state : Fin 2 → Session LockName :=
    ![⟨[(0, 2), (0, 1)], [], false⟩, ⟨[], [(0, 2), (0, 1)], false⟩]
  Reachable plan state ∧ Waits state 1 0 ∧
    (∀ index, ¬ Relation.TransGen (Waits state) index index) ∧
    ∃ index next, Advance index state next := by
  intro hashtext batches plan state
  have keys : ∀ index, lockKeys (batches index).jobs = ["a", "b"] := by
    decide +kernel
  have collisionless : Collisionless hashtext batches := by
    intro index other key otherKey member inside same
    rw [keys, mem_cons, mem_singleton] at member inside
    have hashes : hashtext key = hashtext otherKey := congrArg Prod.snd same
    rcases member with rfl | rfl <;> rcases inside with rfl | rfl
    · rfl
    · exact absurd hashes (by decide)
    · exact absurd hashes (by decide)
    · rfl
  have cut : Cut plan state := by
    have first : ∀ index lock, lock ∈ (state index).held → index = 0 := by
      intro index lock held
      by_contra second
      obtain rfl : index = 1 := by omega
      cases held
    refine ⟨by decide +kernel, by decide, ?_⟩
    intro owner other lock held also
    exact (first owner lock held).trans (first other lock also).symm
  obtain ⟨safe, ranked⟩ := key_locks_never_deadlock hashtext batches
  obtain ⟨acyclic, advances⟩ := safe.mpr (ranked collisionless.rankable) state cut.reachable
  exact ⟨cut.reachable, ⟨by decide, (0, 2), [(0, 1)], rfl, by decide⟩, acyclic,
    advances ⟨0, rfl⟩⟩

/-- Two batches on four keys, where the hashes of the first and the last key
and those of the two keys between them are equal: each batch takes its first
lock, which is the other's second. -/
theorem key_locks_deadlock : let hashtext : String → BitVec 32 := fun text =>
      if text = "a" ∨ text = "d" then 1
      else if text = "b" ∨ text = "c" then 2 else 0
  let batches : Fin 2 → Batch :=
    ![⟨"public", [keyedJob 1 "a", keyedJob 2 "b"]⟩, ⟨"public", [keyedJob 3 "c", keyedJob 4 "d"]⟩]
  let plan := fun index => (batches index).locks hashtext
  ∃ state, Reachable plan state ∧ Waits state 0 1 ∧ Waits state 1 0 ∧
    ∀ index next, ¬ Advance index state next := by
  intro hashtext batches plan
  have planZero : plan 0 = [(0, 1), (0, 2)] := by decide +kernel
  have planOne : plan 1 = [(0, 2), (0, 1)] := by decide +kernel
  let state : Fin 2 → Session LockName :=
    ![⟨[(0, 1)], [(0, 2)], false⟩, ⟨[(0, 2)], [(0, 1)], false⟩]
  refine ⟨state, ?_, ?_, ?_, ?_⟩
  · have first : Advance 0 (start plan) (Function.update (start plan) 0
        ⟨[] ++ [(0, 1)], [(0, 2)], false⟩) :=
      .acquire rfl planZero fun _ _ held => nomatch held
    have second : Advance 1 (Function.update (start plan) 0 ⟨[] ++ [(0, 1)], [(0, 2)], false⟩)
        (Function.update (Function.update (start plan) 0 ⟨[] ++ [(0, 1)], [(0, 2)], false⟩) 1
          ⟨[] ++ [(0, 2)], [(0, 1)], false⟩) := by
      refine .acquire rfl planOne ?_
      intro other different
      have zero : other = 0 := by omega
      subst zero
      decide
    have reached : Function.update (Function.update (start plan) 0
        ⟨[] ++ [(0, 1)], [(0, 2)], false⟩) 1
        ⟨[] ++ [(0, 2)], [(0, 1)], false⟩ = state := by
      funext index
      match index with
      | 0 => rfl
      | 1 => rfl
    rw [← reached]
    exact (Relation.ReflTransGen.single (.advance 0 first)).tail (.advance 1 second)
  · exact ⟨by decide, (0, 2), [], rfl, by decide⟩
  · exact ⟨by decide, (0, 1), [], rfl, by decide⟩
  · intro index next acts
    cases acts with
    | acquire running wanted free =>
      match index with
      | 0 =>
        cases wanted
        exact free 1 (by decide) (by decide)
      | 1 =>
        cases wanted
        exact free 0 (by decide) (by decide)
    | commit running done =>
      match index with
      | 0 => cases done
      | 1 => cases done

end Worklane.Postgres
