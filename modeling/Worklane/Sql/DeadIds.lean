import Worklane.Sql.Changes

/-!
# Live ids and dead ids

`dead.id` has a unique index, so a job can be dead-lettered only while no
record has its id.  That holds of every live job as long as no job is enqueued
under the id of a record.
-/

namespace Worklane.Sql

open List
open Lib.Lease (Action)

/-- No live job has the id of a dead record. -/
def Apart (tables : Tables) : Prop :=
  ∀ row ∈ tables.jobs, tables.hasDead row.id = false

/-- The jobs a call brings have no dead record. -/
def Unburied (tables : Tables) (call : Call) : Prop :=
  ∀ job ∈ call.newJobs, tables.hasDead job.id = false

instance (tables : Tables) (call : Call) : Decidable (Unburied tables call) :=
  inferInstanceAs (Decidable (∀ job ∈ call.newJobs, _))

/-- A job of the lane is over its deliveries, and its id has a dead record. -/
def SweepBlocked (config : Config) (tables : Tables) (lane : Lane) : Prop :=
  ∃ max ∈ config.maxDeliveries, ∃ row ∈ tables.jobs,
    row.lane = lane ∧ max ≤ row.deliveries ∧ tables.hasDead row.id = true

/-- A successful `fail` at `now`: the job of the row is no longer live, and a
record with the error joined the dead letters before retention. -/
structure Buries (policy : RetentionPolicy) (now : Nat) (tables : Tables)
    (row : JobRow) (error : String) (outcome : Tables × Reply) :
    Prop where
  accepted : outcome.2 = .ok .done
  gone : outcome.1.hasJob row.id = false
  recorded : ∃ record : DeadRow, record.id = row.id ∧
    record.envelope = row.envelope ∧ record.error = error ∧
    outcome.1.dead = pruneDeadLetters policy row.lane now (tables.dead ++ [record])

section Apart

variable {serde : SerdeJson} {tables : Tables}
variable {before after : List JobRow} {row row' : JobRow}

theorem apart_empty : Apart Tables.empty :=
  fun _ member => nomatch member

theorem Apart.replace (apart : Apart tables) (split : tables.jobs = before ++ row :: after)
    (id : row'.id = row.id) :
    Apart { tables with jobs := before ++ row' :: after } := by
  unfold Apart at apart
  rw [split] at apart
  intro other member
  simp only [mem_append, mem_cons] at apart member
  rcases member with early | rfl | late
  · exact apart other (Or.inl early)
  · rw [id]
    exact apart row (Or.inr (Or.inl rfl))
  · exact apart other (Or.inr (Or.inr late))

theorem Apart.insert (apart : Apart tables) (key : Option String)
    (unburied : tables.hasDead row.id = false) :
    Apart (tables.withRow row key) := by
  intro other member
  rcases mem_append.mp member with old | new
  · exact apart other old
  · rw [mem_singleton.mp new]
    exact unburied

theorem Apart.drop (apart : Apart tables) {dead : List DeadRow} (kept : dead.Sublist tables.dead) :
    Apart { tables with dead := dead } := by
  intro other member
  have absent := hasDead_eq_false.mp (apart other member)
  exact hasDead_eq_false.mpr fun found => absent ((kept.map DeadRow.id).subset found)

theorem Tidy.hasDead_of_swept (tidy : Tidy serde tables)
    (split : tables.jobs = before ++ row :: after) {dead : List DeadRow}
    {keys : List KeyRow} (moved : DeadMove serde tables.dead row.id dead)
    {other : JobRow} (member : other ∈ before ++ after)
    (buried : Tables.hasDead
      { tables with
        jobs := before ++ after, uniqueKeys := keys, dead := dead }
      other.id = true) :
    other ∈ tables.jobs ∧ tables.hasDead other.id = true := by
  have side := mem_append.mp member
  have ids := tidy.ids
  rw [split] at ids
  have different := Lib.key_ne_of_split ids other side
  refine ⟨?_, ?_⟩
  · rw [split]
    simp only [mem_append, mem_cons]
    tauto
  · by_contra unburied
    have absent := hasDead_eq_false.mp (by simpa using unburied)
    have found : other.id ∈ dead.map DeadRow.id := by
      simpa [Tables.hasDead] using buried
    cases moved with
    | none => exact absent found
    | moved stored same _ later kept =>
      have inside := (kept.map DeadRow.id).subset found
      rw [map_append, mem_append] at inside
      rcases inside with old | new
      · exact absent old
      · exact different ((mem_singleton.mp new).trans same)

theorem Apart.remove (apart : Apart tables) (tidy : Tidy serde tables)
    (split : tables.jobs = before ++ row :: after) {dead : List DeadRow}
    {keys : List KeyRow} (moved : DeadMove serde tables.dead row.id dead) :
    Apart
      { tables with
        jobs := before ++ after, uniqueKeys := keys, dead := dead } := by
  intro other member
  apply Bool.eq_false_iff.mpr
  intro buried
  obtain ⟨live, before⟩ := tidy.hasDead_of_swept split moved member buried
  rw [apart other live] at before
  cases before

section Changes

variable {leaseUntil now : Nat} {mint : ReservationReceipt} {brought : List JobId}
variable {actions : List (Action JobId ReservationReceipt)} {next : Tables}

theorem Change.apart (change : Change serde leaseUntil now mint brought tables actions next)
    (tidy : Tidy serde tables) (apart : Apart tables)
    (unburied : ∀ id ∈ brought, tables.hasDead id = false) :
    Apart next ∧ ∀ id ∈ brought, next.hasDead id = false := by
  cases change with
  | insert key _ _ _ _ own =>
    exact ⟨apart.insert key (own.elim (unburied _) id), unburied⟩
  | lease split => exact ⟨apart.replace split rfl, unburied⟩
  | settle split _ _ _ same => exact ⟨apart.replace split same, unburied⟩
  | renew split => exact ⟨apart.replace split rfl, unburied⟩
  | remove split _ quiet moved =>
    subst quiet
    exact ⟨apart.remove tidy split moved, by simp⟩
  | sweep split _ quiet moved =>
    subst quiet
    exact ⟨apart.remove tidy split moved, by simp⟩
  | drop kept =>
    refine ⟨apart.drop kept, ?_⟩
    intro id new
    have absent := hasDead_eq_false.mp (unburied id new)
    exact hasDead_eq_false.mpr fun found => absent ((kept.map DeadRow.id).subset found)
  | schedule => exact ⟨apart, unburied⟩

theorem Changes.apart (changes : Changes serde leaseUntil now mint brought tables actions next)
    (tidy : Tidy serde tables) (apart : Apart tables)
    (unburied : ∀ id ∈ brought, tables.hasDead id = false) : Apart next := by
  induction changes with
  | refl => exact apart
  | head change _ ih =>
    obtain ⟨kept, others⟩ := change.apart tidy apart unburied
    exact ih (change.tidy tidy) kept others

/-- A call that brings no job under the id of a record keeps live and dead ids
apart. -/
theorem IsChanges.apart {config : Config} {input : Input} {outcome : Tables × Reply}
    (changes : IsChanges serde config tables input outcome) (tidy : Tidy serde tables)
    (apart : Apart tables) (unburied : Unburied tables input.call) : Apart outcome.1 := by
  refine Changes.apart changes tidy apart ?_
  intro id new
  obtain ⟨job, member, rfl⟩ := mem_map.mp new
  exact unburied job member

end Changes

theorem Tidy.buries (tidy : Tidy serde tables) (split : tables.jobs = before ++ row :: after)
    (policy : RetentionPolicy) (deadSeq : Nat) (error : String) (now : Nat)
    (keys : List KeyRow) :
    Buries policy now tables row error
      ({ tables with
          jobs := before ++ after
          uniqueKeys := keys
          dead := pruneDeadLetters policy row.lane now (tables.dead ++
            [deadRecord deadSeq tables row error now]) },
        .ok .done) where
  accepted := rfl
  gone := by
    apply hasJob_eq_false.mpr
    intro found
    obtain ⟨other, member, same⟩ := mem_map.mp found
    have ids := tidy.ids
    rw [split] at ids
    exact Lib.key_ne_of_split ids other (mem_append.mp member) same
  recorded := ⟨_, rfl, rfl, rfl, rfl⟩

end Apart

end Worklane.Sql
