import Worklane.Facade.Fates

/-!
# Blobs outlive the jobs that refer to them

A blob is deleted by the submission that put it, when no job it stored refers
to it, or by a worker that has acked the job that does.  Either way no live or
dead-lettered job refers to the blob any more.
-/

namespace Worklane.Facade

open List
open Lib (own)
open Lib.Program (Performs)

variable {settings : Settings} {starts : Nat → Option Api}
variable {log : Log} {shared : Shared}

/-- What an operation does to the blobs. -/
inductive BlobChange (log : Log) (shared next : Shared) : Did → Prop
  | same {step : Did} (unchanged : next.blobs = shared.blobs) : BlobChange log shared next step
  | put {content : Blob} {key : String} (fresh : key ∉ putKeys (steps log)) (stored : next.blobs =
        Function.update shared.blobs key (some content)) :
      BlobChange log shared next ⟨.put content, .ok key⟩
  | delete {key : String} {answer : Except Failure Unit}
      (erased : next.blobs = Function.update shared.blobs key none) :
      BlobChange log shared next ⟨.delete key, answer⟩

theorem blobChange_of_answers {op : Op} {answer : op.Answer} {next : Shared}
    (answered : answers settings log shared op answer next) :
    BlobChange log shared next ⟨op, answer⟩ := by
  cases op with
  | call request => exact .same (by rw [answered.next])
  | newId => exact .same (by rw [answered.2])
  | storeResult id output =>
    cases answer with
    | ok done => exact .same (by rw [answered]; rfl)
    | error failure =>
      rcases answered with rfl | rfl
      · exact .same rfl
      · exact .same rfl
  | getResult id =>
    cases answer with
    | ok found =>
      rcases answered with ⟨_, rfl⟩ | ⟨_, _, rfl⟩
      · exact .same rfl
      · exact .same rfl
    | error failure => exact .same (by rw [answered])
  | put content =>
    cases answer with
    | ok key => exact .put answered.1 (by rw [answered.2]; rfl)
    | error failure => exact .same (by rw [answered])
  | get key =>
    cases answer with
    | ok found => exact .same (by rw [answered.2])
    | error failure => exact .same (by rw [answered])
  | delete key =>
    cases answer with
    | ok done => exact .delete (by rw [answered]; rfl)
    | error failure =>
      rcases answered with rfl | rfl
      · exact .same rfl
      · exact .delete rfl
  | handle envelope payload => exact .same (by rw [answered])
  | admitKind kind => exact .same (by rw [answered])
  | record kind success => exact .same (by rw [answered])
  | deadline => exact .same (by rw [answered])
  | lags => exact .same (by rw [answered])

theorem Runs.blob_kept (runs : Runs settings starts log shared)
    {thread : Nat} {content : Blob} {key : String}
    (put : ⟨thread, .put content, .ok key⟩ ∈ log) :
    shared.blobs key = some content ∨ ∃ deleter answer, ⟨deleter, .delete key, answer⟩ ∈ log := by
  induction runs with
  | nil => cases put
  | @snoc log shared next actor start op answer earlier started lawful
      answered ih =>
      have deleted : (∃ deleter answer, (⟨deleter, .delete key, answer⟩ :
              Lib.Event Op Op.Answer) ∈ log) →
          ∃ deleter answer', (⟨deleter, .delete key, answer'⟩ :
            Lib.Event Op Op.Answer) ∈ log ++ [⟨actor, op, answer⟩] :=
        fun ⟨deleter, answer', member⟩ =>
          ⟨deleter, answer', mem_append_left _ member⟩
      rcases mem_append.mp put with early | last
      · rcases ih early with there | gone
        · have change := blobChange_of_answers answered
          cases change with
          | same unchanged => exact Or.inl (unchanged ▸ there)
          | @put other key' fresh stored =>
            left
            rw [stored, Function.update_of_ne, there]
            rintro rfl
            exact fresh (mem_filterMap.mpr ⟨⟨.put content, .ok key⟩,
              mem_steps.mpr ⟨thread, early⟩, rfl⟩)
          | @delete key' answer' erased =>
            by_cases same : key = key'
            · subst same
              exact Or.inr ⟨actor, answer', by simp⟩
            · left
              rw [erased, Function.update_of_ne same, there]
        · exact Or.inr (deleted gone)
      · cases mem_singleton.mp last
        left
        rw [answered.2]
        exact Function.update_self ..

section Deletes

variable {past future : Log} {deleter : Nat} {key : String}
variable {answer : Except Failure Unit}

/-- A submission that deletes a blob has stored no job that refers to it, and
stores none later. -/
theorem Runs.discarded_unused (runs : Runs settings starts log shared)
    (split : log = past ++ ⟨deleter, .delete key, answer⟩ :: future)
    (discards : Discards (own deleter past) key)
    {thread : Nat} {job : NewJob} (stored : Stored log thread job) :
    referenceKey job.payload ≠ some key := by
  intro reads
  obtain ⟨_, earlier⟩ := runs.past split
  have mine : key ∈ putKeys (own deleter log) := by
    rw [split, Lib.own_append, putKeys_append]
    exact mem_append_left _ discards.own
  obtain rfl := runs.recorded.owner_of_key ((runs.submitted_own stored.submitted).2 key reads) mine
  have distinct : (putKeys (own thread past)).Nodup :=
    ((Lib.own_sublist thread past).filterMap putKey).nodup (Runs.recorded earlier).keys
  rw [Stored, split, Lib.own_append] at stored
  rcases storedBy_append.mp stored with old | new
  · exact discards.unused distinct job old reads
  · have later : Stored (⟨thread, .delete key, answer⟩ :: future) thread
        job := new
    obtain ⟨request, served, inside, listed⟩ := later.submitted
    rcases mem_cons.mp inside with same | after
    · cases same
    · obtain ⟨between, rest, rfl⟩ := append_of_mem after
      have clean := (runs.submits (split.trans (append_assoc past
        (⟨thread, .delete key, answer⟩ :: between) _).symm) listed).clean
      refine Bool.noConfusion (clean ⟨.delete key, answer⟩ ?_)
      exact Lib.mem_own.mpr (by simp)

theorem Runs.cleared_gone (runs : Runs settings starts log shared)
    (split : log = past ++ ⟨deleter, .delete key, answer⟩ :: future)
    (cleared : Cleared (own deleter past) key)
    {thread : Nat} {job : NewJob} (submitted : Submitted log thread job)
    (reads : referenceKey job.payload = some key) :
    ¬ Live shared job.id ∧ ¬ Dead shared job.id := by
  obtain ⟨_, earlier⟩ := runs.past split
  obtain ⟨reservation, served, takes, refers, acks, replied⟩ := cleared
  obtain ⟨submitter, acked, older, was⟩ := Runs.took_submitted earlier takes
  have refersOld : referenceKey acked.payload = some key := by
    rw [← refers]
    exact congrArg referenceKey (congrArg JobEnvelope.payload was).symm
  have known : Submitted log submitter acked := by
    refine older.mono ?_
    intro event inside
    rw [split]
    exact mem_append_left _ inside
  obtain ⟨_, rfl⟩ := runs.reference_unique known submitted refersOld reads
  have done : Acked log deleter reservation :=
    Acked.mono ⟨takes, served, Lib.mem_own.mp acks, replied⟩ split
  obtain ⟨notLive, notDead, _⟩ := runs.acked_gone done
  rw [congrArg JobEnvelope.id was] at notLive notDead
  exact ⟨notLive, notDead⟩

end Deletes

variable {card : JobEnvelope × Option String}

theorem present_of_card (member : card ∈ shared.inner.cards) :
    Live shared card.1.id ∨ Dead shared card.1.id := by
  rcases mem_append.mp member with live | dead
  · obtain ⟨stored, inside, rfl⟩ := mem_map.mp live
    exact Or.inl ⟨stored, inside, rfl⟩
  · obtain ⟨entry, inside, rfl⟩ := mem_map.mp dead
    exact Or.inr ⟨entry, inside, rfl⟩

/-- A live or dead-lettered job keeps the blob it refers to. -/
theorem Runs.reference_kept (runs : Runs settings starts log shared) {key : String}
    (member : card ∈ shared.inner.cards)
    (reads : referenceKey card.1.payload = some key) :
    ∃ thread job content, Stored log thread job ∧ Memory.Same job.intoEnvelope card.1 ∧
      ⟨thread, .put content, .ok key⟩ ∈ log ∧
      shared.blobs key = some content := by
  obtain ⟨thread, job, submitted, same, _⟩ := runs.card_submitted member
  have refers : referenceKey job.payload = some key := by
    rw [← reads]
    exact congrArg referenceKey (congrArg JobEnvelope.payload same).symm
  have present : Live shared job.id ∨ Dead shared job.id := by
    have named : card.1.id = job.id := congrArg JobEnvelope.id same
    rw [← named]
    exact present_of_card member
  obtain ⟨storer, kept, stored, equal⟩ := runs.present_stored present
  obtain ⟨rfl, rfl⟩ := runs.job_unique stored.submitted submitted equal
  obtain ⟨content, put⟩ := put_of_key ((runs.submitted_own submitted).2 key refers)
  refine ⟨storer, kept, content, stored, same, Lib.mem_own.mp put, ?_⟩
  rcases runs.blob_kept (Lib.mem_own.mp put) with
    there | ⟨deleter, answer, deleted⟩
  · exact there
  · obtain ⟨past, future, _, _, _, split, _, _, _, law, _⟩ := runs.moment_of_mem deleted
    rcases law_deletes law with discards | cleared
    · exact absurd refers (runs.discarded_unused split discards stored)
    · obtain ⟨notLive, notDead⟩ := runs.cleared_gone split cleared submitted refers
      exact absurd present (by rintro (live | dead) <;> contradiction)

/-- Claim checks never dangle: in every reachable state of the system, a live
or dead-lettered job whose payload is a reference was stored by a thread that
had put a blob under its key; the blob is still there, and a `get` returns its
bytes. -/
theorem no_dangling_reference {pool : Pool} (reachable : (system settings).Reachable pool)
    {card : JobEnvelope × Option String} {key : String}
    (member : card ∈ pool.shared.inner.cards)
    (reads : referenceKey card.1.payload = some key) :
    ∃ thread job content, Stored pool.log thread job ∧ Memory.Same job.intoEnvelope card.1 ∧
      ⟨thread, .put content, .ok key⟩ ∈ pool.log ∧
      pool.shared.blobs key = some content ∧
      ∀ found next, answers settings pool.log pool.shared (.get key)
        (.ok found) next → found = some content := by
  obtain ⟨thread, job, content, stored, same, put, there⟩ :=
    (runs_of_reachable reachable).reference_kept member reads
  refine ⟨thread, job, content, stored, same, put, there, ?_⟩
  rintro found next ⟨equal, _⟩
  exact equal.trans there

section Cases

/-- A client that offloads every payload. -/
def blobClient : Client where
  batches := true
  resultStore := false
  payloadStore := true
  offloadThreshold := 0
  defaultMaxAttempts := 3
  lane := ⟨"a"⟩
  priority := 0
  laneRegistry := none

def blobSpec : JobSpec where
  kind := "kind"
  payload := ⟨[49], referenceKey_digit⟩
  lane := none
  delay := 0
  uniqueKey := none
  priority := none

/-- The job it submits. -/
def blobJob : NewJob :=
  { blobClient.newJob "kind" blobSpec.payload ⟨⟨1⟩⟩ with
    payload := makeReference "blob" }

def blobStarts : List Api := [.enqueue blobClient blobSpec]

def blobLog : Log :=
  [⟨0, .newId, ⟨⟨1⟩⟩⟩, ⟨0, .put [49], .ok "blob"⟩, ⟨0, .call (.enqueue blobJob),
      (⟨5, ⟨⟨0⟩⟩, .ok ⟨⟨1⟩⟩⟩ : Served JobId)⟩]

theorem blobLog_performs (index : Nat) (start : Api) (found : blobStarts[index]? = some start) :
    ∃ rest, Performs (start.body plainSettings.crates) (own index blobLog) rest := by
  rcases index with _ | index
  · cases found
    exact ⟨_, .step (.step (.step (.refl _)))⟩
  · cases found

theorem blobLog_reachable : ∃ pool, (system plainSettings).Reachable pool ∧
      (blobJob.intoEnvelope, none) ∈ pool.shared.inner.cards := by
  obtain ⟨pool, replays, holds⟩ := @replay_reachable plainSettings blobLog
    blobStarts (fun shared => decide ((blobJob.intoEnvelope, none) ∈ shared.inner.cards))
    (by decide +kernel) blobLog_performs (by decide)
  exact ⟨pool, replays.reachable, of_decide_eq_true holds⟩

theorem no_dangling_reference_blobJob : ∃ pool, (system plainSettings).Reachable pool ∧
      (blobJob.intoEnvelope, none) ∈ pool.shared.inner.cards ∧
      referenceKey blobJob.intoEnvelope.payload = some "blob" ∧
      ∃ thread job content, Stored pool.log thread job ∧
        Memory.Same job.intoEnvelope blobJob.intoEnvelope ∧
        ⟨thread, .put content, .ok "blob"⟩ ∈ pool.log ∧
        pool.shared.blobs "blob" = some content ∧
        ∀ found next, answers plainSettings pool.log pool.shared
          (.get "blob") (.ok found) next → found = some content := by
  obtain ⟨pool, reachable, member⟩ := blobLog_reachable
  have reads : referenceKey blobJob.intoEnvelope.payload = some "blob" :=
    referenceKey_makeReference "blob"
  exact ⟨pool, reachable, member, reads, no_dangling_reference reachable member reads⟩

end Cases

end Worklane.Facade
