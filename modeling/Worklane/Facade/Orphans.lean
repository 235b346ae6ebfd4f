import Worklane.Facade.Offload
import Worklane.Facade.Rules
import Worklane.Facade.Watcher

/-!
# Blobs left behind by a submission

A submission offloads its payloads one after the other and then hands the
jobs to the broker.  The steps of every call are split into the offload loop
(`OffloadedAll`, `OffloadBroken`) and what follows it; the blobs a call leaves
behind are those whose deletion neither half performs.
-/

namespace Worklane.Facade

open List
open Lib.Program

/-! ## What the steps of a call show -/

def Deleted (steps : List Did) (key : String) : Prop :=
  (⟨.delete key, .ok ()⟩ : Did) ∈ steps

/-- Every blob put is referenced by a job stored, or deleted. -/
def NoOrphan (steps : List Did) : Prop :=
  ∀ key ∈ putKeys steps, Deleted steps key ∨
    ∃ job, StoredBy steps job ∧ referenceKey job.payload = some key

/-- Deletes succeed, and a batch is answered with one id for each of its
jobs. -/
structure Environment (steps : List Did) : Prop where
  deletes : ∀ (key : String) (answer : Except Failure Unit),
    (⟨.delete key, answer⟩ : Did) ∈ steps → answer = .ok ()
  answered : ∀ (jobs : List NewJob) (served : Served (List JobId)) (ids : List JobId),
    (⟨.call (.enqueueBatch jobs), served⟩ : Did) ∈ steps →
    served.reply = .ok ids → ids.length = jobs.length

/-! ## What follows the offload loop -/

/-- A delete of the key was performed. -/
def Asked (steps : List Did) (key : String) : Prop :=
  ∃ answer, (⟨.delete key, answer⟩ : Did) ∈ steps

section Cleanup

variable {client : Client}

variable {steps : List Did}

theorem cleanupOffload_returns {payload : Blob} {ended : Unit}
    (returns : Returns (client.cleanupOffload payload) steps ended) :
    OnlyDeletes steps ∧ (client.payloadStore = true →
      ∀ key, referenceKey payload = some key → Asked steps key) := by
  unfold Client.cleanupOffload at returns
  split at returns
  · next key configured reads =>
    obtain ⟨answer, later, rfl, rest⟩ := returns_act.mp returns
    obtain ⟨rfl, _⟩ := returns_done.mp rest
    refine ⟨?_, ?_⟩
    · intro step member
      exact ⟨key, answer, mem_singleton.mp member⟩
    · rintro _ other same
      rw [reads] at same
      cases same
      exact ⟨answer, mem_singleton.mpr rfl⟩
  · next none =>
    obtain ⟨rfl, _⟩ := returns_done.mp returns
    refine ⟨by rintro _ ⟨⟩, ?_⟩
    intro configured key reads
    exact absurd reads (none key configured)

theorem cleanupOffloads_returns {jobs : List NewJob} {ended : Unit}
    (returns : Returns (client.cleanupOffloads jobs) steps ended) :
    OnlyDeletes steps ∧ (client.payloadStore = true → ∀ key ∈ keysOf jobs, Asked steps key) := by
  induction jobs generalizing steps ended with
  | nil =>
    obtain ⟨rfl, _⟩ := returns_done.mp returns
    exact ⟨by rintro _ ⟨⟩, by rintro _ _ ⟨⟩⟩
  | cons job rest ih =>
    obtain ⟨first, _, later, rfl, head, tail⟩ := returns_bind.mp returns
    obtain ⟨onlyHead, asksHead⟩ := cleanupOffload_returns head
    obtain ⟨onlyTail, asksTail⟩ := ih tail
    refine ⟨?_, ?_⟩
    · intro step member
      rcases mem_append.mp member with early | late
      · exact onlyHead step early
      · exact onlyTail step late
    · intro configured key member
      obtain ⟨other, inside, reads⟩ := mem_filterMap.mp member
      rcases mem_cons.mp inside with rfl | later
      · obtain ⟨answer, asked⟩ := asksHead configured key reads
        exact ⟨answer, mem_append_left _ asked⟩
      · obtain ⟨answer, asked⟩ := asksTail configured key (mem_filterMap.mpr ⟨other, later, reads⟩)
        exact ⟨answer, mem_append_right _ asked⟩

theorem cleanupDeduped_returns {jobs : List NewJob} {ids : List JobId} {ended : Unit}
    (returns : Returns (client.cleanupDeduped jobs ids) steps ended) :
    OnlyDeletes steps ∧ (client.payloadStore = true → ∀ entry ∈ jobs.zip ids, entry.2 ≠ entry.1.id →
        ∀ key, referenceKey entry.1.payload = some key → Asked steps key) := by
  induction jobs generalizing ids steps ended with
  | nil =>
    obtain ⟨rfl, _⟩ := returns_done.mp returns
    exact ⟨by rintro _ ⟨⟩, by simp⟩
  | cons job rest ih =>
    cases ids with
    | nil =>
      obtain ⟨rfl, _⟩ := returns_done.mp returns
      exact ⟨by rintro _ ⟨⟩, by simp⟩
    | cons id more =>
      obtain ⟨first, _, later, rfl, head, tail⟩ := returns_bind.mp returns
      obtain ⟨onlyTail, asksTail⟩ := ih tail
      have deduped : OnlyDeletes first ∧ (client.payloadStore = true →
          id ≠ job.id → ∀ key, referenceKey job.payload = some key → Asked first key) := by
        unfold Client.cleanupDedupedOffload at head
        split at head
        · next same =>
          obtain ⟨rfl, _⟩ := returns_done.mp head
          exact ⟨by rintro _ ⟨⟩, fun _ other => absurd same.symm other⟩
        · obtain ⟨only, asks⟩ := cleanupOffload_returns head
          exact ⟨only, fun configured _ => asks configured⟩
      refine ⟨?_, ?_⟩
      · intro step member
        rcases mem_append.mp member with early | late
        · exact deduped.1 step early
        · exact onlyTail step late
      · intro configured entry member other key reads
        rw [zip_cons_cons] at member
        rcases mem_cons.mp member with rfl | inside
        · obtain ⟨answer, asked⟩ := deduped.2 configured other key reads
          exact ⟨answer, mem_append_left _ asked⟩
        · obtain ⟨answer, asked⟩ := asksTail configured entry inside other key reads
          exact ⟨answer, mem_append_right _ asked⟩

end Cleanup

/-! ## The condition -/

/-- No offloaded job of a batch was deduplicated to another id. -/
def NoDedup (steps : List Did) : Prop :=
  ∀ (jobs : List NewJob) (served : Served (List JobId)) (ids : List JobId),
    (⟨.call (.enqueueBatch jobs), served⟩ : Did) ∈ steps →
    served.reply = .ok ids →
    ∀ entry ∈ jobs.zip ids, (referenceKey entry.1.payload).isSome → entry.2 = entry.1.id

/-- When a call leaves no blob behind: if it has put one, then no put has
failed, no payload was over the inline limit and, for a call that ignores the
ids of its batch, no offloaded job was deduplicated. -/
def Tidy (client : Client) (keeps : Bool) (payloads : List Blob) (steps : List Did) : Prop :=
  putKeys steps ≠ [] → ¬ PutFailed steps ∧ (∀ payload ∈ payloads, client.fits payload) ∧
      (keeps = true → NoDedup steps)

/-- What a call does with its offloaded jobs. -/
inductive Tail (client : Client) (keeps : Bool) (offloaded : List NewJob) : List Did → Prop
  /-- Every blob is cleaned up or belongs to a stored job. -/
  | cleaned {rest : List Did} (noPuts : NoPuts rest) (handled : client.payloadStore = true →
        ∀ job ∈ offloaded, ∀ key, referenceKey job.payload = some key →
          Asked rest key ∨ StoredBy rest job)
      (noDedup : keeps = true → NoDedup rest) : Tail client keeps offloaded rest
  /-- The batch is accepted and its ids are ignored. -/
  | accepted {lead : List Did} {served : Served (List JobId)}
      {ids : List JobId} (kept : keeps = true) (only : OnlyIds lead)
      (reply : served.reply = .ok ids) :
      Tail client keeps offloaded (lead ++ [⟨.call (.enqueueBatch offloaded), served⟩])

/-- The steps of a call. -/
inductive Shape (client : Client) (keeps : Bool) (jobs : List NewJob) : List Did → Prop
  | quiet {steps : List Did} (none : putKeys steps = []) : Shape client keeps jobs steps
  | broken {lead puts : List Did} (only : OnlyIds lead) (fails : OffloadBroken client jobs puts) :
      Shape client keeps jobs (lead ++ puts)
  | submitted {lead puts rest : List Did} {offloaded : List NewJob}
      (only : OnlyIds lead) (all : OffloadedAll client jobs puts offloaded)
      (tail : Tail client keeps offloaded rest) :
      Shape client keeps jobs (lead ++ puts ++ rest)

section Accepted

variable {client : Client} {jobs offloaded : List NewJob} {lead puts idle : List Did}
variable {served : Served (List JobId)} (only : OnlyIds lead)
variable (all : OffloadedAll client jobs puts offloaded)
variable (inline : ∀ job ∈ jobs, referenceKey job.payload = none) (onlyIdle : OnlyIds idle)

include only all inline onlyIdle

theorem accepted_steps :
    ∀ step ∈ lead ++ puts ++ (idle ++ [⟨.call (.enqueueBatch offloaded), served⟩]),
      (∃ id, step = ⟨.newId, id⟩) ∨ (∃ payload answer, step = ⟨.put payload, answer⟩) ∨
        step = ⟨.call (.enqueueBatch offloaded), served⟩ := by
  intro step member
  simp only [mem_append, mem_singleton] at member
  rcases member with (first | second) | third | last
  · exact Or.inl (only step first)
  · exact Or.inr (Or.inl ((all.spec inline).2.2.2.1 step second))
  · exact Or.inl (onlyIdle step third)
  · exact Or.inr (Or.inr last)

theorem accepted_putKeys :
    putKeys (lead ++ puts ++ (idle ++ [⟨.call (.enqueueBatch offloaded), served⟩])) =
      keysOf offloaded := by
  simp only [putKeys_append, only.putKeys, (all.spec inline).1, onlyIdle.putKeys]
  simp [putKeys, putKey]

end Accepted

section Verdict

variable {client : Client} {keeps : Bool} {jobs : List NewJob}
variable {steps : List Did}

theorem Shape.noOrphan (shape : Shape client keeps jobs steps)
    (inline : ∀ job ∈ jobs, referenceKey job.payload = none)
    (environment : Environment steps)
    (tidy : Tidy client keeps (jobs.map NewJob.payload) steps) :
    NoOrphan steps := by
  intro key member
  obtain ⟨worked, fits, noDedup⟩ := tidy (ne_nil_of_mem member)
  cases shape with
  | quiet none =>
    rw [none] at member
    cases member
  | @broken lead puts only fails =>
    rcases fails.reason with ⟨payload, failure, put⟩ | ⟨job, inside, large⟩
    · exact absurd ⟨payload, failure, mem_append_right _ put⟩ worked
    · exact absurd (fits _ (mem_map_of_mem inside)) large
  | @submitted lead puts rest offloaded only all tail =>
    obtain ⟨keys, _, _, _, store⟩ := all.spec inline
    cases tail with
    | cleaned noPuts handled _ =>
      have total : putKeys (lead ++ puts ++ rest) = keysOf offloaded := by
        simp [only.putKeys, keys, noPuts.putKeys]
      rw [total] at member
      obtain ⟨job, inside, reads⟩ := mem_filterMap.mp member
      rcases handled (store key member) job inside key reads with
        ⟨answer, asked⟩ | stored
      · have asked := mem_append_right (lead ++ puts) asked
        rw [environment.deletes key answer asked] at asked
        exact Or.inl asked
      · refine Or.inr ⟨job, ?_, reads⟩
        cases stored with
        | single served own =>
          exact .single (mem_append_right _ served) own
        | batch served reply own =>
          exact .batch (mem_append_right _ served) reply own
    | @accepted idle served ids kept onlyIdle reply =>
      have batch : (⟨.call (.enqueueBatch offloaded), served⟩ : Did) ∈ lead ++ puts ++
            (idle ++ [⟨.call (.enqueueBatch offloaded), served⟩]) := by
        simp
      have total := @accepted_putKeys _ _ _ _ _ _ served only all inline onlyIdle
      have length := environment.answered offloaded served ids batch reply
      rw [total] at member
      obtain ⟨job, inside, reads⟩ := mem_filterMap.mp member
      obtain ⟨index, bound, found⟩ := getElem_of_mem inside
      have inside : index < ids.length := by omega
      have paired : (job, ids[index]) ∈ offloaded.zip ids := by
        rw [← found]
        exact mem_iff_getElem.mpr ⟨index, by simp; omega, by simp⟩
      have own := noDedup kept offloaded served ids batch reply _ paired
        (Option.isSome_iff_exists.mpr ⟨key, reads⟩)
      simp only at own
      rw [own] at paired
      exact Or.inr ⟨job, .batch batch reply paired, reads⟩

theorem Shape.tidy (shape : Shape client keeps jobs steps)
    (inline : ∀ job ∈ jobs, referenceKey job.payload = none)
    (fresh : (putKeys steps).Nodup) (noOrphan : NoOrphan steps) :
    Tidy client keeps (jobs.map NewJob.payload) steps := by
  intro some
  cases shape with
  | quiet none => exact absurd none some
  | @broken lead puts only fails =>
    obtain ⟨key, member⟩ := exists_mem_of_ne_nil _ some
    -- The call has neither deleted nor submitted anything.
    have steps : ∀ step ∈ lead ++ puts, (∃ id, step = ⟨.newId, id⟩) ∨
          ∃ payload answer, step = ⟨.put payload, answer⟩ := by
      intro step inside
      rcases mem_append.mp inside with early | late
      · exact Or.inl (only step early)
      · exact Or.inr (fails.puts step late)
    rcases noOrphan key member with deleted | ⟨job, stored, _⟩
    · rcases steps _ deleted with ⟨_, equal⟩ | ⟨_, _, equal⟩ <;> cases equal
    · cases stored with
      | single inside =>
        rcases steps _ inside with ⟨_, equal⟩ | ⟨_, _, equal⟩ <;>
          cases equal
      | batch inside =>
        rcases steps _ inside with ⟨_, equal⟩ | ⟨_, _, equal⟩ <;>
          cases equal
  | @submitted lead puts rest offloaded only all tail =>
    obtain ⟨keys, worked, fits, onlyPuts, _⟩ := all.spec inline
    have allFit : ∀ payload ∈ jobs.map NewJob.payload,
        client.fits payload := by
      intro payload member
      obtain ⟨job, inside, rfl⟩ := mem_map.mp member
      exact fits job inside
    cases tail with
    | cleaned noPuts _ noDedup =>
      refine ⟨?_, allFit, ?_⟩
      · rintro ⟨payload, failure, member⟩
        simp only [mem_append] at member
        rcases member with (first | second) | late
        · exact only.noPuts _ _ first
        · exact worked ⟨payload, failure, second⟩
        · exact noPuts _ _ late
      · intro kept batch served ids member
        simp only [mem_append] at member
        rcases member with (first | second) | late
        · obtain ⟨_, equal⟩ := only _ first
          cases equal
        · obtain ⟨_, _, equal⟩ := onlyPuts _ second
          cases equal
        · exact noDedup kept batch served ids late
    | @accepted idle served ids kept onlyIdle reply =>
      have others := @accepted_steps _ _ _ _ _ _ served only all inline onlyIdle
      have total := @accepted_putKeys _ _ _ _ _ _ served only all inline onlyIdle
      have distinct : (keysOf offloaded).Nodup := total ▸ fresh
      refine ⟨?_, allFit, ?_⟩
      · rintro ⟨payload, failure, member⟩
        simp only [mem_append, mem_singleton] at member
        rcases member with (first | second) | third | last
        · exact only.noPuts _ _ first
        · exact worked ⟨payload, failure, second⟩
        · exact onlyIdle.noPuts _ _ third
        · cases last
      · intro _ sent answer given member accepts entry inside offloads
        rcases others _ member with ⟨_, equal⟩ | ⟨_, _, equal⟩ | equal
        · cases equal
        · cases equal
        · cases equal
          rw [reply] at accepts
          cases accepts
          obtain ⟨key, reads⟩ := Option.isSome_iff_exists.mp offloads
          have put : key ∈ keysOf offloaded := mem_filterMap.mpr
            ⟨entry.1, (of_mem_zip inside).1, reads⟩
          rw [← total] at put
          rcases noOrphan key put with deleted | ⟨job, stored, same⟩
          · rcases others _ deleted with
              ⟨_, equal⟩ | ⟨_, _, equal⟩ | equal <;> cases equal
          · cases stored with
            | single one =>
              rcases others _ one with
                ⟨_, equal⟩ | ⟨_, _, equal⟩ | equal <;> cases equal
            | batch one answers own =>
              rcases others _ one with
                ⟨_, equal⟩ | ⟨_, _, equal⟩ | equal
              · cases equal
              · cases equal
              · cases equal
                rw [reply] at answers
                cases answers
                rw [entry_of_key distinct inside own reads same]

end Verdict

/-! ## The four ways to submit -/

section Tails

variable {client : Client}

variable {jobs : List NewJob} {steps : List Did} {result : Except Failure (List JobId)}

theorem enqueueBatch_returns (returns : Returns (client.enqueueBatch jobs) steps result) :
    (∃ served : Served (List JobId), steps = [⟨.call (.enqueueBatch jobs), served⟩] ∧
          result = served.reply.mapError .spi) ∨
      (steps = [] ∧ ∃ failure, result = .error failure) := by
  unfold Client.enqueueBatch at returns
  split at returns
  · obtain ⟨served, later, rfl, rest⟩ := returns_act.mp returns
    obtain ⟨rfl, rfl⟩ := returns_done.mp rest
    exact Or.inl ⟨served, rfl, rfl⟩
  · obtain ⟨rfl, rfl⟩ := returns_done.mp returns
    exact Or.inr ⟨rfl, _, rfl⟩

theorem enqueueBatch_accepted {ids : List JobId}
    (returns : Returns (client.enqueueBatch jobs) steps (.ok ids)) :
    ∃ served : Served (List JobId), steps = [⟨.call (.enqueueBatch jobs), served⟩] ∧
      served.reply = .ok ids := by
  rcases enqueueBatch_returns returns with ⟨served, sent, replied⟩ | ⟨_, _, impossible⟩
  · cases accepted : served.reply with
    | error failure =>
      rw [accepted] at replied
      cases replied
    | ok given =>
      rw [accepted] at replied
      cases replied
      exact ⟨served, sent, accepted⟩
  · cases impossible

theorem enqueueBatch_noPuts (returns : Returns (client.enqueueBatch jobs) steps result) :
    NoPuts steps := by
  intro payload answer member
  rcases enqueueBatch_returns returns with ⟨served, rfl, _⟩ | ⟨rfl, _⟩
  · cases mem_singleton.mp member
  · cases member

theorem tail_of_refused {keeps : Bool} {jobs : List NewJob}
    {first second : List Did} {failure : Failure}
    (refused : Returns (client.enqueueBatch jobs) first (.error failure))
    (only : OnlyDeletes second)
    (asks : client.payloadStore = true → ∀ key ∈ keysOf jobs, Asked second key)
    {lead : List Did} (onlyLead : OnlyIds lead) :
    Tail client keeps jobs (lead ++ first ++ second) := by
  refine .cleaned ?_ ?_ ?_
  · exact noPuts_append.mpr ⟨noPuts_append.mpr
      ⟨onlyLead.noPuts, enqueueBatch_noPuts refused⟩, only.noPuts⟩
  · intro configured job member key reads
    obtain ⟨answer, asked⟩ := asks configured key (mem_filterMap.mpr ⟨job, member, reads⟩)
    exact Or.inl ⟨answer, mem_append_right _ asked⟩
  · intro _ sent served ids member accepts
    simp only [mem_append] at member
    rcases member with (idle | batch) | deletes
    · obtain ⟨_, equal⟩ := onlyLead _ idle
      cases equal
    · rcases enqueueBatch_returns refused with
        ⟨given, rfl, replied⟩ | ⟨rfl, _⟩
      · cases mem_singleton.mp batch
        rw [accepts] at replied
        cases replied
      · cases batch
    · obtain ⟨_, _, equal⟩ := only _ deletes
      cases equal

theorem submit_tail {job : NewJob} {payload : Blob} {result : Except Failure JobId}
    (returns : Returns (client.submit job payload) steps result) :
    Tail client false [{ job with payload := payload }] steps := by
  obtain ⟨first, returned, second, rfl, head, tail⟩ := returns_bind.mp returns
  obtain ⟨served, later, rfl, rest⟩ := returns_act.mp head
  obtain ⟨rfl, rfl⟩ := returns_done.mp rest
  have noPut : ∀ deletes : List Did, OnlyDeletes deletes →
      NoPuts ([⟨.call (.enqueue { job with payload := payload }), served⟩] ++ deletes) := by
    intro deletes only put answer member
    rcases mem_append.mp member with early | late
    · cases mem_singleton.mp early
    · exact only.noPuts put answer late
  -- Whatever the broker answered, a clean-up asks for the blob to be deleted.
  have cleaned : ∀ deletes ended, Returns (client.cleanupOffload payload) deletes ended →
      Tail client false [{ job with payload := payload }]
        ([⟨.call (.enqueue { job with payload := payload }), served⟩] ++ deletes) := by
    intro deletes ended cleans
    obtain ⟨only, asks⟩ := cleanupOffload_returns cleans
    refine .cleaned (noPut _ only) ?_ (by rintro ⟨⟩)
    intro configured other member key reads
    rw [mem_singleton.mp member] at reads
    obtain ⟨answer, asked⟩ := asks configured key reads
    exact Or.inl ⟨answer, mem_append_right _ asked⟩
  cases replied : served.reply with
  | error failure =>
    rw [replied] at tail
    obtain ⟨cleanup, _, last, rfl, cleans, ends⟩ := returns_bind.mp tail
    obtain ⟨rfl, _⟩ := returns_done.mp ends
    rw [append_nil]
    exact cleaned _ _ cleans
  | ok id =>
    rw [replied] at tail
    obtain ⟨cleanup, _, last, rfl, cleans, ends⟩ := returns_bind.mp tail
    obtain ⟨rfl, _⟩ := returns_done.mp ends
    rw [append_nil]
    unfold Client.cleanupDedupedOffload at cleans
    split at cleans
    · next same =>
      obtain ⟨rfl, _⟩ := returns_done.mp cleans
      refine .cleaned (noPut _ (by rintro _ ⟨⟩)) ?_ (by rintro ⟨⟩)
      intro configured other member key reads
      rw [mem_singleton.mp member]
      refine Or.inr (.single (mem_append_left _ (mem_singleton.mpr rfl)) ?_)
      rw [replied, same]
    · exact cleaned _ _ cleans

theorem submitAll_tail (returns : Returns (client.submitAll jobs) steps result)
    (answered : ∀ (served : Served (List JobId)) (ids : List JobId),
      (⟨.call (.enqueueBatch jobs), served⟩ : Did) ∈ steps →
      served.reply = .ok ids → ids.length = jobs.length) :
    Tail client false jobs steps := by
  obtain ⟨first, returned, second, rfl, head, tail⟩ := returns_bind.mp returns
  cases returned with
  | error failure =>
    obtain ⟨cleanup, _, last, rfl, cleans, ends⟩ := returns_bind.mp tail
    obtain ⟨rfl, _⟩ := returns_done.mp ends
    obtain ⟨only, asks⟩ := cleanupOffloads_returns cleans
    rw [append_nil]
    have tail := @tail_of_refused client false jobs first cleanup failure
      head only asks [] (by rintro _ ⟨⟩)
    exact tail
  | ok ids =>
    obtain ⟨cleanup, _, last, rfl, cleans, ends⟩ := returns_bind.mp tail
    obtain ⟨rfl, _⟩ := returns_done.mp ends
    obtain ⟨only, asks⟩ := cleanupDeduped_returns cleans
    rw [append_nil] at answered ⊢
    refine .cleaned (noPuts_append.mpr ⟨enqueueBatch_noPuts head, only.noPuts⟩) ?_ (by rintro ⟨⟩)
    intro configured job member key reads
    obtain ⟨served, rfl, accepted⟩ := enqueueBatch_accepted head
    have sent : (⟨.call (.enqueueBatch jobs), served⟩ : Did) ∈
        [⟨.call (.enqueueBatch jobs), served⟩] ++ cleanup := by
      simp
    have length := answered served ids sent accepted
    obtain ⟨index, bound, rfl⟩ := getElem_of_mem member
    have inside : index < ids.length := by omega
    have paired : (jobs[index], ids[index]) ∈ jobs.zip ids :=
      mem_iff_getElem.mpr ⟨index, by simp; omega, by simp⟩
    by_cases own : ids[index] = jobs[index].id
    · rw [own] at paired
      exact Or.inr (.batch sent accepted paired)
    · obtain ⟨answer, asked⟩ := asks configured _ paired own key reads
      exact Or.inl ⟨answer, mem_append_right _ asked⟩

theorem keeping_tail {β : Type} {lead : List Did}
    {failed : Failure → β} {passed result : β} (onlyLead : OnlyIds lead)
    {cleanup : Action Unit}
    (cleans : ∀ deletes ended, Returns cleanup deletes ended →
      OnlyDeletes deletes ∧ (client.payloadStore = true → ∀ key ∈ keysOf jobs, Asked deletes key))
    (returns : Returns (do
      match ← client.enqueueBatch jobs with
      | .error failure =>
        cleanup
        return failed failure
      | .ok _ => return passed) steps result) :
    Tail client true jobs (lead ++ steps) := by
  obtain ⟨first, returned, second, rfl, head, tail⟩ := returns_bind.mp returns
  cases returned with
  | error failure =>
    obtain ⟨deletes, _, last, rfl, cleaning, ends⟩ := returns_bind.mp tail
    obtain ⟨rfl, _⟩ := returns_done.mp ends
    obtain ⟨only, asks⟩ := cleans _ _ cleaning
    rw [append_nil, ← append_assoc]
    exact tail_of_refused head only asks onlyLead
  | ok ids =>
    obtain ⟨rfl, _⟩ := returns_done.mp tail
    rw [append_nil]
    obtain ⟨served, rfl, accepted⟩ := enqueueBatch_accepted head
    exact .accepted rfl onlyLead accepted

end Tails

/-- A `JobBuilder`: its payload was serialized by `to_payload`. -/
structure JobBuilder where
  job : NewJob
  inline : referenceKey job.payload = none

/-- The calls that submit jobs: `JobBuilder::enqueue`, `enqueue_to_lanes`,
`fan_in_with_policy`, and the callback enqueue of a fan-in watcher. -/
inductive Submission where
  | enqueue (client : Client) (builder : JobBuilder)
  | toLanes (client : Client) (builder : JobBuilder) (lanes : List Lane)
  | fanIn (crates : Crates) (client : Client) (faninId : String)
      (dependencies : List JobBuilder) (callbackKind : String)
      (context : Serialized) (policy : FanInPolicy)
  | callback (crates : Crates) (client : Client)
      (payload : FanInWatcherPayload) (results : List Blob)

namespace Submission

def program : Submission → Action Unit
  | .enqueue client builder => do
      let _ ← client.enqueueJob builder.job
  | .toLanes client builder lanes => do
      let _ ← client.fanOut builder.job lanes
  | .fanIn crates client faninId dependencies callbackKind context policy =>
    do
      let _ ← client.fanInWithPolicy crates faninId
        (dependencies.map JobBuilder.job) callbackKind context policy
  | .callback crates client payload results => do
      let _ ← Watcher.fire crates client payload results

def client : Submission → Client
  | .enqueue client _ => client
  | .toLanes client _ _ => client
  | .fanIn _ client _ _ _ _ _ => client
  | .callback _ client _ _ => client

/-- The payloads the call may offload, in order. -/
def payloads : Submission → List Blob
  | .enqueue _ builder => [builder.job.payload]
  | .toLanes _ builder lanes => lanes.map fun _ => builder.job.payload
  | .fanIn crates client faninId dependencies callbackKind context policy =>
    let jobs := dependencies.map JobBuilder.job
    jobs.map NewJob.payload ++ match client.watcherPayload faninId jobs callbackKind context policy
      with
      | .ok payload => [(crates.toWatcher payload).bytes]
      | .error _ => []
  | .callback crates _ payload results =>
    match crates.fanInResultsPayload payload.callbackPayload results with
    | .ok bytes => [bytes.bytes]
    | .error _ => []

/-- Whether the call ignores the ids its batch is answered with. -/
def ignoresIds : Submission → Bool
  | .enqueue _ _ => false
  | .toLanes _ _ _ => false
  | .fanIn _ _ _ _ _ _ _ => true
  | .callback _ _ _ _ => true

/-- The steps of a submission have one of the shapes. -/
def Shaped (submission : Submission) (steps : List Did) : Prop :=
  ∃ jobs : List NewJob, Shape submission.client submission.ignoresIds jobs steps ∧
      (∀ job ∈ jobs, referenceKey job.payload = none) ∧
      (putKeys steps ≠ [] → jobs.map NewJob.payload = submission.payloads)

variable {steps : List Did}

theorem shaped_of_quiet {submission : Submission}
    (none : putKeys steps = []) : submission.Shaped steps :=
  ⟨[], .quiet none, by simp, fun some => absurd none some⟩

theorem shaped_of_done {submission : Submission} {α : Type} {value result : α}
    (returns : Returns (.done value) steps result) : submission.Shaped steps := by
  obtain ⟨rfl, _⟩ := returns_done.mp returns
  exact shaped_of_quiet rfl

theorem shape_of_offload {client : Client} {keeps : Bool} {β : Type}
    {jobs : List NewJob} {lead : List Did}
    {submit : List NewJob → Action (Except Failure β)}
    {result : Except Failure β} (only : OnlyIds lead)
    (tails : ∀ offloaded rest ended, rest <:+ steps → Returns (submit offloaded) rest ended →
        Tail client keeps offloaded rest)
    (returns : Returns (andThen (client.offloadAll jobs) submit) steps result) :
    Shape client keeps jobs (lead ++ steps) := by
  obtain ⟨first, outcome, second, rfl, head, tail⟩ := returns_bind.mp returns
  rcases offloadAll_cases head with
    ⟨offloaded, rfl, all⟩ | ⟨failure, rfl, broken⟩
  · rw [← append_assoc]
    exact .submitted only all (tails offloaded second result (suffix_append _ _) tail)
  · obtain ⟨rfl, _⟩ := returns_done.mp tail
    rw [append_nil]
    exact .broken only broken

theorem enqueue_shaped (client : Client) (builder : JobBuilder) {result : Except Failure JobId}
    (returns : Returns (client.enqueueJob builder.job) steps result) :
    (enqueue client builder).Shaped steps := by
  unfold Client.enqueueJob at returns
  split at returns
  · exact shaped_of_done returns
  · refine ⟨[builder.job], ?_, ?_, fun _ => rfl⟩
    · obtain ⟨first, outcome, second, rfl, head, tail⟩ := returns_bind.mp returns
      have offload := offload_of_returns head
      cases outcome with
      | error failure =>
        obtain ⟨rfl, _⟩ := returns_done.mp tail
        refine .quiet ?_
        cases offload <;> rfl
      | ok payload =>
        have all := OffloadedAll.cons offload OffloadedAll.nil
        rw [append_nil] at all
        exact @Shape.submitted _ _ _ [] first second _ (by rintro _ ⟨⟩) all (submit_tail tail)
    · intro job member
      rw [mem_singleton.mp member]
      exact builder.inline

theorem toLanes_shaped (client : Client) (builder : JobBuilder) (lanes : List Lane)
    {result : Except Failure (List JobId)}
    (returns : Returns (client.fanOut builder.job lanes) steps result)
    (environment : Environment steps) :
    (toLanes client builder lanes).Shaped steps := by
  obtain ⟨lead, jobs, rest, rfl, copied, tail⟩ := returns_bind.mp returns
  obtain ⟨only, _, payloads, _⟩ := copies_returns copied
  split at tail
  · obtain ⟨rfl, _⟩ := returns_done.mp tail
    exact shaped_of_quiet (by simp [only.putKeys])
  · split at tail
    · obtain ⟨rfl, _⟩ := returns_done.mp tail
      exact shaped_of_quiet (by simp [only.putKeys])
    · refine ⟨jobs, ?_, ?_, fun _ => payloads⟩
      · refine shape_of_offload only ?_ tail
        intro offloaded more ended suffix submits
        refine submitAll_tail submits ?_
        intro served ids member
        exact environment.answered offloaded served ids (mem_append_right _ (suffix.subset member))
      · intro job member
        have inside := mem_map_of_mem (f := NewJob.payload) member
        rw [payloads] at inside
        obtain ⟨lane, _, same⟩ := mem_map.mp inside
        rw [← same]
        exact builder.inline

theorem fanIn_shaped (crates : Crates) (client : Client) (faninId : String)
    (dependencies : List JobBuilder) (callbackKind : String)
    (context : Serialized) (policy : FanInPolicy)
    {result : Except Failure Unit}
    (returns : Returns (client.fanInWithPolicy crates faninId
      (dependencies.map JobBuilder.job) callbackKind context policy) steps
      result) :
    (fanIn crates client faninId dependencies callbackKind context policy).Shaped steps := by
  unfold Client.fanInWithPolicy at returns
  split at returns
  · exact shaped_of_done returns
  · split at returns
    · exact shaped_of_done returns
    · split at returns
      · exact shaped_of_done returns
      · next payload made =>
        unfold Client.buildJob newId at returns
        rw [bind_assoc] at returns
        obtain ⟨id, later, rfl, tail⟩ := returns_perform_bind.mp returns
        rw [pure_eq, done_bind] at tail
        have only : OnlyIds [(⟨.newId, id⟩ : Did)] := by
          intro step member
          exact ⟨id, mem_singleton.mp member⟩
        simp only at tail
        split at tail
        · obtain ⟨rfl, _⟩ := returns_done.mp tail
          exact shaped_of_quiet only.putKeys
        · refine ⟨_, shape_of_offload only ?_ tail, ?_, ?_⟩
          · intro offloaded rest ended _ submits
            have none : OnlyIds [] := by
              rintro _ ⟨⟩
            exact keeping_tail none (fun deletes ended cleans => cleanupOffloads_returns cleans)
              submits
          · intro job member
            rcases mem_append.mp member with early | last
            · obtain ⟨builder, _, rfl⟩ := mem_map.mp early
              exact builder.inline
            · rw [mem_singleton.mp last]
              exact (crates.toWatcher payload).inline
          · intro _
            simp [payloads, made, Client.newJob]

theorem callback_shaped (crates : Crates) (client : Client)
    (payload : FanInWatcherPayload) (results : List Blob) {result : Except String Unit}
    (returns : Returns (Watcher.fire crates client payload results) steps result) :
    (callback crates client payload results).Shaped steps := by
  unfold Watcher.fire at returns
  split at returns
  · exact shaped_of_done returns
  · split at returns
    · exact shaped_of_done returns
    · next bytes made =>
      split at returns
      · exact shaped_of_done returns
      · next lane parsed =>
        split at returns
        · exact shaped_of_done returns
        · obtain ⟨first, outcome, second, rfl, head, tail⟩ := returns_bind.mp returns
          obtain ⟨steps, given, idle, rfl, offloading, boxes⟩ := returns_bind.mp head
          obtain ⟨rfl, rfl⟩ := returns_done.mp boxes
          rw [append_nil]
          have offload := offload_of_returns offloading
          cases given with
          | error failure =>
            obtain ⟨rfl, _⟩ := returns_done.mp tail
            apply shaped_of_quiet
            cases offload <;> rfl
          | ok offloaded =>
            obtain ⟨id, later, rfl, submits⟩ := returns_act.mp tail
            let job := Watcher.callbackJob payload lane bytes.bytes id
            have all := OffloadedAll.cons (show Offload client job.payload steps (.ok offloaded)
                from offload) OffloadedAll.nil
            rw [append_nil] at all
            refine ⟨[job], ?_, ?_, ?_⟩
            · refine @Shape.submitted _ _ _ [] steps _ _ (by rintro _ ⟨⟩) all ?_
              have minted : OnlyIds [⟨.newId, id⟩] := by
                intro step member
                exact ⟨id, mem_singleton.mp member⟩
              refine keeping_tail minted ?_ submits
              intro deletes ended cleans
              obtain ⟨only, asks⟩ := cleanupOffload_returns cleans
              refine ⟨only, fun configured key member => ?_⟩
              obtain ⟨other, inside, reads⟩ := mem_filterMap.mp member
              rw [mem_singleton.mp inside] at reads
              exact asks configured key reads
            · intro other member
              rw [mem_singleton.mp member]
              exact bytes.inline
            · intro _
              simp [payloads, made, job, Watcher.callbackJob]

theorem shaped {submission : Submission} {ended : Unit}
    (returns : Returns submission.program steps ended)
    (environment : Environment steps) : submission.Shaped steps := by
  cases submission with
  | enqueue client builder =>
    obtain ⟨first, result, last, rfl, main, ends⟩ := returns_bind.mp returns
    obtain ⟨rfl, _⟩ := returns_done.mp ends
    rw [append_nil]
    exact enqueue_shaped client builder main
  | toLanes client builder lanes =>
    obtain ⟨first, result, last, rfl, main, ends⟩ := returns_bind.mp returns
    obtain ⟨rfl, _⟩ := returns_done.mp ends
    rw [append_nil] at environment ⊢
    exact toLanes_shaped client builder lanes main environment
  | fanIn crates client faninId dependencies callbackKind context policy =>
    obtain ⟨first, result, last, rfl, main, ends⟩ := returns_bind.mp returns
    obtain ⟨rfl, _⟩ := returns_done.mp ends
    rw [append_nil]
    exact fanIn_shaped crates client faninId dependencies callbackKind context policy main
  | callback crates client payload results =>
    obtain ⟨first, result, last, rfl, main, ends⟩ := returns_bind.mp returns
    obtain ⟨rfl, _⟩ := returns_done.mp ends
    rw [append_nil]
    exact callback_shaped crates client payload results main

/-- A submission that is tidy leaves no blob behind and, when the keys of its
blobs are distinct, only such a submission does. -/
theorem noOrphan_iff_tidy (submission : Submission) {steps : List Did}
    (returns : Returns submission.program steps ())
    (environment : Environment steps) :
    (Tidy submission.client submission.ignoresIds submission.payloads steps → NoOrphan steps) ∧
      ((putKeys steps).Nodup → (NoOrphan steps ↔
        Tidy submission.client submission.ignoresIds submission.payloads steps)) := by
  obtain ⟨jobs, shape, inline, payloads⟩ := shaped returns environment
  have sufficient : Tidy submission.client submission.ignoresIds
      submission.payloads steps → NoOrphan steps := by
    intro tidy
    refine shape.noOrphan inline environment fun some => ?_
    rw [payloads some]
    exact tidy some
  refine ⟨sufficient, fun fresh => ⟨fun noOrphan some => ?_, sufficient⟩⟩
  have held := shape.tidy inline fresh noOrphan some
  rwa [payloads some] at held

section Cases

/-- A client that offloads every payload. -/
def offloading : Client where
  batches := true
  resultStore := false
  payloadStore := true
  offloadThreshold := 0
  defaultMaxAttempts := 1
  lane := ⟨"a"⟩
  priority := 0
  laneRegistry := none

def digit : JobBuilder where
  job := offloading.newJob "kind" ⟨[49], referenceKey_digit⟩ ⟨⟨0⟩⟩
  inline := by decide

def twoLanes : Submission := .toLanes offloading digit [⟨"a"⟩, ⟨"b"⟩]

/-- The copy for a lane, after its payload was offloaded. -/
def copied (lane : Lane) (id : JobId) (key : String) : NewJob :=
  { digit.job with lane := lane, id := id, payload := makeReference key }

def copiedBatch : List NewJob :=
  [copied ⟨"a"⟩ ⟨⟨1⟩⟩ "first", copied ⟨"b"⟩ ⟨⟨2⟩⟩ "second"]

def accepted : Served (List JobId) :=
  ⟨0, ⟨⟨0⟩⟩, .ok [⟨⟨1⟩⟩, ⟨⟨2⟩⟩]⟩

/-- Both copies are offloaded and stored. -/
def storedSteps : List Did :=
  [⟨.newId, ⟨⟨1⟩⟩⟩, ⟨.newId, ⟨⟨2⟩⟩⟩, ⟨.put [49], .ok "first"⟩,
    ⟨.put [49], .ok "second"⟩, ⟨.call (.enqueueBatch copiedBatch), accepted⟩]

/-- The second put fails. -/
def brokenSteps : List Did :=
  [⟨.newId, ⟨⟨1⟩⟩⟩, ⟨.newId, ⟨⟨2⟩⟩⟩, ⟨.put [49], .ok "first"⟩,
    ⟨.put [49], .error (.spi (.broker "unavailable"))⟩]

theorem storedSteps_returned : Returns twoLanes.program storedSteps () :=
  .step (.step (.step (.step (.step (.refl _)))))

theorem storedSteps_environment : Environment storedSteps where
  deletes := by simp [storedSteps]
  answered := by
    intro jobs served ids member replied
    simp only [storedSteps, mem_cons, not_mem_nil, or_false] at member
    rcases member with equal | equal | equal | equal | equal
    · cases equal
    · cases equal
    · cases equal
    · cases equal
    · cases equal
      cases replied
      rfl

theorem noOrphan_iff_tidy_storedSteps :
    Returns twoLanes.program storedSteps () ∧ Environment storedSteps ∧ (NoOrphan storedSteps ↔
        Tidy offloading false [[49], [49]] storedSteps) :=
  ⟨storedSteps_returned, storedSteps_environment, (noOrphan_iff_tidy twoLanes storedSteps_returned
      storedSteps_environment).2 (by decide)⟩

/-- The blob of the first lane stays behind when the second put fails. -/
theorem brokenSteps_orphan : Returns twoLanes.program brokenSteps () ∧ Environment brokenSteps ∧
      ¬ NoOrphan brokenSteps := by
  refine ⟨.step (.step (.step (.step (.refl _)))), ?_, ?_⟩
  · exact ⟨by simp [brokenSteps], by simp [brokenSteps]⟩
  · intro noOrphan
    have put : "first" ∈ putKeys brokenSteps := by decide
    rcases noOrphan "first" put with deleted | ⟨job, stored, _⟩
    · simp [Deleted, brokenSteps] at deleted
    · cases stored with
      | single member => simp [brokenSteps] at member
      | batch member => simp [brokenSteps] at member

end Cases

end Submission

end Worklane.Facade
