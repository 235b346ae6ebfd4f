import Worklane.Facade.Client
import Worklane.Facade.History

/-!
# The offload loop

A submission offloads its payloads one after the other, and the first failure
ends the call.  A loop that succeeds has put exactly the blobs its jobs then
refer to.
-/

namespace Worklane.Facade

open List
open Lib.Program

/-- A put that failed. -/
def PutFailed (steps : List Did) : Prop :=
  ∃ payload failure, (⟨.put payload, .error failure⟩ : Did) ∈ steps

/-- The broker stored this job of the call: it answered with its own id. -/
inductive StoredBy (steps : List Did) (job : NewJob) : Prop
  | single {served : Served JobId} (member : (⟨.call (.enqueue job), served⟩ : Did) ∈ steps)
      (own : served.reply = .ok job.id)
  | batch {jobs : List NewJob} {served : Served (List JobId)} {ids : List JobId}
      (member : (⟨.call (.enqueueBatch jobs), served⟩ : Did) ∈ steps)
      (reply : served.reply = .ok ids)
      (own : (job, job.id) ∈ jobs.zip ids)

section Offload

variable (client : Client)

def Client.offloads (payload : Blob) : Prop :=
  client.payloadStore ∧ client.offloadThreshold < payload.length

instance (payload : Blob) : Decidable (client.offloads payload) :=
  inferInstanceAs (Decidable (_ ∧ _))

/-- A payload that is not offloaded is within the inline limit. -/
def Client.fits (payload : Blob) : Prop :=
  client.offloads payload ∨ payload.length ≤ maxEnvelopeBytes

/-- The runs of `maybe_offload`. -/
inductive Offload (payload : Blob) : List Did → Except Failure Blob → Prop
  | stored (key : String) (offloads : client.offloads payload) :
      Offload payload [⟨.put payload, .ok key⟩] (.ok (makeReference key))
  | failed (failure : Failure) (offloads : client.offloads payload) :
      Offload payload [⟨.put payload, .error failure⟩] (.error failure)
  | tooLarge (failure : Failure) (large : ¬ client.fits payload) :
      Offload payload [] (.error failure)
  | inline (stays : ¬ client.offloads payload)
      (fits : client.fits payload) : Offload payload [] (.ok payload)

variable {client}

variable {steps : List Did}

theorem offload_of_returns {payload : Blob} {result : Except Failure Blob}
    (returns : Returns (client.maybeOffload payload) steps result) :
    Offload client payload steps result := by
  unfold Client.maybeOffload at returns
  split at returns
  · next offloads =>
    obtain ⟨first, stored, second, rfl, put, rest⟩ := returns_bind.mp returns
    obtain rfl := returns_perform.mp put
    obtain ⟨rfl, rfl⟩ := returns_done.mp rest
    cases stored with
    | error failure => exact .failed failure offloads
    | ok key => exact .stored key offloads
  · next stays =>
    split at returns
    · next large =>
      obtain ⟨rfl, rfl⟩ := returns_done.mp returns
      refine .tooLarge _ ?_
      rintro (offloads | small)
      · exact stays offloads
      · omega
    · next small =>
      obtain ⟨rfl, rfl⟩ := returns_done.mp returns
      exact .inline stays (Or.inr (by omega))

variable (client)

/-- The runs of the offload loop that succeed. -/
inductive OffloadedAll : List NewJob → List Did → List NewJob → Prop
  | nil : OffloadedAll [] [] []
  | cons {job : NewJob} {rest offloaded : List NewJob} {first later : List Did} {payload : Blob}
      (head : Offload client job.payload first (.ok payload))
      (tail : OffloadedAll rest later offloaded) :
      OffloadedAll (job :: rest) (first ++ later) ({ job with payload := payload } :: offloaded)

/-- The runs of the offload loop that fail. -/
structure OffloadBroken (jobs : List NewJob) (steps : List Did) : Prop where
  puts : ∀ step ∈ steps, ∃ payload answer, step = ⟨.put payload, answer⟩
  reason : PutFailed steps ∨ ∃ job ∈ jobs, ¬ client.fits job.payload

variable {client}

theorem Offload.puts {payload : Blob} {result : Except Failure Blob}
    (offload : Offload client payload steps result) :
    ∀ step ∈ steps, ∃ payload answer, step = ⟨.put payload, answer⟩ := by
  intro step member
  cases offload with
  | stored key => exact ⟨payload, .ok key, mem_singleton.mp member⟩
  | failed failure =>
    exact ⟨payload, .error failure, mem_singleton.mp member⟩
  | tooLarge => cases member
  | inline => cases member

theorem offloadAll_cases {jobs : List NewJob} {result : Except Failure (List NewJob)}
    (returns : Returns (client.offloadAll jobs) steps result) :
    (∃ offloaded, result = .ok offloaded ∧ OffloadedAll client jobs steps offloaded) ∨
      (∃ failure, result = .error failure ∧ OffloadBroken client jobs steps) := by
  induction jobs generalizing steps result with
  | nil =>
    obtain ⟨rfl, rfl⟩ := returns_done.mp returns
    exact Or.inl ⟨[], rfl, .nil⟩
  | cons job rest ih =>
    unfold Client.offloadAll at returns
    obtain ⟨first, outcome, later, rfl, head, tail⟩ := returns_bind.mp returns
    have offload := offload_of_returns head
    cases outcome with
    | error failure =>
      obtain ⟨rfl, rfl⟩ := returns_done.mp tail
      rw [append_nil]
      refine Or.inr ⟨failure, rfl, offload.puts, ?_⟩
      cases offload with
      | failed =>
        exact Or.inl ⟨job.payload, failure, mem_singleton.mpr rfl⟩
      | tooLarge _ large => exact Or.inr ⟨job, mem_cons_self .., large⟩
    | ok payload =>
      obtain ⟨second, ended, third, rfl, more, last⟩ := returns_bind.mp tail
      rcases ih more with
        ⟨offloaded, rfl, all⟩ | ⟨failure, rfl, broken⟩
      · obtain ⟨rfl, rfl⟩ := returns_done.mp last
        rw [append_nil]
        exact Or.inl ⟨_, rfl, .cons offload all⟩
      · obtain ⟨rfl, rfl⟩ := returns_done.mp last
        rw [append_nil]
        refine Or.inr ⟨failure, rfl, ?_, ?_⟩
        · intro step member
          rcases mem_append.mp member with early | late
          · exact offload.puts step early
          · exact broken.puts step late
        · rcases broken.reason with ⟨put, failure, member⟩ | ⟨other, member, large⟩
          · exact Or.inl ⟨put, failure, mem_append_right _ member⟩
          · exact Or.inr ⟨other, mem_cons_of_mem _ member, large⟩

theorem OffloadedAll.spec {jobs offloaded : List NewJob}
    (all : OffloadedAll client jobs steps offloaded)
    (inline : ∀ job ∈ jobs, referenceKey job.payload = none) :
    putKeys steps = keysOf offloaded ∧ ¬ PutFailed steps ∧ (∀ job ∈ jobs, client.fits job.payload) ∧
      (∀ step ∈ steps, ∃ payload answer, step = ⟨.put payload, answer⟩) ∧
      ∀ key ∈ keysOf offloaded, client.payloadStore = true := by
  induction all with
  | nil =>
    exact ⟨rfl, by rintro ⟨_, _, ⟨⟩⟩, by simp, by simp, by rintro _ ⟨⟩⟩
  | @cons job rest offloaded first later payload head tail
      ih =>
      obtain ⟨keys, worked, fits, puts, store⟩ := ih
        fun other member => inline other (mem_cons_of_mem _ member)
      have own := inline job (mem_cons_self ..)
      have firstKeys : putKeys first = (referenceKey payload).toList := by
        cases head with
        | stored key => simp [putKeys, putKey, Except.toOption]
        | inline => simp [putKeys, own]
      have firstWorked : ¬ PutFailed first := by
        rintro ⟨put, failure, member⟩
        cases head with
        | stored key => cases mem_singleton.mp member
        | inline => cases member
      have firstFits : client.fits job.payload := by
        cases head with
        | stored key offloads => exact Or.inl offloads
        | inline stays fits => exact fits
      refine ⟨?_, ?_, ?_, ?_, ?_⟩
      · rw [putKeys_append, firstKeys, keys, keysOf, keysOf, filterMap_cons]
        cases referenceKey payload <;> simp
      · rintro ⟨put, failure, member⟩
        rcases mem_append.mp member with early | late
        · exact firstWorked ⟨put, failure, early⟩
        · exact worked ⟨put, failure, late⟩
      · intro other member
        rcases mem_cons.mp member with rfl | later
        · exact firstFits
        · exact fits other later
      · intro step member
        rcases mem_append.mp member with early | late
        · exact head.puts step early
        · exact puts step late
      · intro key member
        obtain ⟨other, inside, reads⟩ := mem_filterMap.mp member
        rcases mem_cons.mp inside with rfl | later
        · cases head with
          | stored _ offloads => exact offloads.1
          | inline => simp [own] at reads
        · exact store key (mem_filterMap.mpr ⟨other, later, reads⟩)

end Offload

theorem entry_of_key {jobs : List NewJob} {ids : List JobId}
    (distinct : (keysOf jobs).Nodup) {first second : NewJob × JobId}
    (left : first ∈ jobs.zip ids) (right : second ∈ jobs.zip ids)
    {key : String} (leftReads : referenceKey first.1.payload = some key)
    (rightReads : referenceKey second.1.payload = some key) :
    first = second := by
  induction jobs generalizing ids with
  | nil => simp at left
  | cons job rest ih =>
    cases ids with
    | nil => simp at left
    | cons id more =>
      have inner : (keysOf rest).Nodup :=
        distinct.sublist ((sublist_cons_self job rest).filterMap _)
      -- The key of the first job is no other job's.
      have apart : referenceKey job.payload = some key → ∀ entry ∈ rest.zip more,
            referenceKey entry.1.payload ≠ some key := by
        intro reads entry member same
        simp only [keysOf, filterMap_cons, reads, nodup_cons] at distinct
        exact distinct.1 (mem_filterMap.mpr ⟨entry.1, (of_mem_zip member).1, same⟩)
      rw [zip_cons_cons, mem_cons] at left right
      rcases left with rfl | left <;> rcases right with rfl | right
      · rfl
      · exact absurd rightReads (apart leftReads second right)
      · exact absurd leftReads (apart rightReads first left)
      · exact ih inner left right

end Worklane.Facade
