import Worklane.Facade.Client
import Worklane.Facade.History

/-!
# Rules for the parts of a client

One rule for each subprogram of a submission: what a law has to allow for it,
and the histories it ends with.
-/

namespace Worklane.Facade

open List
open Lib.Program

section Rules

variable {law : List Did → Op → Prop} {past : List Did}

/-! ## Offloading -/

/-- How `maybe_offload` ends. -/
inductive Offloaded (past : List Did) (payload : Blob) : Except Failure Blob → List Did → Prop
  | stored (key : String) : Offloaded past payload (.ok (makeReference key))
        (past ++ [⟨.put payload, .ok key⟩])
  | failed (failure : Failure) : Offloaded past payload (.error failure)
        (past ++ [⟨.put payload, .error failure⟩])
  | tooLarge (failure : Failure) : Offloaded past payload (.error failure) past
  | inline : Offloaded past payload (.ok payload) past

variable {client : Client} {payload : Blob}

theorem lawful_maybeOffload (put : law past (.put payload)) :
    Lawful law (Offloaded past payload) past (client.maybeOffload payload) := by
  unfold Client.maybeOffload
  split
  · refine lawful_bind.mpr (lawful_perform.mpr ⟨put, fun answer => ?_⟩)
    cases answer with
    | error failure => exact .failed failure
    | ok key => exact .stored key
  · split
    · exact .tooLarge _
    · exact .inline

variable {history : List Did}

/-- The offloaded payload stands for the payload, and for nothing else when
nothing was put before. -/
theorem Offloaded.carries {stored : Blob} (offloaded : Offloaded past payload (.ok stored) history)
    (plain : referenceKey payload = none) :
    Carries history payload stored := by
  cases offloaded with
  | stored key => exact .offloaded (by simp)
  | inline => exact .inline plain

theorem Offloaded.unique {stored other : Blob}
    (offloaded : Offloaded past payload (.ok stored) history)
    (plain : referenceKey payload = none) (noPuts : NoPuts past)
    (carries : Carries history other stored) : other = payload := by
  cases offloaded with
  | stored key =>
    generalize same : makeReference key = reference at carries
    cases carries with
    | inline none =>
      rw [← same, referenceKey_makeReference] at none
      cases none
    | offloaded put =>
      rcases mem_append.mp put with early | last
      · exact absurd early (noPuts _ _)
      · cases mem_singleton.mp last
        rfl
  | inline =>
    cases carries with
    | inline _ => rfl
    | offloaded put => exact absurd put (noPuts _ _)

/-! ## Cleaning up -/

/-- How `cleanup_offload` ends. -/
inductive Cleaned (past : List Did) (payload : Blob) : List Did → Prop
  | kept : Cleaned past payload past
  | deleted {key : String} (reads : referenceKey payload = some key)
      (answer : Except Failure Unit) :
      Cleaned past payload (past ++ [⟨.delete key, answer⟩])

theorem Cleaned.mem {step : Did} (cleaned : Cleaned past payload history) (member : step ∈ past) :
    step ∈ history := by
  cases cleaned with
  | kept => exact member
  | deleted => exact mem_append_left _ member

theorem lawful_cleanupOffload
    (delete : ∀ key, referenceKey payload = some key → law past (.delete key)) :
    Lawful law (fun _ => Cleaned past payload) past (client.cleanupOffload payload) := by
  unfold Client.cleanupOffload
  split
  · next key _ reads =>
    exact lawful_bind.mpr (lawful_perform.mpr
      ⟨delete key reads, fun answer => .deleted reads answer⟩)
  · exact Cleaned.kept

/-! ## Submitting -/

theorem lawful_enqueueBatch {jobs : List NewJob}
    {post : Except Failure (List JobId) → List Did → Prop}
    (allowed : law past (.call (.enqueueBatch jobs)))
    (unsupported : ∀ failure, post (.error failure) past)
    (served : ∀ answer : Served (List JobId), post (answer.reply.mapError .spi)
        (past ++ [⟨.call (.enqueueBatch jobs), answer⟩])) :
    Lawful law post past (client.enqueueBatch jobs) := by
  unfold Client.enqueueBatch
  split
  · exact lawful_call.mpr ⟨allowed, served⟩
  · exact unsupported _

/-- The reply says the job was not stored under its own id. -/
def Refuses (reply : Except Error JobId) (job : NewJob) : Prop :=
  ∀ id, reply = .ok id → id ≠ job.id

theorem lawful_enqueueJob {job : NewJob} (put : law past (.put job.payload))
    (enqueue : ∀ stored history, Offloaded past job.payload (.ok stored) history →
        law history (.call (.enqueue { job with payload := stored })))
    (delete : ∀ (stored : Blob) (history : List Did) (served : Served JobId) (key : String),
      Offloaded past job.payload (.ok stored) history →
      referenceKey stored = some key → Refuses served.reply job → law (history ++
          [⟨.call (.enqueue { job with payload := stored }), served⟩])
          (.delete key)) :
    Lawful law (fun result history => ∀ id, result = .ok id →
        ∃ (stored : Blob) (served : Served JobId),
          (⟨.call (.enqueue { job with payload := stored }), served⟩ : Did) ∈
            history ∧ served.reply = .ok id)
      past (client.enqueueJob job) := by
  unfold Client.enqueueJob
  split
  · rintro id ⟨⟩
  · refine lawful_andThen (lawful_maybeOffload put) ?_ ?_
    · rintro failure history _ id ⟨⟩
    · intro stored history offloaded
      refine lawful_bind.mpr (lawful_call.mpr ⟨enqueue stored history offloaded, fun served => ?_⟩)
      cases replied : served.reply with
      | error failure =>
        refine Lawful.bind (lawful_cleanupOffload ?_) ?_
        · intro key reads
          refine delete stored history served key offloaded reads ?_
          rintro id same
          rw [replied] at same
          cases same
        · rintro _ _ _ id ⟨⟩
      | ok returned =>
        have stays : ∀ id, (Except.ok returned : Except Failure JobId) =
            .ok id → served.reply = .ok id := by
          rintro id ⟨⟩
          exact replied
        show Lawful _ _ _ (client.cleanupDedupedOffload _ _ _ >>= _)
        unfold Client.cleanupDedupedOffload
        split
        · intro id same
          exact ⟨stored, served, by simp, stays id same⟩
        · next different =>
          refine Lawful.bind (lawful_cleanupOffload ?_) ?_
          · intro key reads
            refine delete stored history served key offloaded reads ?_
            rintro id same rfl
            rw [replied] at same
            exact different (Except.ok.inj same).symm
          · intro _ later cleaned id same
            exact ⟨stored, served, cleaned.mem (by simp), stays id same⟩

end Rules

/-! ## Building -/

section Building

def isNewId (op : Op) : Prop := op = .newId

variable {steps : List Did}

theorem onlyIds_cons {id : JobId} (only : OnlyIds steps) : OnlyIds (⟨.newId, id⟩ :: steps) := by
  intro step member
  rcases mem_cons.mp member with rfl | inside
  · exact ⟨id, rfl⟩
  · exact only step inside

/-- A job as a builder leaves it: not offloaded, with a `u32` of attempts. -/
structure Built (job : NewJob) : Prop where
  plain : referenceKey job.payload = none
  attempts : job.maxAttempts ≤ u32Max

theorem u32_le_max (count : UInt32) : count.toNat ≤ u32Max := by
  have bound := count.toNat_lt
  unfold u32Max
  omega

theorem built_newJob (client : Client) (kind : String) (payload : Serialized) (id : JobId) :
    Built (client.newJob kind payload id) :=
  ⟨payload.inline, u32_le_max client.defaultMaxAttempts⟩

theorem copies_uses (job : NewJob) (lanes : List Lane) :
    Uses isNewId (Client.copies job lanes) := by
  induction lanes with
  | nil => trivial
  | cons lane rest ih =>
    exact Uses.bind ⟨rfl, fun _ => trivial⟩ fun _ =>
      ih.bind fun _ => trivial

theorem copies_returns {job : NewJob} {lanes : List Lane} {jobs : List NewJob}
    (returns : Returns (Client.copies job lanes) steps jobs) :
    OnlyIds steps ∧ mintedIds steps = jobs.map NewJob.id ∧
      jobs.map NewJob.payload = (lanes.map fun _ => job.payload) ∧
      (Built job → ∀ copy ∈ jobs, Built copy) := by
  induction lanes generalizing steps jobs with
  | nil =>
    obtain ⟨rfl, rfl⟩ := returns_done.mp returns
    exact ⟨by rintro _ ⟨⟩, rfl, rfl, by rintro _ _ ⟨⟩⟩
  | cons lane rest ih =>
    unfold Client.copies newId at returns
    obtain ⟨id, later, rfl, tail⟩ := returns_perform_bind.mp returns
    obtain ⟨more, others, last, rfl, copied, ends⟩ := returns_bind.mp tail
    obtain ⟨rfl, rfl⟩ := returns_done.mp ends
    obtain ⟨only, minted, payloads, built⟩ := ih copied
    rw [append_nil]
    refine ⟨onlyIds_cons only, ?_, by simp [payloads], ?_⟩
    · rw [map_cons, ← minted]
      rfl
    · intro original copy member
      rcases mem_cons.mp member with rfl | inside
      · exact ⟨original.plain, original.attempts⟩
      · exact built original copy inside

theorem build_uses (client : Client) (spec : JobSpec) : Uses isNewId (client.build spec) :=
  ⟨rfl, fun _ => trivial⟩

theorem build_returns {client : Client} {spec : JobSpec} {job : NewJob}
    (returns : Returns (client.build spec) steps job) :
    ∃ id, steps = [⟨.newId, id⟩] ∧ job.id = id ∧ Built job := by
  unfold Client.build Client.buildJob newId at returns
  rw [bind_assoc] at returns
  obtain ⟨id, later, rfl, tail⟩ := returns_perform_bind.mp returns
  rw [pure_eq, done_bind] at tail
  obtain ⟨rfl, rfl⟩ := returns_done.mp tail
  have plain := built_newJob client spec.kind spec.payload id
  exact ⟨id, rfl, rfl, plain.plain, plain.attempts⟩

theorem buildAll_uses (specs : List (Client × JobSpec)) : Uses isNewId (Client.buildAll specs) := by
  induction specs with
  | nil => trivial
  | cons entry rest ih =>
    exact Uses.bind (build_uses entry.1 entry.2) fun _ =>
      ih.bind fun _ => trivial

theorem buildAll_returns {specs : List (Client × JobSpec)} {jobs : List NewJob}
    (returns : Returns (Client.buildAll specs) steps jobs) :
    mintedIds steps = jobs.map NewJob.id ∧ ∀ job ∈ jobs, Built job := by
  induction specs generalizing steps jobs with
  | nil =>
    obtain ⟨rfl, rfl⟩ := returns_done.mp returns
    exact ⟨rfl, by rintro _ ⟨⟩⟩
  | cons entry rest ih =>
    obtain ⟨builder, spec⟩ := entry
    obtain ⟨first, job, later, rfl, built, tail⟩ := returns_bind.mp returns
    obtain ⟨more, others, last, rfl, builds, ends⟩ := returns_bind.mp tail
    obtain ⟨rfl, rfl⟩ := returns_done.mp ends
    obtain ⟨id, rfl, own, plain⟩ := build_returns built
    obtain ⟨minted, plains⟩ := ih builds
    rw [append_nil, mintedIds_append, minted, map_cons, own]
    refine ⟨rfl, ?_⟩
    intro other member
    rcases mem_cons.mp member with rfl | inside
    · exact plain
    · exact plains other inside

end Building

end Worklane.Facade
