import Worklane.Facade.Capture
import Worklane.Facade.Offload

/-!
# What a submission owns

Every submission, of a client or of a watcher, obeys one law: it submits once,
jobs with ids of its own, whose references are to blobs of its own, and it
deletes a blob only when no job it has stored refers to it.
-/

namespace Worklane.Facade

open List
open Lib.Program

/-! ## The law -/

/-- Operations that submit or delete. -/
def hands : Op → Bool
  | .call (.enqueue _) | .call (.enqueueBatch _) | .delete _ => true
  | _ => false

/-- Nothing was submitted or deleted. -/
def Clean (history : List Did) : Prop :=
  ∀ step ∈ history, hands step.1 = false

theorem clean_append {first second : List Did} :
    Clean (first ++ second) ↔ Clean first ∧ Clean second := by
  simp only [Clean, mem_append]
  constructor
  · intro clean
    exact ⟨fun step early => clean step (Or.inl early), fun step late => clean step (Or.inr late)⟩
  · rintro ⟨left, right⟩ step (early | late)
    · exact left step early
    · exact right step late

theorem clean_singleton {step : Did} (quiet : hands step.1 = false) : Clean [step] := by
  intro other member
  rw [mem_singleton.mp member]
  exact quiet

/-- The first submission: ids and references of its own. -/
structure Submits (history : List Did) (jobs : List NewJob) : Prop where
  clean : Clean history
  ids : (jobs.map NewJob.id).Sublist (mintedIds history)
  keys : (keysOf jobs).Sublist (putKeys history)
  attempts : ∀ job ∈ jobs, job.maxAttempts ≤ u32Max

/-- A blob of its own that no job it has stored refers to. -/
structure Discards (history : List Did) (key : String) : Prop where
  own : key ∈ putKeys history
  unused : (putKeys history).Nodup → ∀ job, StoredBy history job →
    referenceKey job.payload ≠ some key

def SubmissionLaw (history : List Did) : Op → Prop
  | .call (.enqueue job) => Submits history [job]
  | .call (.enqueueBatch jobs) => Submits history jobs
  | .delete key => Discards history key
  | .newId | .put _ | .getResult _ | .call (.classify _) => True
  | _ => False

/-! ## What is stored -/

variable {history : List Did}

theorem Clean.not_stored (clean : Clean history) {job : NewJob} : ¬ StoredBy history job := by
  rintro (⟨member, _⟩ | ⟨member, _, _⟩)
  · cases clean _ member
  · cases clean _ member

theorem stored_single (clean : Clean history) {job stored : NewJob} {served : Served JobId}
    (by_ : StoredBy (history ++ [⟨.call (.enqueue job), served⟩]) stored) :
    stored = job ∧ served.reply = .ok job.id := by
  cases by_ with
  | single member own =>
    rcases mem_append.mp member with early | last
    · cases clean _ early
    · cases mem_singleton.mp last
      exact ⟨rfl, own⟩
  | batch member =>
    rcases mem_append.mp member with early | last
    · cases clean _ early
    · cases mem_singleton.mp last

theorem stored_batch (clean : Clean history)
    {jobs : List NewJob} {stored : NewJob} {served : Served (List JobId)}
    (by_ : StoredBy (history ++ [⟨.call (.enqueueBatch jobs), served⟩]) stored) :
    ∃ ids, served.reply = .ok ids ∧ (stored, stored.id) ∈ jobs.zip ids := by
  cases by_ with
  | single member =>
    rcases mem_append.mp member with early | last
    · cases clean _ early
    · cases mem_singleton.mp last
  | batch member reply own =>
    rcases mem_append.mp member with early | last
    · cases clean _ early
    · cases mem_singleton.mp last
      exact ⟨_, reply, own⟩

theorem stored_before_deletes {deletes : List Did} (only : OnlyDeletes deletes) {job : NewJob}
    (stored : StoredBy (history ++ deletes) job) : StoredBy history job := by
  cases stored with
  | single member own =>
    rcases mem_append.mp member with early | late
    · exact .single early own
    · obtain ⟨_, _, equal⟩ := only _ late
      cases equal
  | batch member reply own =>
    rcases mem_append.mp member with early | late
    · exact .batch early reply own
    · obtain ⟨_, _, equal⟩ := only _ late
      cases equal

theorem Discards.after_deletes {deletes : List Did} {key : String}
    (discards : Discards history key) (only : OnlyDeletes deletes) :
    Discards (history ++ deletes) key := by
  have same : putKeys (history ++ deletes) = putKeys history := by
    rw [putKeys_append, only.putKeys, append_nil]
  refine ⟨?_, ?_⟩
  · rw [same]
    exact discards.own
  · intro distinct job stored
    rw [same] at distinct
    exact discards.unused distinct job (stored_before_deletes only stored)

/-! ## Cleaning up -/

section Cleanup

variable {client : Client} {past : List Did}

theorem onlyDeletes_cons {key : String} {answer : Except Failure Unit}
    {deletes : List Did} (only : OnlyDeletes deletes) :
    OnlyDeletes (⟨.delete key, answer⟩ :: deletes) := by
  intro step member
  rcases mem_cons.mp member with rfl | later
  · exact ⟨key, answer, rfl⟩
  · exact only step later

theorem cleanupOffload_lawful {payload : Blob} (discards : ∀ key, referenceKey payload = some key →
      Discards past key) :
    Lawful SubmissionLaw (fun _ history => ∃ deletes, history = past ++ deletes ∧
        OnlyDeletes deletes) past (client.cleanupOffload payload) := by
  refine (lawful_cleanupOffload discards).mono ?_
  intro _ history cleaned
  cases cleaned with
  | kept => exact ⟨[], by simp, by rintro _ ⟨⟩⟩
  | deleted _ answer =>
    exact ⟨_, rfl, onlyDeletes_cons (by rintro _ ⟨⟩)⟩

theorem cleanupOffloads_lawful {jobs : List NewJob}
    (discards : ∀ key ∈ keysOf jobs, Discards past key) :
    Lawful SubmissionLaw (fun _ _ => True) past (client.cleanupOffloads jobs) := by
  induction jobs generalizing past with
  | nil => trivial
  | cons job rest ih =>
    refine Lawful.bind (cleanupOffload_lawful ?_) ?_
    · intro key reads
      exact discards key (mem_filterMap.mpr ⟨job, mem_cons_self .., reads⟩)
    · rintro _ _ ⟨deletes, rfl, only⟩
      refine ih fun key member => ?_
      obtain ⟨other, inside, reads⟩ := mem_filterMap.mp member
      exact (discards key (mem_filterMap.mpr
        ⟨other, mem_cons_of_mem _ inside, reads⟩)).after_deletes only

theorem cleanupDeduped_lawful {jobs : List NewJob} {ids : List JobId}
    (discards : ∀ entry ∈ jobs.zip ids, entry.2 ≠ entry.1.id →
      ∀ key, referenceKey entry.1.payload = some key → Discards past key) :
    Lawful SubmissionLaw (fun _ _ => True) past (client.cleanupDeduped jobs ids) := by
  induction jobs generalizing past ids with
  | nil => trivial
  | cons job rest ih =>
    cases ids with
    | nil => trivial
    | cons id more =>
      have first : Lawful SubmissionLaw (fun _ history => ∃ deletes, history = past ++ deletes ∧
            OnlyDeletes deletes) past
          (client.cleanupDedupedOffload job.id id job.payload) := by
        unfold Client.cleanupDedupedOffload
        split
        · exact ⟨[], by simp, by rintro _ ⟨⟩⟩
        · next different =>
          refine cleanupOffload_lawful ?_
          exact discards (job, id) (mem_cons_self ..) fun same => different same.symm
      refine first.bind ?_
      rintro _ _ ⟨deletes, rfl, only⟩
      refine ih fun entry member other key reads => ?_
      exact (discards entry (mem_cons_of_mem _ member) other key reads).after_deletes only

end Cleanup

/-! ## Submitting -/

section Submitting

variable {client : Client} {past : List Did} {jobs : List NewJob}

theorem Submits.discards_all (submits : Submits past jobs)
    {served : Served (List JobId)} {failure : Error}
    (refused : served.reply = .error failure) :
    ∀ key ∈ keysOf jobs, Discards (past ++ [⟨.call (.enqueueBatch jobs), served⟩]) key := by
  intro key member
  refine ⟨?_, ?_⟩
  · rw [putKeys_append]
    exact mem_append_left _ (submits.keys.subset member)
  · intro _ job stored
    obtain ⟨ids, replied, _⟩ := stored_batch submits.clean stored
    rw [refused] at replied
    cases replied

theorem Submits.discards_unsent (submits : Submits past jobs) :
    ∀ key ∈ keysOf jobs, Discards past key := by
  intro key member
  exact ⟨submits.keys.subset member, fun _ job stored => absurd stored submits.clean.not_stored⟩

theorem Submits.discards_deduped (submits : Submits past jobs)
    {served : Served (List JobId)} {ids : List JobId}
    (accepted : served.reply = .ok ids) {entry : NewJob × JobId}
    (member : entry ∈ jobs.zip ids) (other : entry.2 ≠ entry.1.id)
    {key : String} (reads : referenceKey entry.1.payload = some key) :
    Discards (past ++ [⟨.call (.enqueueBatch jobs), served⟩]) key := by
  have same : putKeys (past ++ [⟨.call (.enqueueBatch jobs), served⟩]) =
      putKeys past := by
    simp [putKeys, putKey]
  refine ⟨?_, ?_⟩
  · rw [same]
    exact submits.keys.subset (mem_filterMap.mpr ⟨entry.1, (of_mem_zip member).1, reads⟩)
  · intro distinct job stored again
    rw [same] at distinct
    obtain ⟨given, replied, own⟩ := stored_batch submits.clean stored
    rw [accepted] at replied
    cases replied
    have one := entry_of_key (submits.keys.nodup distinct) member own reads again
    rw [one] at other
    exact other rfl

theorem submitAll_lawful (submits : Submits past jobs) :
    Lawful SubmissionLaw (fun _ _ => True) past (client.submitAll jobs) := by
  refine lawful_bind.mpr (lawful_enqueueBatch submits ?_ ?_)
  · intro failure
    exact (cleanupOffloads_lawful submits.discards_unsent).bind fun _ _ _ => trivial
  · intro served
    cases replied : served.reply with
    | error failure =>
      exact (cleanupOffloads_lawful (submits.discards_all replied)).bind fun _ _ _ => trivial
    | ok ids =>
      refine (cleanupDeduped_lawful ?_).bind fun _ _ _ => trivial
      intro entry member other key reads
      exact submits.discards_deduped replied member other reads

theorem keeping_lawful {β : Type} {failed : Failure → β} {passed : β}
    {cleanup : Action Unit} (submits : Submits past jobs)
    (cleans : ∀ history, (∀ key ∈ keysOf jobs, Discards history key) →
      Lawful SubmissionLaw (fun _ _ => True) history cleanup) :
    Lawful SubmissionLaw (fun _ _ => True) past (do
      match ← client.enqueueBatch jobs with
      | .error failure =>
        cleanup
        return failed failure
      | .ok _ => return passed) := by
  refine lawful_bind.mpr (lawful_enqueueBatch submits ?_ ?_)
  · intro failure
    exact (cleans past submits.discards_unsent).bind fun _ _ _ => trivial
  · intro served
    cases replied : served.reply with
    | error failure =>
      exact (cleans _ (submits.discards_all replied)).bind fun _ _ _ => trivial
    | ok ids => trivial

theorem enqueueJob_lawful {job : NewJob} (clean : Clean past)
    (minted : job.id ∈ mintedIds past) (built : Built job) :
    Lawful SubmissionLaw (fun _ _ => True) past (client.enqueueJob job) := by
  have submits : ∀ stored history, Offloaded past job.payload (.ok stored) history →
        Submits history [{ job with payload := stored }] := by
    intro stored history offloaded
    have bounded : ∀ other ∈ [{ job with payload := stored }], other.maxAttempts ≤ u32Max := by
      simpa using built.attempts
    cases offloaded with
    | stored key =>
      refine ⟨clean_append.mpr ⟨clean, clean_singleton rfl⟩, ?_, ?_, bounded⟩
      · rw [mintedIds_append]
        exact singleton_sublist.mpr (mem_append_left _ minted)
      · simp [keysOf, putKeys, putKey, Except.toOption]
    | inline =>
      exact ⟨clean, singleton_sublist.mpr minted, by simp [keysOf, built.plain], bounded⟩
  refine (lawful_enqueueJob trivial submits ?_).mono fun _ _ _ => trivial
  intro stored history served key offloaded reads refused
  have here := submits stored history offloaded
  refine ⟨?_, ?_⟩
  · rw [putKeys_append]
    refine mem_append_left _ (here.keys.subset ?_)
    simp [keysOf, reads]
  · intro _ other kept
    obtain ⟨rfl, replied⟩ := stored_single here.clean kept
    exact absurd rfl (refused _ replied)

/-! ## The offload loop -/

def isPut (op : Op) : Prop := ∃ payload, op = .put payload

theorem offloadAll_uses (jobs : List NewJob) : Uses isPut (client.offloadAll jobs) := by
  induction jobs with
  | nil => trivial
  | cons job rest ih =>
    refine Uses.bind ?_ ?_
    · unfold Client.maybeOffload
      split
      · exact ⟨⟨_, rfl⟩, fun _ => trivial⟩
      · split <;> trivial
    · rintro (failure | payload)
      · trivial
      · refine Uses.bind ih ?_
        rintro (failure | later) <;> trivial

theorem OffloadedAll.ids {jobs offloaded : List NewJob} {steps : List Did}
    (all : OffloadedAll client jobs steps offloaded) :
    offloaded.map NewJob.id = jobs.map NewJob.id := by
  induction all with
  | nil => rfl
  | cons _ _ ih =>
    rw [map_cons, map_cons, ih]

/-- What offloading makes of a job. -/
def Kept (steps : List Did) (job offloaded : NewJob) : Prop :=
  offloaded = { job with payload := offloaded.payload } ∧ (referenceKey job.payload = none →
      Carries steps job.payload offloaded.payload)

theorem OffloadedAll.each {client : Client} {jobs offloaded : List NewJob}
    {steps : List Did} (all : OffloadedAll client jobs steps offloaded) :
    List.Forall₂ (Kept steps) jobs offloaded := by
  induction all with
  | nil => exact .nil
  | @cons job rest offloaded first later payload head _
      ih =>
      refine .cons ⟨rfl, fun plain => ?_⟩ ?_
      · cases head with
        | stored key => exact .offloaded (by simp)
        | inline => exact .inline plain
      · refine ih.imp fun _ _ kept => ?_
        exact ⟨kept.1, fun plain => (kept.2 plain).mono fun step member =>
          mem_append_right _ member⟩

theorem offloaded_lawful {β : Type} {submit : List NewJob → Action (Except Failure β)}
    (clean : Clean past)
    (minted : (jobs.map NewJob.id).Sublist (mintedIds past))
    (built : ∀ job ∈ jobs, Built job)
    {law : List Did → Op → Prop}
    (puts : ∀ history payload, law history (.put payload))
    (submits : ∀ offloaded steps, OffloadedAll client jobs steps offloaded →
      Submits (past ++ steps) offloaded →
      Lawful law (fun _ _ => True) (past ++ steps) (submit offloaded)) :
    Lawful law (fun _ _ => True) past (andThen (client.offloadAll jobs) submit) := by
  refine lawful_andThen ((offloadAll_uses jobs).lawful ?_) ?_ ?_
  · rintro history _ ⟨payload, rfl⟩
    exact puts history payload
  · intros
    trivial
  · rintro offloaded history ⟨steps, rfl, returns, only⟩
    rcases offloadAll_cases returns with
      ⟨_, same, all⟩ | ⟨_, impossible, _⟩
    · cases same
      obtain ⟨keys, _⟩ := all.spec fun job member => (built job member).plain
      have quiet : Clean steps := by
        intro step member
        obtain ⟨payload, put⟩ := only step member
        rw [put]
        rfl
      refine submits offloaded steps all ⟨clean_append.mpr ⟨clean, quiet⟩, ?_, ?_, ?_⟩
      · rw [all.ids, mintedIds_append]
        exact minted.trans (sublist_append_left _ _)
      · rw [putKeys_append, keys]
        exact sublist_append_right _ _
      · intro job member
        obtain ⟨old, inside, kept⟩ := Lib.exists_left_of_mem all.each member
        rw [kept.1]
        exact (built old inside).attempts
    · cases impossible

end Submitting

/-! ## The calls of a client -/

section Calls

variable {past : List Did}

theorem clean_of_newIds {steps : List Did}
    (only : ∀ step ∈ steps, isNewId step.1) : Clean steps := by
  intro step member
  rw [show step.1 = .newId from only step member]
  rfl

theorem newIds_allowed (history : List Did) (op : Op) (minted : isNewId op) :
    SubmissionLaw history op := by
  cases minted
  trivial

theorem enqueue_lawful (client : Client) (spec : JobSpec) (clean : Clean past) :
    Lawful SubmissionLaw (fun _ _ => True) past (client.enqueue spec) := by
  refine ((build_uses client spec).lawful newIds_allowed).bind ?_
  rintro job _ ⟨steps, rfl, returns, only⟩
  obtain ⟨id, rfl, own, built⟩ := build_returns returns
  refine enqueueJob_lawful (clean_append.mpr ⟨clean, clean_of_newIds only⟩) ?_ built
  rw [mintedIds_append, own]
  exact mem_append_right _ (by simp [mintedIds, mintedOf])

theorem enqueueToLanes_lawful (client : Client) (spec : JobSpec)
    (lanes : List Lane) (clean : Clean past) :
    Lawful SubmissionLaw (fun _ _ => True) past (client.enqueueToLanes spec lanes) := by
  refine ((build_uses client spec).lawful newIds_allowed).bind ?_
  rintro job _ ⟨first, rfl, builds, onlyFirst⟩
  obtain ⟨_, _, _, built⟩ := build_returns builds
  refine ((copies_uses job lanes).lawful newIds_allowed).bind ?_
  rintro jobs _ ⟨second, rfl, copied, onlySecond⟩
  obtain ⟨_, minted, _, copies⟩ := copies_returns copied
  split
  · trivial
  · split
    · trivial
    · refine offloaded_lawful ?_ ?_ (copies built) (fun _ _ => trivial) ?_
      · exact clean_append.mpr ⟨clean_append.mpr
          ⟨clean, clean_of_newIds onlyFirst⟩, clean_of_newIds onlySecond⟩
      · rw [mintedIds_append, minted]
        exact sublist_append_right _ _
      · intro offloaded steps _ submits
        exact submitAll_lawful submits

/-! ## Fan-in -/

variable (crates : Crates) (client : Client) (faninId callbackKind : String)
variable (context : Serialized) (policy : FanInPolicy)

/-- The batch of a fan-in: its dependencies and the first watcher. -/
def OpensFanIn (history : List Did) (jobs : List NewJob) : Prop :=
  ∃ dependencies watcher payload, jobs = dependencies ++ [watcher] ∧
    client.watcherPayload faninId dependencies callbackKind context policy = .ok payload ∧
    Carries history (crates.toWatcher payload).bytes watcher.payload ∧
    watcher.kind = watcherKind ∧ watcher.uniqueKey = none ∧
    ∀ job ∈ dependencies, job.uniqueKey = none

def FanInLaw (history : List Did) (op : Op) : Prop :=
  SubmissionLaw history op ∧ ∀ jobs, op = .call (.enqueueBatch jobs) →
    OpensFanIn crates client faninId callbackKind context policy history jobs

theorem checkDependencies_keys {seen : List JobId} {jobs : List NewJob}
    (accepted : Client.checkDependencies seen jobs = .ok ()) :
    ∀ job ∈ jobs, job.uniqueKey = none := by
  induction jobs generalizing seen with
  | nil => rintro _ ⟨⟩
  | cons job rest ih =>
    unfold Client.checkDependencies at accepted
    split at accepted
    · cases accepted
    · next unkeyed =>
      split at accepted
      · cases accepted
      · intro other member
        rcases mem_cons.mp member with rfl | later
        · exact Option.not_isSome_iff_eq_none.mp unkeyed
        · exact ih accepted other later

theorem opensFanIn_of_offloaded {client : Client} {dependencies offloaded : List NewJob}
    {watcher : NewJob} {payload : FanInWatcherPayload} {steps : List Did}
    (all : OffloadedAll client (dependencies ++ [watcher]) steps offloaded)
    (made : client.watcherPayload faninId dependencies callbackKind context policy = .ok payload)
    (content : watcher.payload = (crates.toWatcher payload).bytes)
    (kind : watcher.kind = watcherKind) (unkeyed : watcher.uniqueKey = none)
    (keys : ∀ job ∈ dependencies, job.uniqueKey = none)
    (past : List Did) :
    OpensFanIn crates client faninId callbackKind context policy (past ++ steps) offloaded := by
  obtain ⟨front, last, rest, rfl, left, same, right⟩ := Lib.aligned_split all.each
  cases right
  have ids : front.map NewJob.id = dependencies.map NewJob.id := by
    refine (Lib.map_eq_of_aligned left ?_).symm
    intro job offloaded kept
    rw [kept.1]
  have plain : referenceKey watcher.payload = none := by
    rw [content]
    exact (crates.toWatcher payload).inline
  refine ⟨front, last, payload, rfl, ?_, ?_, ?_, ?_, ?_⟩
  · rw [← made]
    unfold Client.watcherPayload
    rw [ids]
  · rw [← content]
    exact (same.2 plain).mono fun step member =>
      mem_append_right _ member
  · rw [same.1]
    exact kind
  · rw [same.1]
    exact unkeyed
  · intro job member
    obtain ⟨old, inside, kept⟩ := Lib.exists_left_of_mem left member
    rw [kept.1]
    exact keys old inside

def isDelete (op : Op) : Prop := ∃ key, op = .delete key

theorem cleanupOffload_uses (client : Client) (payload : Blob) :
    Uses isDelete (client.cleanupOffload payload) := by
  unfold Client.cleanupOffload
  split
  · exact ⟨⟨_, rfl⟩, fun _ => trivial⟩
  · trivial

theorem cleanupOffloads_uses (client : Client) (jobs : List NewJob) :
    Uses isDelete (client.cleanupOffloads jobs) := by
  induction jobs with
  | nil => trivial
  | cons job rest ih =>
    exact (cleanupOffload_uses client job.payload).bind fun _ => ih

theorem submitFanIn_lawful {jobs : List NewJob} (submits : Submits past jobs)
    (opens : OpensFanIn crates client faninId callbackKind context policy past jobs) :
    Lawful (FanInLaw crates client faninId callbackKind context policy)
      (fun _ _ => True) past (client.submitFanIn jobs) := by
  let batchLaw : List Did → Op → Prop := fun history op =>
    ∀ jobs, op = .call (.enqueueBatch jobs) →
      OpensFanIn crates client faninId callbackKind context policy history jobs
  have deletes : ∀ history op, isDelete op → batchLaw history op := by
    rintro history _ ⟨key, rfl⟩ _ ⟨⟩
  have cleans : ∀ history (failure : Failure), Lawful batchLaw (fun _ _ => True) history (do
        client.cleanupOffloads jobs
        return (.error failure : Except Failure Unit)) := by
    intro history failure
    exact ((cleanupOffloads_uses client jobs).lawful deletes).bind fun _ _ _ => trivial
  have batch : Lawful batchLaw (fun _ _ => True) past (client.submitFanIn jobs) := by
    refine lawful_bind.mpr (lawful_enqueueBatch ?_ ?_ ?_)
    · rintro _ ⟨⟩
      exact opens
    · exact cleans past
    · intro served
      cases served.reply with
      | error failure => exact cleans _ _
      | ok ids => trivial
  have owned : Lawful SubmissionLaw (fun _ _ => True) past (client.submitFanIn jobs) :=
    keeping_lawful submits fun _ discards => cleanupOffloads_lawful discards
  exact (owned.and batch).mono fun _ _ _ => trivial

theorem fanIn_lawful (dependencies : List (Client × JobSpec)) (clean : Clean past) :
    Lawful (FanInLaw crates client faninId callbackKind context policy) (fun _ _ => True) past
      (client.fanIn crates faninId dependencies callbackKind context policy) := by
  have mints : ∀ history op, isNewId op →
      FanInLaw crates client faninId callbackKind context policy history
        op := by
    rintro history _ rfl
    exact ⟨trivial, by rintro _ ⟨⟩⟩
  -- Only the batch is restricted by more than the submission law.
  have others : ∀ history op, SubmissionLaw history op → (∀ jobs, op ≠ .call (.enqueueBatch jobs)) →
      FanInLaw crates client faninId callbackKind context policy history
        op :=
    fun history op allowed other =>
      ⟨allowed, fun jobs same => absurd same (other jobs)⟩
  refine ((buildAll_uses dependencies).lawful mints).bind ?_
  rintro jobs _ ⟨first, rfl, builds, onlyFirst⟩
  obtain ⟨minted, built⟩ := buildAll_returns builds
  unfold Client.fanInWithPolicy
  split
  · trivial
  · split
    · trivial
    · next accepted =>
      split
      · trivial
      · next payload made =>
        unfold Client.buildJob newId
        rw [bind_assoc]
        refine lawful_bind.mpr (lawful_perform.mpr ⟨mints _ _ rfl, fun id => ?_⟩)
        simp only [pure_eq, done_bind]
        split
        · trivial
        · refine offloaded_lawful ?_ ?_ ?_ ?_ ?_
          · exact clean_append.mpr ⟨clean_append.mpr
              ⟨clean, clean_of_newIds onlyFirst⟩, clean_singleton rfl⟩
          · rw [mintedIds_append, mintedIds_append, minted, map_append, append_assoc]
            exact sublist_append_right _ _
          · intro job member
            rcases mem_append.mp member with early | last
            · exact built job early
            · rw [mem_singleton.mp last]
              exact built_newJob _ _ _ _
          · exact fun history content =>
            others history _ trivial (by rintro _ ⟨⟩)
          · intro offloaded steps all submits
            exact submitFanIn_lawful crates client faninId callbackKind context policy submits
              (opensFanIn_of_offloaded crates faninId callbackKind
                context policy all made rfl rfl rfl
                (checkDependencies_keys accepted) _)

end Calls

/-! ## The watcher -/

section Watcher

variable {past : List Did} (crates : Crates) (client : Client) (lane : Lane)
variable (payload : FanInWatcherPayload)

def isPoll (op : Op) : Prop :=
  ∃ id, op = .call (.classify id) ∨ op = .getResult id

theorem boxed_uses {α : Type} {allowed : Op → Prop}
    {action : Action (Except Failure α)} (uses : Uses allowed action) :
    Uses allowed (boxed action) :=
  uses.bind fun _ => trivial

theorem andThen_uses {ε α β : Type} {allowed : Op → Prop}
    {first : Action (Except ε α)} {rest : α → Action (Except ε β)}
    (uses : Uses allowed first) (later : ∀ value, Uses allowed (rest value)) :
    Uses allowed (andThen first rest) := by
  refine uses.bind ?_
  rintro (failure | value)
  · trivial
  · exact later value

theorem discover_uses (dependencies : List JobId) (slots : List Nat) :
    Uses isPoll (Watcher.discover dependencies slots) := by
  induction slots with
  | nil => trivial
  | cons slot rest ih =>
    unfold Watcher.discover
    split
    · trivial
    · next id _ =>
      refine andThen_uses (boxed_uses ⟨⟨id, Or.inl rfl⟩, fun _ => trivial⟩) ?_
      intro state
      cases state with
      | deadLettered => trivial
      | live => exact ih
      | completedOrUnknown =>
        refine andThen_uses (boxed_uses ⟨⟨id, Or.inr rfl⟩, fun _ => trivial⟩) ?_
        rintro (none | bytes)
        · trivial
        · exact andThen_uses ih fun _ => trivial

theorem reschedule_owned (clean : Clean past) (assembly : crates.lengkap.Assembly) :
    Lawful SubmissionLaw (fun _ _ => True) past
      (Watcher.reschedule crates client lane payload assembly) := by
  unfold Watcher.reschedule
  split
  · trivial
  · split
    · trivial
    · rw [lawful_andThen_iff, Watcher.lawful_boxed]
      refine (enqueue_lawful client _ clean).mono ?_
      rintro (failure | id) _ _ <;> trivial

theorem fire_owned (clean : Clean past) (results : List Blob) :
    Lawful SubmissionLaw (fun _ _ => True) past (Watcher.fire crates client payload results) := by
  unfold Watcher.fire
  split
  · trivial
  · split
    · trivial
    · next bytes _ =>
      split
      · trivial
      · split
        · trivial
        · rw [lawful_andThen_iff, Watcher.lawful_boxed]
          refine (lawful_maybeOffload trivial).mono ?_
          intro result history offloaded
          cases result with
          | error failure => trivial
          | ok stored =>
            refine lawful_bind.mpr (lawful_perform.mpr ⟨trivial, fun id => ?_⟩)
            have kept : Clean history ∧ (referenceKey stored).toList.Sublist (putKeys history) := by
              cases offloaded with
              | stored key =>
                refine ⟨clean_append.mpr ⟨clean, clean_singleton rfl⟩, ?_⟩
                simp [putKeys, putKey, Except.toOption]
              | inline => exact ⟨clean, by simp [bytes.inline]⟩
            refine keeping_lawful ⟨?_, ?_, ?_, ?_⟩ ?_
            · exact clean_append.mpr ⟨kept.1, clean_singleton rfl⟩
            · rw [mintedIds_append]
              exact sublist_append_right _ _
            · rw [putKeys_append]
              refine List.Sublist.trans ?_ (kept.2.trans (sublist_append_left _ _))
              simp only [keysOf, filterMap_cons, filterMap_nil, Watcher.callbackJob]
              cases referenceKey stored <;> simp
            · intro job member
              rw [mem_singleton.mp member]
              exact u32_le_max payload.callbackMaxAttempts
            · intro later discards
              refine (cleanupOffload_lawful ?_).mono fun _ _ _ => trivial
              intro key reads
              exact discards key (mem_filterMap.mpr ⟨_, mem_singleton.mpr rfl, reads⟩)

theorem run_owned (clean : Clean past) : Lawful SubmissionLaw (fun _ _ => True) past
      (Watcher.run crates client lane payload) := by
  unfold Watcher.run
  split
  · trivial
  · split
    · trivial
    · refine lawful_andThen ((discover_uses _ _).lawful ?_) ?_ ?_
      · rintro history _ ⟨id, rfl | rfl⟩ <;> trivial
      · intros
        trivial
      · rintro findings _ ⟨steps, rfl, _, only⟩
        have polled : Clean (past ++ steps) := by
          refine clean_append.mpr ⟨clean, ?_⟩
          intro step member
          obtain ⟨id, same | same⟩ := only step member <;>
            · rw [same]
              rfl
        split
        · trivial
        · exact reschedule_owned crates client lane payload polled _
        · exact fire_owned crates client payload polled _
        · trivial

end Watcher

end Worklane.Facade
