import Worklane.Facade.Checkpoint
import Worklane.Facade.Json
import Worklane.Facade.Rules
import Worklane.Facade.Watcher

/-!
# What a fan-in watcher captures

`Watcher.Law` says what a run of the watcher may do after which history: it
polls each dependency that is not captured yet at most once, its successor
carries what was captured before followed by what this run has read, and the
callback is made from one output for every dependency.

A chain follows the payloads from generation to generation, each run with
answers of its own.
-/

namespace Worklane.Facade

open List
open Lib.Program

namespace Watcher

/-! ## The law of one run -/

/-- A dependency that is not captured. -/
def Open (payload : FanInWatcherPayload) (id : JobId) : Prop :=
  id ∈ payload.dependencies ∧ id ∉ payload.collected.map Prod.fst

/-- The findings produced are the outputs read. -/
def Explains (payload : FanInWatcherPayload) (outputs : List (JobId × Blob))
    (findings : List (Nat × Finding)) : Prop :=
  ∀ (slot : Nat) (id : JobId), payload.dependencies[slot]? = some id →
    ∀ bytes, (slot, Finding.produced bytes) ∈ findings ↔ (id, bytes) ∈ outputs

/-- `next` is the payload after a run on `payload` that read `outputs`. -/
structure Succeeds (crates : Crates) (payload : FanInWatcherPayload)
    (outputs : List (JobId × Blob)) (next : FanInWatcherPayload) :
    Prop where
  valid : next.Valid
  generation : next.generation.toNat = payload.generation.toNat + 1
  unchanged : next = { payload with
    generation := next.generation
    collected := next.collected }
  kept : payload.collected <+: next.collected
  captured : ∀ entry, entry ∈ next.collected ↔ entry ∈ payload.collected ∨ entry ∈ outputs
  /-- Restoring the checkpoint gives back the pending assembly. -/
  restored : ∃ assembly findings pending, restoreFanInAssembly crates.lengkap payload.dependencies
      payload.collected = .ok assembly ∧
    Explains payload outputs findings ∧
    crates.lengkap.adjudicate assembly findings = .ok (.pending pending) ∧
    restoreFanInAssembly crates.lengkap next.dependencies next.collected = .ok pending

/-- One result for every dependency, in order: captured before, or read by
this run. -/
structure Gathers (payload : FanInWatcherPayload)
    (outputs : List (JobId × Blob)) (results : List Blob) : Prop where
  length : results.length = payload.dependencies.length
  content : ∀ (index : Nat) (id : JobId), payload.dependencies[index]? = some id →
    ∃ bytes, results[index]? = some bytes ∧
      ((id, bytes) ∈ payload.collected ∨ (id, bytes) ∈ outputs)

/-- The payload of a job stands for this content and no other. -/
def Stands (history : List Did) (content payload : Blob) : Prop :=
  Carries history content payload ∧ ∀ other, Carries history other payload → other = content

/-- What a run on `payload` may do next. -/
def Law (crates : Crates) (payload : FanInWatcherPayload) (past : List Did) : Op → Prop
  | .call (.classify id) => Open payload id ∧ Untouched past id
  | .getResult id => Open payload id ∧ id ∈ completed past ∧ ∀ step ∈ past, step.1 ≠ .getResult id
  | .newId => True
  | .put _ => NoPuts past
  | .call (.enqueue job) => ∃ next, Succeeds crates payload (reads past) next ∧
      Stands past (crates.toWatcher next).bytes job.payload ∧
      job.kind = watcherKind ∧
      job.uniqueKey = some (watcherKey next.faninId next.generation)
  | .call (.enqueueBatch jobs) => ∃ job results bytes, jobs = [job] ∧
      Gathers payload (reads past) results ∧
      crates.fanInResultsPayload payload.callbackPayload results = .ok bytes ∧
      Stands past bytes.bytes job.payload ∧
      job.kind = payload.callbackKind ∧
      job.uniqueKey = some (callbackKey payload.faninId)
  | .delete _ => True
  | _ => False

/-- A submission was accepted. -/
def Handed (history : List Did) : Prop :=
  (∃ (job : NewJob) (served : Served JobId) (id : JobId),
      (⟨.call (.enqueue job), served⟩ : Did) ∈ history ∧ served.reply = .ok id) ∨
    ∃ (jobs : List NewJob) (served : Served (List JobId)) (ids : List JobId),
      (⟨.call (.enqueueBatch jobs), served⟩ : Did) ∈ history ∧ served.reply = .ok ids

/-- A run ends well only after it has handed over. -/
def Ended (result : Except String Unit) (history : List Did) : Prop :=
  result = .ok () → Handed history

/-- A history in which no run has started. -/
structure Fresh (past : List Did) : Prop where
  untouched : ∀ id, Untouched past id
  noPuts : NoPuts past

theorem Fresh.reads_nil {past : List Did} (fresh : Fresh past) : reads past = [] := by
  refine filterMap_eq_nil_iff.mpr ?_
  rintro ⟨op, answer⟩ member
  cases op with
  | getResult id => exact absurd rfl (fresh.untouched id _ member).2
  | _ => rfl

/-! ## Polling -/

section Discover

variable {crates : Crates} {payload : FanInWatcherPayload}

/-- The outputs among the findings, under the ids of their dependencies. -/
def outputsOf (dependencies : List JobId) (findings : List (Nat × Finding)) : List (JobId × Blob) :=
  findings.filterMap fun finding =>
    match finding.2 with
    | .produced bytes =>
      dependencies[finding.1]?.map fun id => (id, bytes)
    | .impossible _ => none

/-- What polling leaves behind. -/
structure Discovered (dependencies : List JobId) (slots : List Nat)
    (past history : List Did) (findings : List (Nat × Finding)) :
    Prop where
  sublist : (findings.map Prod.fst).Sublist slots
  outputs : reads history = reads past ++ outputsOf dependencies findings
  noPuts : NoPuts past → NoPuts history

theorem noPuts_poll {past : List Did} {id : JobId} {step : Did}
    (poll : step.1 = .call (.classify id) ∨ step.1 = .getResult id)
    (none : NoPuts past) : NoPuts (past ++ [step]) := by
  intro bytes answer member
  rcases mem_append.mp member with early | last
  · exact none bytes answer early
  · rw [← mem_singleton.mp last] at poll
    rcases poll with classifies | reads
    · cases classifies
    · cases reads

theorem lawful_boxed {α : Type} {law : List Did → Op → Prop}
    {past : List Did} {action : Action (Except Failure α)}
    {post : Except String α → List Did → Prop} :
    Lawful law post past (boxed action) ↔ Lawful law
        (fun result history => post (result.mapError Failure.text) history)
        past action :=
  lawful_bind

/-- The loop over the unresolved slots, whose dependencies are open and not
polled yet. -/
theorem discover_lawful (distinct : payload.dependencies.Nodup) :
    ∀ (slots : List Nat) (past : List Did), slots.Nodup →
      (∀ slot ∈ slots, ∃ id, payload.dependencies[slot]? = some id ∧
        Open payload id ∧ Untouched past id) →
      Lawful (Law crates payload) (fun result history => ∀ findings, result = .ok findings →
          Discovered payload.dependencies slots past history findings)
        past (discover payload.dependencies slots) := by
  intro slots
  induction slots with
  | nil =>
    intro past _ _ findings same
    cases same
    exact ⟨.slnil, by simp [outputsOf], id⟩
  | cons slot rest ih =>
    intro past once ready
    rw [nodup_cons] at once
    obtain ⟨id, found, opened, untouched⟩ := ready slot (mem_cons_self ..)
    -- The dependencies of the other slots stay untouched.
    have others : ∀ (history : List Did), (∀ other, other ≠ id → Untouched past other →
          Untouched history other) →
        ∀ next ∈ rest, ∃ other, payload.dependencies[next]? = some other ∧
            Open payload other ∧ Untouched history other := by
      intro history stays next member
      obtain ⟨other, known, openedOther, fresh⟩ := ready next (mem_cons_of_mem _ member)
      refine ⟨other, known, openedOther, stays other ?_ fresh⟩
      rintro rfl
      exact once.1 (index_unique distinct found known ▸ member)
    unfold discover
    rw [found]
    simp only
    rw [lawful_andThen_iff, lawful_boxed, lawful_call]
    refine ⟨⟨opened, untouched⟩, fun served => ?_⟩
    cases replied : served.reply with
    | error failure => rintro findings ⟨⟩
    | ok state =>
      have classified : ∀ other, other ≠ id → Untouched past other →
          Untouched (past ++ [⟨.call (.classify id), served⟩]) other :=
        fun other different fresh =>
          fresh.step different.symm (Or.inl rfl)
      have quiet : reads [(⟨.call (.classify id), served⟩ : Did)] = [] := rfl
      cases state with
      | deadLettered =>
        rintro findings ⟨⟩
        refine ⟨?_, ?_, noPuts_poll (Or.inl rfl)⟩
        · simp
        · simp [quiet, outputsOf]
      | live =>
        refine (ih _ once.2 (others _ classified)).mono ?_
        intro result history known findings same
        obtain ⟨sublist, outputs, noPuts⟩ := known findings same
        refine ⟨sublist.cons slot, ?_, ?_⟩
        · rw [outputs, reads_append, quiet, append_nil]
        · intro none
          exact noPuts (noPuts_poll (Or.inl rfl) none)
      | completedOrUnknown =>
        show Lawful _ _ _ (andThen _ _)
        rw [lawful_andThen_iff, lawful_boxed]
        refine lawful_perform.mpr ⟨⟨opened, ?_, ?_⟩, ?_⟩
        · rw [completed_append]
          refine mem_append_right _ ?_
          simp [completed, completedOf, replied]
        · intro step member
          rcases mem_append.mp member with early | last
          · exact (untouched step early).2
          · rw [mem_singleton.mp last]
            rintro ⟨⟩
        · intro answer
          cases answer with
          | error failure => rintro findings ⟨⟩
          | ok found =>
            cases found with
            | none =>
              rintro findings ⟨⟩
              refine ⟨by simp, ?_, ?_⟩
              · simp [outputsOf, reads, readOf]
              · intro none
                exact noPuts_poll (Or.inr rfl) (noPuts_poll (Or.inl rfl) none)
            | some bytes =>
              show Lawful _ _ _ (andThen _ _)
              refine lawful_andThen (ih _ once.2 (others _ ?_)) ?_ ?_
              · intro other different fresh
                exact (classified other different fresh).step different.symm (Or.inr rfl)
              · rintro failure history _ findings ⟨⟩
              · intro later history known findings same
                cases same
                obtain ⟨sublist, outputs, noPuts⟩ := known later rfl
                refine ⟨sublist.cons_cons slot, ?_, ?_⟩
                · have read : reads [(⟨.getResult id, .ok (some bytes)⟩ : Did)] = [(id, bytes)] :=
                    rfl
                  have more : outputsOf payload.dependencies ((slot, .produced bytes) :: later) =
                        (id, bytes) :: outputsOf
                          payload.dependencies later := by
                    simp [outputsOf, found]
                  rw [outputs, more, reads_append, reads_append, quiet, read]
                  simp
                · intro none
                  exact noPuts (noPuts_poll (Or.inr rfl) (noPuts_poll (Or.inl rfl) none))

end Discover

/-! ## Deciding -/

section Decide

variable {crates : Crates} {payload : FanInWatcherPayload}

theorem explains_outputsOf (distinct : payload.dependencies.Nodup)
    (findings : List (Nat × Finding)) :
    Explains payload (outputsOf payload.dependencies findings) findings := by
  intro slot id found bytes
  constructor
  · intro member
    refine mem_filterMap.mpr ⟨_, member, ?_⟩
    simp [found]
  · intro member
    obtain ⟨⟨other, finding⟩, listed, equal⟩ := mem_filterMap.mp member
    cases finding with
    | impossible cause => cases equal
    | produced value =>
      obtain ⟨candidate, known, same⟩ := Option.map_eq_some_iff.mp equal
      cases same
      obtain rfl := index_unique distinct found known
      exact listed

variable {assembly : crates.lengkap.Assembly} {history : List Did}
variable {findings : List (Nat × Finding)}

theorem filled_slots (valid : payload.Valid)
    (holds : Holds payload.dependencies payload.collected (crates.lengkap.intoSlots assembly))
    {past : List Did}
    (known : Discovered payload.dependencies
      (crates.lengkap.unresolvedSlots assembly) past history findings) :
    ∀ (index : Nat) (id : JobId), payload.dependencies[index]? = some id → ∀ bytes,
        (fill (crates.lengkap.intoSlots assembly) findings)[index]? = some (some bytes) ↔
          (id, bytes) ∈ payload.collected ∨
            (id, bytes) ∈ outputsOf payload.dependencies findings := by
  rw [crates.lengkap.unresolvedSlots_eq] at known
  intro index id found bytes
  rw [fill_content, holds.content index id found,
    explains_outputsOf valid.distinct findings index id found]
  · exact known.sublist.nodup (nodup_range.filter _)
  · intro finding member
    have listed := known.sublist.subset (mem_map_of_mem member)
    have empty := (mem_filter.mp listed).2
    exact of_decide_eq_true empty

theorem nextGeneration_toNat {generation bound : UInt32} (smaller : ¬ bound ≤ generation) :
    (nextGeneration generation).toNat = generation.toNat + 1 ∧
      nextGeneration generation ≤ bound := by
  have below : generation.toNat < bound.toNat :=
    UInt32.lt_iff_toNat_lt.mp (UInt32.not_le.mp smaller)
  have small := bound.toNat_lt
  have next : (nextGeneration generation).toNat = generation.toNat + 1 := by
    have saturated : saturatingSucc generation.toNat = generation.toNat + 1 := by
      unfold saturatingSucc u32Max
      omega
    rw [nextGeneration, saturated]
    refine UInt32.toNat_ofNat_of_lt' ?_
    rw [UInt32.size]
    omega
  refine ⟨next, UInt32.le_iff_toNat_le.mpr ?_⟩
  omega

/-- The entries of a checkpoint: what was captured before and what this run
has read. -/
theorem succeeds_of_pending (valid : payload.Valid) {pending : crates.lengkap.Assembly}
    (restores : restoreFanInAssembly crates.lengkap payload.dependencies
      payload.collected = .ok assembly)
    (holds : Holds payload.dependencies payload.collected (crates.lengkap.intoSlots assembly))
    {past : List Did}
    (known : Discovered payload.dependencies
      (crates.lengkap.unresolvedSlots assembly) past history findings)
    (decides : crates.lengkap.adjudicate assembly findings = .ok (.pending pending))
    (smaller : ¬ payload.maxGenerations ≤ payload.generation) :
    ∃ collected, checkpointFanInAssembly crates.lengkap
        payload.dependencies payload.collected pending = .ok collected ∧
      Succeeds crates payload (outputsOf payload.dependencies findings)
        (nextPayload payload collected) := by
  have slots := (crates.lengkap.adjudicate_pending _ _ _ decides).1
  have content := filled_slots valid holds known
  rw [← slots] at content
  obtain ⟨fresh, checkpoints, once, inside, held⟩ :=
    checkpoint_ok crates.lengkap valid (by rw [slots]; simp [holds.length]) (by
        intro entry member
        obtain ⟨index, found⟩ := mem_iff_getElem?.mp (valid.known entry member)
        exact ⟨index, found, (content index entry.1 found entry.2).mpr (Or.inl member)⟩)
  obtain ⟨generation, bounded⟩ := nextGeneration_toNat smaller
  have positive : nextGeneration payload.generation ≠ 0 := by
    intro zero
    rw [zero] at generation
    cases generation
  have next : (nextPayload payload (payload.collected ++ fresh)).Valid :=
    ⟨valid.faninId, valid.dependencies, positive, bounded,
      valid.callbackKind, valid.callbackLane, valid.distinct, inside, once⟩
  refine ⟨_, checkpoints, next, generation, rfl, prefix_append _ _, ?_,
    ⟨assembly, findings, pending, restores,
      explains_outputsOf valid.distinct findings, decides, ?_⟩⟩
  · rintro ⟨id, bytes⟩
    constructor
    · intro member
      obtain ⟨index, found⟩ := mem_iff_getElem?.mp (inside _ member)
      exact (content index id found bytes).mp ((held.content index id found bytes).mpr member)
    · intro either
      have dependency : id ∈ payload.dependencies := by
        rcases either with early | late
        · exact valid.known _ early
        · obtain ⟨⟨slot, finding⟩, _, equal⟩ := mem_filterMap.mp late
          cases finding with
          | impossible cause => cases equal
          | produced value =>
            obtain ⟨_, found, same⟩ := Option.map_eq_some_iff.mp equal
            cases same
            exact mem_of_getElem? found
      obtain ⟨index, found⟩ := mem_iff_getElem?.mp dependency
      exact (held.content index id found bytes).mp ((content index id found bytes).mpr either)
  · -- Both assemblies hold the same entries.
    obtain ⟨again, reads, holdsAgain⟩ := restore_valid crates.lengkap next
    rw [reads, ← crates.lengkap.fromSlots_intoSlots again,
      ← crates.lengkap.fromSlots_intoSlots pending,
      holdsAgain.unique held]

theorem gathers_of_ready (valid : payload.Valid)
    (holds : Holds payload.dependencies payload.collected (crates.lengkap.intoSlots assembly))
    {past : List Did}
    (known : Discovered payload.dependencies
      (crates.lengkap.unresolvedSlots assembly) past history findings)
    {results : List Blob}
    (decides : crates.lengkap.adjudicate assembly findings = .ok (.ready results)) :
    Gathers payload (outputsOf payload.dependencies findings) results := by
  have slots := crates.lengkap.adjudicate_ready _ _ _ decides
  have content := filled_slots valid holds known
  rw [slots] at content
  have length : results.length = payload.dependencies.length := by
    rw [← holds.length, ← length_fill, slots, length_map]
  refine ⟨length, ?_⟩
  intro index id found
  have inside : index < results.length := by
    rw [length]
    exact (List.getElem?_eq_some_iff.mp found).1
  refine ⟨results[index], getElem?_eq_getElem inside, ?_⟩
  refine (content index id found _).mp ?_
  rw [getElem?_map, getElem?_eq_getElem inside]
  rfl

end Decide

/-! ## Whole runs -/

section Run

variable {crates : Crates} {payload : FanInWatcherPayload}
variable {client : Client} {lane : Lane}

variable {past : List Did}

theorem stands_of_offloaded {history : List Did} {content stored : Blob}
    (plain : referenceKey content = none) (noPuts : NoPuts past)
    (offloaded : Offloaded past content (.ok stored) history) :
    Stands history content stored :=
  ⟨offloaded.carries plain, fun _ carries => offloaded.unique plain noPuts carries⟩

theorem reads_offloaded {history : List Did} {content : Blob} {result : Except Failure Blob}
    (offloaded : Offloaded past content result history) :
    reads history = reads past := by
  cases offloaded with
  | stored key => simp [reads, readOf]
  | failed failure => simp [reads, readOf]
  | tooLarge failure => rfl
  | inline => rfl

theorem noPuts_newId (noPuts : NoPuts past) (id : JobId) : NoPuts (past ++ [⟨.newId, id⟩]) := by
  intro content answer member
  rcases mem_append.mp member with early | last
  · exact noPuts content answer early
  · cases mem_singleton.mp last

theorem reschedule_lawful (noPuts : NoPuts past) {pending : crates.lengkap.Assembly}
    (succeeds : ¬ payload.maxGenerations ≤ payload.generation →
      ∃ collected, checkpointFanInAssembly crates.lengkap
          payload.dependencies payload.collected pending = .ok collected ∧
        Succeeds crates payload (reads past) (nextPayload payload collected)) :
    Lawful (Law crates payload) Ended past (reschedule crates client lane payload pending) := by
  unfold reschedule
  split
  · rintro ⟨⟩
  · next smaller =>
    obtain ⟨collected, checkpoints, next⟩ := succeeds smaller
    rw [checkpoints]
    simp only
    rw [lawful_andThen_iff, lawful_boxed]
    unfold Client.enqueue Client.build Client.buildJob newId
    rw [bind_assoc, bind_assoc]
    refine lawful_bind.mpr (lawful_perform.mpr ⟨trivial, fun id => ?_⟩)
    simp only [pure_eq, done_bind]
    have plain := (crates.toWatcher (nextPayload payload collected)).inline
    have unput := noPuts_newId noPuts id
    refine (lawful_enqueueJob unput ?_ ?_).mono ?_
    · intro stored history offloaded
      refine ⟨nextPayload payload collected, ?_,
        stands_of_offloaded plain unput offloaded, rfl, rfl⟩
      have same : reads history = reads past := by
        rw [reads_offloaded offloaded]
        simp [reads, readOf]
      rw [same]
      exact next
    · intros
      trivial
    · intro result history accepted
      cases result with
      | error failure => rintro ⟨⟩
      | ok returned =>
        intro _
        obtain ⟨stored, served, member, replied⟩ := accepted returned rfl
        exact Or.inl ⟨_, served, returned, member, replied⟩

theorem fire_lawful (noPuts : NoPuts past)
    {results : List Blob} (gathers : Gathers payload (reads past) results) :
    Lawful (Law crates payload) Ended past (fire crates client payload results) := by
  unfold fire
  split
  · rintro ⟨⟩
  · split
    · rintro ⟨⟩
    · next bytes made =>
      split
      · rintro ⟨⟩
      · next parsedLane parsed =>
        split
        · rintro ⟨⟩
        · rw [lawful_andThen_iff, lawful_boxed]
          refine (lawful_maybeOffload noPuts).mono ?_
          intro result history offloaded
          cases result with
          | error failure => rintro ⟨⟩
          | ok stored =>
            refine lawful_bind.mpr (lawful_perform.mpr ⟨trivial, fun id => ?_⟩)
            refine lawful_bind.mpr (lawful_enqueueBatch ?_ ?_ ?_)
            · refine ⟨_, results, bytes, rfl, ?_, made, ?_, rfl, rfl⟩
              · have same : reads (history ++ [⟨.newId, id⟩]) =
                    reads past := by
                  rw [reads_append, reads_offloaded offloaded]
                  simp [reads, readOf]
                rw [same]
                exact gathers
              · have stands := stands_of_offloaded bytes.inline noPuts offloaded
                refine ⟨stands.1.mono fun step member =>
                  mem_append_left _ member, ?_⟩
                intro other carries
                refine stands.2 other ?_
                cases carries with
                | inline plain => exact .inline plain
                | offloaded put =>
                  rcases mem_append.mp put with early | last
                  · exact .offloaded early
                  · cases mem_singleton.mp last
            · intro failure
              refine (lawful_cleanupOffload fun _ _ => trivial).bind ?_
              rintro _ _ _ ⟨⟩
            · intro served
              cases replied : served.reply with
              | error failure =>
                refine (lawful_cleanupOffload fun _ _ => trivial).bind ?_
                rintro _ _ _ ⟨⟩
              | ok ids =>
                intro _
                exact Or.inr ⟨[callbackJob payload parsedLane stored
                  id], served, ids, by simp, replied⟩

/-- `FanInWatcherJob::run` obeys the law, whatever it is answered. -/
theorem run_lawful (fresh : Fresh past) : Lawful (Law crates payload) Ended past
      (run crates client lane payload) := by
  unfold run
  split
  · rintro ⟨⟩
  · next checked =>
    have valid := payload.validate_ok.mp checked
    obtain ⟨assembly, restores, holds⟩ := restore_valid crates.lengkap valid
    rw [restores]
    simp only
    refine lawful_andThen (discover_lawful valid.distinct _ past ?_ ?_) ?_ ?_
    · rw [crates.lengkap.unresolvedSlots_eq]
      exact nodup_range.filter _
    · intro slot member
      rw [crates.lengkap.unresolvedSlots_eq] at member
      obtain ⟨inside, empty⟩ := mem_filter.mp member
      have bound : slot < payload.dependencies.length := by
        rw [← holds.length]
        exact mem_range.mp inside
      have found := getElem?_eq_getElem bound
      exact ⟨_, found, ⟨getElem_mem bound, (holds.empty_iff found).mp (of_decide_eq_true empty)⟩,
        fresh.untouched _⟩
    · rintro failure history _ ⟨⟩
    · intro findings history known
      have known := known findings rfl
      have noPuts := known.noPuts fresh.noPuts
      have outputs := known.outputs
      rw [fresh.reads_nil, nil_append] at outputs
      split
      · rintro ⟨⟩
      · next pending decides =>
        refine reschedule_lawful noPuts ?_
        rw [outputs]
        exact succeeds_of_pending valid restores holds known decides
      · next results decides =>
        refine fire_lawful noPuts ?_
        rw [outputs]
        exact gathers_of_ready valid holds known decides
      · rintro ⟨⟩

end Run

/-! ## Chains of generations -/

/-- Payloads from generation to generation.  Each run is one with any client,
lane and answers, up to the enqueue of its successor; `history` is what these
runs did. -/
inductive Chain (crates : Crates) (first : FanInWatcherPayload) :
    List Did → FanInWatcherPayload → Prop
  | start : Chain crates first [] first
  | next {history past : List Did} {payload later : FanInWatcherPayload}
      {client : Client} {lane : Lane} {job : NewJob}
      {rest : Served JobId → Action (Except String Unit)}
      (chain : Chain crates first history payload)
      (runs : Performs (run crates client lane payload) past (.act (.call (.enqueue job)) rest))
      (carries : Carries past (crates.toWatcher later).bytes job.payload) :
      Chain crates first (history ++ past) later

theorem fresh_nil : Fresh [] where
  untouched := by rintro _ _ ⟨⟩
  noPuts := by rintro _ _ ⟨⟩

section Chain

variable {crates : Crates} {first payload : FanInWatcherPayload}
variable {client : Client} {lane : Lane}

variable {past : List Did}

theorem law_of_performs {op : Op} {rest : op.Answer → Action (Except String Unit)}
    (runs : Performs (run crates client lane payload) past (.act op rest)) :
    Law crates payload past op :=
  ((run_lawful fresh_nil).performs runs).1

theorem toWatcher_injective {left right : FanInWatcherPayload}
    (same : (crates.toWatcher left).bytes = (crates.toWatcher right).bytes) :
    left = right := by
  have reads := crates.fromWatcher_toWatcher left
  rw [same, crates.fromWatcher_toWatcher] at reads
  exact (Except.ok.inj reads).symm

theorem succeeds_of_performs {job : NewJob} {rest : Served JobId → Action (Except String Unit)}
    {later : FanInWatcherPayload}
    (runs : Performs (run crates client lane payload) past (.act (.call (.enqueue job)) rest))
    (carries : Carries past (crates.toWatcher later).bytes job.payload) :
    Succeeds crates payload (reads past) later := by
  obtain ⟨next, succeeds, stands, _⟩ := law_of_performs runs
  rw [toWatcher_injective (stands.2 _ carries)]
  exact succeeds

/-- What the payload of a chain carries: the dependencies of the first one,
and every output read on the way. -/
structure Carried (first : FanInWatcherPayload) (history : List Did)
    (payload : FanInWatcherPayload) : Prop where
  valid : payload.Valid
  dependencies : payload.dependencies = first.dependencies
  kept : first.collected <+: payload.collected
  captured : ∀ entry, entry ∈ payload.collected ↔ entry ∈ first.collected ∨ entry ∈ reads history

variable {history : List Did}

theorem chain_carried (valid : first.Valid) (chain : Chain crates first history payload) :
    Carried first history payload := by
  induction chain with
  | start => exact ⟨valid, rfl, prefix_rfl, by simp [reads]⟩
  | @next history past payload later _ _ _ _ chain runs carries
      ih =>
      have step := succeeds_of_performs runs carries
      obtain ⟨_, dependencies, kept, captured⟩ := ih
      refine ⟨step.valid, ?_, kept.trans step.kept, ?_⟩
      · rw [step.unchanged]
        exact dependencies
      · intro entry
        rw [step.captured, captured, reads_append, mem_append, or_assoc]

theorem captured_unique (valid : payload.Valid) {id : JobId}
    {left right : Blob} (one : (id, left) ∈ payload.collected)
    (other : (id, right) ∈ payload.collected) : left = right := by
  have same := inj_on_of_nodup_map valid.once one other rfl
  exact (Prod.mk.inj same).2

variable {rest : Action (Except String Unit)}

theorem law_of_split {before after : List Did} {op : Op} {answer : op.Answer}
    (runs : Performs (run crates client lane payload) (before ++ ⟨op, answer⟩ :: after) rest) :
    Law crates payload before op :=
  Lawful.allowed (run_lawful fresh_nil) runs rfl

theorem step_of_mem_reads {id : JobId} {bytes : Blob} (member : (id, bytes) ∈ reads history) :
    (⟨.getResult id, .ok (some bytes)⟩ : Did) ∈ history := by
  obtain ⟨⟨op, answer⟩, inside, equal⟩ := mem_filterMap.mp member
  cases op with
  | getResult other =>
    simp only [readOf] at equal
    split at equal
    · cases equal
      exact inside
    · cases equal
  | _ => cases equal

theorem open_of_read (runs : Performs (run crates client lane payload) past rest)
    {id : JobId} {bytes : Blob} (read : (id, bytes) ∈ reads past) :
    Open payload id := by
  obtain ⟨before, after, rfl⟩ := append_of_mem (step_of_mem_reads read)
  exact (law_of_split runs).1

theorem read_once (runs : Performs (run crates client lane payload) past rest)
    {id : JobId} {left right : Blob} (one : (id, left) ∈ reads past)
    (other : (id, right) ∈ reads past) : left = right := by
  have second := step_of_mem_reads other
  obtain ⟨before, after, rfl⟩ := append_of_mem (step_of_mem_reads one)
  rcases mem_append.mp second with early | late
  · exact absurd rfl ((law_of_split runs).2.2 _ early)
  · rcases mem_cons.mp late with same | later
    · cases same
      rfl
    · obtain ⟨middle, last, rfl⟩ := append_of_mem later
      rw [← cons_append, ← append_assoc] at runs
      exact absurd rfl ((law_of_split runs).2.2 ⟨.getResult id, .ok (some left)⟩ (by simp))

/-- The outputs captured along a chain and in the run at its end. -/
def Captured (first : FanInWatcherPayload) (history : List Did)
    (id : JobId) (bytes : Blob) : Prop :=
  (id, bytes) ∈ first.collected ∨ (id, bytes) ∈ reads history

theorem Captured.unique (valid : first.Valid) (chain : Chain crates first history payload)
    (runs : Performs (run crates client lane payload) past rest)
    {id : JobId} {left right : Blob}
    (one : Captured first (history ++ past) id left)
    (other : Captured first (history ++ past) id right) : left = right := by
  have carried := chain_carried valid chain
  -- Captured before this run, or read by it.
  have split : ∀ bytes, Captured first (history ++ past) id bytes →
      (id, bytes) ∈ payload.collected ∨ (id, bytes) ∈ reads past := by
    intro bytes captured
    rw [carried.captured, or_assoc, ← mem_append, ← reads_append]
    exact captured
  rcases split left one with early | late <;>
    rcases split right other with early' | late'
  · exact captured_unique carried.valid early early'
  · exact absurd (mem_map_of_mem early) (open_of_read runs late').2
  · exact absurd (mem_map_of_mem early') (open_of_read runs late).2
  · exact read_once runs late late'

/-- Capture is monotone and ordered along a chain of generations. -/
theorem chain_capture_monotone (accepted : first.validate = .ok ()) {history past : List Did}
    (chain : Chain crates first history payload) {op : Op}
    {rest : op.Answer → Action (Except String Unit)}
    (runs : Performs (run crates client lane payload) past (.act op rest)) :
    payload.validate = .ok () ∧ payload.dependencies = first.dependencies ∧
      first.collected <+: payload.collected ∧
      (∀ id bytes, Captured first (history ++ past) id bytes →
        op ≠ .call (.classify id) ∧ op ≠ .getResult id) ∧
      (∀ job, op = .call (.enqueue job) → ∃ next,
        Stands past (crates.toWatcher next).bytes job.payload ∧ next.validate = .ok () ∧
          next.dependencies = payload.dependencies ∧
          next.maxGenerations = payload.maxGenerations ∧
          next.generation ≤ next.maxGenerations ∧
          Succeeds crates payload (reads past) next) ∧
      (∀ jobs, op = .call (.enqueueBatch jobs) → ∃ job results bytes,
        jobs = [job] ∧ Stands past bytes.bytes job.payload ∧
          crates.fanInResultsPayload payload.callbackPayload results = .ok bytes ∧
          (∃ context, crates.fromSlice payload.callbackPayload = .ok context ∧
            crates.results.readAll bytes.bytes = some (context, results)) ∧
          results.length = first.dependencies.length ∧
          ∀ (index : Nat) (id : JobId), first.dependencies[index]? = some id →
            ∃ output, results[index]? = some output ∧
              ∀ bytes, Captured first (history ++ past) id bytes ↔ bytes = output) := by
  have valid := first.validate_ok.mp accepted
  have carried := chain_carried valid chain
  have allowed := law_of_performs runs
  refine ⟨payload.validate_ok.mpr carried.valid, carried.dependencies, carried.kept, ?_, ?_, ?_⟩
  · intro id bytes captured
    have known : (id, bytes) ∈ payload.collected ∨ (id, bytes) ∈ reads past := by
      rw [carried.captured, or_assoc, ← mem_append, ← reads_append]
      exact captured
    refine ⟨?_, ?_⟩
    · rintro rfl
      obtain ⟨opened, untouched⟩ := allowed
      rcases known with early | late
      · exact opened.2 (mem_map_of_mem early)
      · exact (untouched _ (step_of_mem_reads late)).2 rfl
    · rintro rfl
      obtain ⟨opened, _, unread⟩ := allowed
      rcases known with early | late
      · exact opened.2 (mem_map_of_mem early)
      · exact unread _ (step_of_mem_reads late) rfl
  · rintro job rfl
    obtain ⟨next, succeeds, stands, _⟩ := allowed
    have unchanged := succeeds.unchanged
    refine ⟨next, stands, next.validate_ok.mpr succeeds.valid, ?_, ?_,
      succeeds.valid.bounded, succeeds⟩
    · rw [unchanged]
    · rw [unchanged]
  · rintro jobs rfl
    obtain ⟨job, results, bytes, single, gathers, made, stands, _⟩ := allowed
    refine ⟨job, results, bytes, single, stands, made,
      crates.fanInResultsPayload_reads made, ?_, ?_⟩
    · rw [gathers.length, carried.dependencies]
    · intro index id found
      rw [← carried.dependencies] at found
      obtain ⟨output, here, either⟩ := gathers.content index id found
      have captured : Captured first (history ++ past) id output := by
        rw [Captured, reads_append, mem_append, ← or_assoc, ← carried.captured]
        exact either
      refine ⟨output, here, fun other => ⟨?_, ?_⟩⟩
      · intro also
        exact Captured.unique valid chain runs also captured
      · rintro rfl
        exact captured

/-- Two dependencies of a callback whose context is `null`. -/
def pairPayload : FanInWatcherPayload where
  faninId := "f"
  dependencies := [⟨⟨1⟩⟩, ⟨⟨2⟩⟩]
  generation := 1
  pollDelaySecs := 10
  maxGenerations := 3
  collected := []
  callbackLane := "a"
  callbackKind := "done"
  callbackPayload := [110, 117, 108, 108]
  callbackMaxAttempts := 1
  callbackPriority := 0

def pairClient : Client where
  batches := true
  resultStore := true
  payloadStore := false
  offloadThreshold := 0
  defaultMaxAttempts := 3
  lane := ⟨"a"⟩
  priority := 0
  laneRegistry := none

def polled (id : JobId) (state : JobState) : Did :=
  ⟨.call (.classify id), (⟨0, ⟨⟨0⟩⟩, .ok state⟩ : Served JobState)⟩

/-- The second output is read, the first one is not there yet. -/
def firstSteps : List Did :=
  [polled ⟨⟨1⟩⟩ .live, polled ⟨⟨2⟩⟩ .completedOrUnknown, ⟨.getResult ⟨⟨2⟩⟩, .ok (some [50])⟩,
    ⟨.newId, ⟨⟨3⟩⟩⟩]

/-- The next generation reads it and has both. -/
def secondSteps : List Did :=
  [polled ⟨⟨1⟩⟩ .completedOrUnknown, ⟨.getResult ⟨⟨1⟩⟩, .ok (some [49])⟩, ⟨.newId, ⟨⟨4⟩⟩⟩]

def pairNext : FanInWatcherPayload := nextPayload pairPayload [(⟨⟨2⟩⟩, [50])]

set_option maxRecDepth 4096 in
theorem pair_chain : Chain plainCrates pairPayload firstSteps pairNext := by
  have steps : ∃ job rest, Performs (run plainCrates pairClient ⟨"a"⟩ pairPayload)
      firstSteps (.act (.call (.enqueue job)) rest) ∧
        job.payload = (plainCrates.toWatcher pairNext).bytes :=
    ⟨_, _, .step (.step (.step (.step (.refl _)))), rfl⟩
  obtain ⟨job, rest, runs, same⟩ := steps
  refine .next .start runs ?_
  rw [same]
  exact .inline (plainCrates.toWatcher pairNext).inline

theorem chain_capture_monotone_pair : pairPayload.validate = .ok () ∧
      Chain plainCrates pairPayload firstSteps pairNext ∧
      ∃ job rest bytes, Performs (run plainCrates pairClient ⟨"a"⟩ pairNext)
          secondSteps (.act (.call (.enqueueBatch [job])) rest) ∧
        Stands secondSteps bytes job.payload ∧
        plainCrates.results.readAll bytes = some (.null, [[49], [50]]) := by
  have valid : pairPayload.validate = .ok () := by decide
  have steps : ∃ job rest, Performs (run plainCrates pairClient ⟨"a"⟩ pairNext) secondSteps
      (.act (.call (.enqueueBatch [job])) rest) :=
    ⟨_, _, .step (.step (.step (.refl _)))⟩
  obtain ⟨job, rest, runs⟩ := steps
  obtain ⟨_, _, _, _, _, callback⟩ := chain_capture_monotone valid pair_chain runs
  obtain ⟨_, results, bytes, ⟨⟩, stands, _, ⟨context, parsed, reads⟩, two, content⟩ :=
    callback [job] rfl
  obtain ⟨one, atOne, captured⟩ := content 0 ⟨⟨1⟩⟩ rfl
  obtain ⟨other, atTwo, captured'⟩ := content 1 ⟨⟨2⟩⟩ rfl
  obtain rfl := (captured [49]).mp (.inr (by decide))
  obtain rfl := (captured' [50]).mp (.inr (by decide))
  have both : results = [[49], [50]] := by
    rcases results with _ | ⟨first, _ | ⟨second, _ | _⟩⟩ <;> cases two
    cases atOne
    cases atTwo
    rfl
  cases parsed
  exact ⟨valid, pair_chain, job, rest, bytes.bytes, runs, stands, both ▸ reads⟩

end Chain

end Watcher

end Worklane.Facade
