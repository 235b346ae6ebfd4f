import Mathlib.Algebra.Order.Group.Multiset
import Mathlib.Tactic.Abel
import Worklane.Memory.Invariant

/-!
# No job is lost or duplicated

Every envelope that was really stored is live, dead-lettered, acknowledged or
dropped from the dead letters, and it is the envelope that was stored except
for the attempts of its successful retries.  The balance is proved for one
elementary change, then for one call, then for runs.
-/

namespace Worklane.Memory

open List

/-- The envelopes in the store, live or dead. -/
def Inner.contents (inner : Inner) : Multiset JobEnvelope :=
  (inner.jobs.map StoredJob.envelope : Multiset JobEnvelope) +
    (inner.dead.map fun entry => entry.letter.envelope)

def envelopesOf (entries : List DeadEntry) : List JobEnvelope :=
  entries.map fun entry => entry.letter.envelope

/-! ## The balance of one change -/

section Balance

variable {release : StoredJob → StoredJob} {config : Config}
variable {now : Nat} {mint : ReservationReceipt} {call : Call}
variable {inner next : Inner} {label : Label} {labels : List Label}

/-- What came in, and retried envelopes with one more attempt, against what
went out and the envelopes as they were before the retry. -/
def Balanced (inner next : Inner) (labels : List Label) : Prop :=
  next.contents + labels.flatMap Label.ackedEnvelopes +
      envelopesOf (labels.flatMap Label.droppedEntries) +
      labels.flatMap Label.retriedEnvelopes =
    inner.contents + labels.flatMap Label.storedEnvelopes +
      (labels.flatMap Label.retriedEnvelopes).map JobEnvelope.bump

variable {before : List StoredJob} {after : List StoredJob} {job : StoredJob}

theorem contents_split (split : inner.jobs = before ++ job :: after) :
    inner.contents = {job.envelope} + (before ++ after).map StoredJob.envelope +
      envelopesOf inner.dead := by
  have moved : ((before ++ job :: after).map StoredJob.envelope : Multiset JobEnvelope) =
      (job :: (before ++ after)).map StoredJob.envelope :=
    Multiset.coe_eq_coe.mpr (perm_middle.map _)
  rw [Inner.contents, split, moved, map_cons, ← Multiset.cons_coe, ← Multiset.singleton_add]
  rfl

theorem contents_replace (split : inner.jobs = before ++ job :: after) (job' : StoredJob) :
    ({ inner with jobs := before ++ job' :: after } : Inner).contents +
        {job.envelope} = inner.contents + {job'.envelope} := by
  rw [contents_split split, contents_split rfl]
  abel

theorem contents_kept {job' : StoredJob} (split : inner.jobs = before ++ job :: after)
    (same : job'.envelope = job.envelope) :
    ({ inner with jobs := before ++ job' :: after } : Inner).contents =
      inner.contents := by
  have replaced := contents_replace split job'
  rw [same] at replaced
  exact add_right_cancel replaced

theorem contents_dead {entry : DeadEntry} {unique : String → Option JobId}
    (split : inner.jobs = before ++ job :: after)
    (same : entry.letter.envelope = job.envelope) :
    ({ inner with
        jobs := before ++ after
        unique := unique
        dead := inner.dead ++ [entry] } : Inner).contents =
      inner.contents := by
  rw [contents_split split]
  simp only [Inner.contents, envelopesOf, map_append, map_cons,
    map_nil, same, ← Multiset.coe_add, Multiset.coe_singleton]
  abel

theorem Change.balanced (releases : Releases release)
    (change : Change release config now mint call inner label next) :
    Balanced inner next [label] := by
  -- A change that labels nothing in or out keeps the contents.
  have quiet : next.contents = inner.contents → [label].flatMap Label.ackedEnvelopes = [] →
      [label].flatMap Label.droppedEntries = [] →
      [label].flatMap Label.retriedEnvelopes = [] →
      [label].flatMap Label.storedEnvelopes = [] →
      Balanced inner next [label] := by
    intro same acked dropped retried stored
    simp [Balanced, same, acked, dropped, retried, stored, envelopesOf]
  cases change with
  | store job notLive keyFree =>
    simp only [Balanced, flatMap_cons, flatMap_nil, Label.ackedEnvelopes, Label.droppedEntries,
      Label.retriedEnvelopes, Label.storedEnvelopes, append_nil,
      Inner.contents, storedJob, envelopesOf, map_append,
      map_cons, map_nil, ← Multiset.coe_add]
    abel
  | @release jobs aligned =>
    refine quiet ?_ rfl rfl rfl rfl
    have same : inner.jobs.map StoredJob.envelope = jobs.map StoredJob.envelope := by
      apply Lib.map_eq_of_aligned aligned
      intro old new released
      exact (released.same releases).1.symm
    simp only [Inner.contents, same]
  | lease split => exact quiet (contents_kept split rfl) rfl rfl rfl rfl
  | sweep error split => exact quiet (contents_dead split rfl) rfl rfl rfl rfl
  | @ack before after job receipt split =>
    rw [Balanced, contents_split split]
    simp only [flatMap_cons, flatMap_nil, Label.ackedEnvelopes, Label.droppedEntries,
      Label.retriedEnvelopes, Label.storedEnvelopes, append_nil,
      Inner.contents, envelopesOf, map_nil,
      Multiset.coe_singleton, Multiset.coe_nil]
    abel
  | @retry before after job receipt delay split =>
    have replaced := contents_replace split (retryJob now delay job)
    simpa [Balanced, retryJob, Label.ackedEnvelopes, Label.droppedEntries,
      Label.retriedEnvelopes, Label.storedEnvelopes, envelopesOf]
      using replaced
  | defer delay split =>
    exact quiet (contents_kept split rfl) rfl rfl rfl rfl
  | fail error split => exact quiet (contents_dead split rfl) rfl rfl rfl rfl
  | extend split current =>
    exact quiet (contents_kept split rfl) rfl rfl rfl rfl
  | @drop kept entries sublist parts =>
    have moved : (inner.dead.map (fun entry => entry.letter.envelope) : Multiset JobEnvelope) =
        envelopesOf kept + envelopesOf entries := by
      rw [Multiset.coe_add, envelopesOf, envelopesOf, ← map_append]
      exact Multiset.coe_eq_coe.mpr (parts.map _)
    simp only [Balanced, flatMap_cons, flatMap_nil, Label.ackedEnvelopes, Label.droppedEntries,
      Label.retriedEnvelopes, Label.storedEnvelopes, append_nil,
      Inner.contents, moved, map_nil, Multiset.coe_nil, envelopesOf]
    abel
  | @revive before after entry split notLive keyFree =>
    refine quiet ?_ rfl rfl rfl rfl
    simp only [Inner.contents, split, requeuedJob, map_append,
      map_cons, map_nil, ← Multiset.coe_add,
      ← Multiset.cons_coe, Multiset.coe_nil, ← Multiset.singleton_add]
    abel
  | schedule => exact quiet rfl rfl rfl rfl rfl

theorem Balanced.trans {middle final : Inner} {first second : List Label}
    (left : Balanced inner middle first)
    (right : Balanced middle final second) :
    Balanced inner final (first ++ second) := by
  unfold Balanced at left right ⊢
  simp only [flatMap_append, envelopesOf, map_append, ← Multiset.coe_add] at left right ⊢
  -- Add the two equations; the contents in the middle cancel.
  generalize first.flatMap Label.ackedEnvelopes = acked at *
  generalize second.flatMap Label.ackedEnvelopes = acked' at *
  generalize first.flatMap Label.retriedEnvelopes = retried at *
  generalize second.flatMap Label.retriedEnvelopes = retried' at *
  have sum := congrArg₂ (· + ·) left right
  apply add_left_cancel (a := middle.contents)
  convert sum using 1 <;> abel

theorem Changes.balanced {final : Inner} (releases : Releases release)
    (changes : Changes release config now mint call inner labels final) :
    Balanced inner final labels := by
  induction changes with
  | refl => simp [Balanced, envelopesOf]
  | head change _ ih =>
    exact (change.balanced releases).trans ih

end Balance

/-! ## The history of a run -/

section History

variable (config : Config)

def performed (step : Inner × Input) : Outcome :=
  perform releaseLease config step.1 step.2

/-- The envelopes of the insertions that really stored a job. -/
def storedIn (inputs : List Input) : List JobEnvelope :=
  ((machine config).steps inputs).flatMap fun step =>
    storedBy step.2.call step.1 (performed config step).inner

/-- The envelopes of the jobs acknowledged. -/
def ackedIn (inputs : List Input) : List JobEnvelope :=
  ((machine config).steps inputs).flatMap fun step =>
    ackedBy step.1 (step.2, (performed config step).reply)

/-- The dead letters dropped by retention or by a purge. -/
def droppedIn (inputs : List Input) : List DeadEntry :=
  ((machine config).steps inputs).flatMap fun step =>
    (performed config step).dropped

/-- A successful retry replaces an envelope by the same one with one more
attempt, an insertion adds one, and nothing else is ever done to them. -/
def ledgerStep (ledger : Multiset JobEnvelope) (step : Inner × Input) :
    Multiset JobEnvelope :=
  let retried : Multiset JobEnvelope := retriedBy step.1 (step.2, (performed config step).reply)
  ledger - retried + retried.map JobEnvelope.bump +
    storedBy step.2.call step.1 (performed config step).inner

def ledger (inputs : List Input) : Multiset JobEnvelope :=
  ((machine config).steps inputs).foldl (ledgerStep config) 0

end History

section Run

theorem retriedBy_le_contents (inner : Inner) (entry : Entry) :
    (retriedBy inner entry : Multiset JobEnvelope) ≤ inner.contents := by
  have stored : ∀ receipt, (inner.underReceipt receipt :
      Multiset JobEnvelope) ≤ inner.contents := by
    intro receipt
    unfold Inner.underReceipt
    cases found : inner.jobs.find? fun job => job.receipt = some receipt with
    | none => exact Multiset.zero_le _
    | some job =>
      have member : job.envelope ∈ inner.contents := by
        apply Multiset.mem_add.mpr
        exact Or.inl (mem_map_of_mem (mem_of_find?_eq_some found))
      simpa using member
  unfold retriedBy
  split
  · exact stored _
  · exact Multiset.zero_le _

theorem performed_balanced (config : Config) (step : Inner × Input) :
    (performed config step).inner.contents +
        ackedBy step.1 (step.2, (performed config step).reply) +
        envelopesOf (performed config step).dropped +
        retriedBy step.1 (step.2, (performed config step).reply) =
      step.1.contents + storedBy step.2.call step.1 (performed config step).inner +
        (retriedBy step.1 (step.2, (performed config step).reply)).map
          JobEnvelope.bump := by
  obtain ⟨labels, changes, explains⟩ := perform_changes releaseLease config step.1 step.2
  have balanced := changes.balanced releaseLease_releases
  rw [Balanced, explains.acked, explains.dropped, explains.retried, explains.stored] at balanced
  exact balanced

theorem ledger_follows {contents next others acked dropped retried bumped stored
      allAcked allDropped : Multiset JobEnvelope}
    (split : contents = retried + others)
    (balanced : next + acked + dropped + retried = contents + stored + bumped) :
    next + (allAcked + acked) + (allDropped + dropped) =
      contents + allAcked + allDropped - retried + bumped + stored := by
  have cancelled : next + acked + dropped = others + stored + bumped := by
    apply add_right_cancel (b := retried)
    rw [balanced, split]
    abel
  have rest : contents + allAcked + allDropped - retried = others + allAcked + allDropped := by
    rw [split, add_assoc, add_assoc, add_tsub_cancel_left, add_assoc]
  calc next + (allAcked + acked) + (allDropped + dropped)
      = (next + acked + dropped) + (allAcked + allDropped) := by abel
    _ = (others + stored + bumped) + (allAcked + allDropped) := by
        rw [cancelled]
    _ = others + allAcked + allDropped + bumped + stored := by abel
    _ = contents + allAcked + allDropped - retried + bumped + stored := by
        rw [rest]

/-- The run balance: what the ledger records is live, dead, acknowledged or
dropped. -/
theorem run_balanced (config : Config) (inputs : List Input) :
    ((machine config).run inputs).contents + ackedIn config inputs +
      envelopesOf (droppedIn config inputs) = ledger config inputs := by
  induction inputs using List.reverseRecOn with
  | nil => simp [machine, machineWith, Inner.empty, Inner.contents,
      ackedIn, droppedIn, ledger, Lib.Machine.steps,
      Lib.Machine.stepsFrom, envelopesOf]
  | append_singleton past input ih =>
    have balanced := performed_balanced config ((machine config).run past, input)
    obtain ⟨others, split⟩ := Multiset.le_iff_exists_add.mp
      (retriedBy_le_contents ((machine config).run past) (input, (performed config
          ((machine config).run past, input)).reply))
    rw [Lib.Machine.run_concat]
    simp only [ackedIn, droppedIn, ledger, Lib.Machine.steps_concat,
      flatMap_append, foldl_append, foldl_cons,
      foldl_nil, flatMap_cons, flatMap_nil,
      append_nil, ← Multiset.coe_add, envelopesOf,
      map_append] at ih ⊢
    rw [← ih, ledgerStep]
    exact ledger_follows split balanced

theorem ledger_ids (config : Config) (inputs : List Input) :
    (ledger config inputs).map JobEnvelope.id = (storedIn config inputs).map JobEnvelope.id := by
  induction inputs using List.reverseRecOn with
  | nil => rfl
  | append_singleton past input ih =>
    have within : (retriedBy ((machine config).run past) (input, (performed config
          ((machine config).run past, input)).reply) :
        Multiset JobEnvelope) ≤ ledger config past := by
      rw [← run_balanced]
      exact (retriedBy_le_contents _ _).trans
        ((Multiset.le_add_right _ _).trans (Multiset.le_add_right _ _))
    obtain ⟨others, split⟩ := Multiset.le_iff_exists_add.mp within
    rw [split] at ih
    simp only [ledger, storedIn, Lib.Machine.steps_concat, flatMap_append, foldl_append, foldl_cons,
      foldl_nil, flatMap_cons, flatMap_nil,
      append_nil, map_append, ← Multiset.coe_add]
      at ih split ⊢
    rw [ledgerStep, split, add_tsub_cancel_left, ← ih]
    simp only [Multiset.map_add, map_map, Multiset.map_coe, Function.comp_def, JobEnvelope.bump_id]
    abel

theorem run_counts (config : Config) (inputs : List Input) (id : JobId) :
    (storedIn config inputs).countP (fun envelope => envelope.id = id) =
      ((machine config).run inputs).jobs.countP (fun job => job.id = id) +
        ((machine config).run inputs).dead.countP (fun entry => entry.id = id) +
        (ackedIn config inputs).countP (fun envelope => envelope.id = id) +
        (droppedIn config inputs).countP (fun entry => entry.id = id) := by
  have ids := ledger_ids config inputs
  rw [← run_balanced config inputs] at ids
  have counted := congrArg (Multiset.count id) ids
  simp only [Inner.contents, envelopesOf, Multiset.map_add,
    Multiset.map_coe, Multiset.count_add, Multiset.coe_count,
    map_map, List.count, countP_map] at counted
  exact counted.symm

/-- Job conservation, for every run of `InMemoryBroker`: insertions that
really stored a job are live, dead-lettered, acknowledged or dropped, and
envelopes change only by the attempts of successful retries. -/
theorem run_conserves (config : Config) (inputs : List Input) :
    let inner := (machine config).run inputs
    (∀ id : JobId, (storedIn config inputs).countP (fun envelope => envelope.id = id) =
        inner.jobs.countP (fun job => job.id = id) +
          inner.dead.countP (fun entry => entry.id = id) +
          (ackedIn config inputs).countP (fun envelope => envelope.id = id) +
          (droppedIn config inputs).countP (fun entry => entry.id = id)) ∧
      (inner.jobs.map StoredJob.envelope ++ envelopesOf inner.dead ++
          ackedIn config inputs ++ envelopesOf (droppedIn config inputs) :
        Multiset JobEnvelope) = ledger config inputs := by
  refine ⟨run_counts config inputs, ?_⟩
  rw [← run_balanced config inputs]
  rfl

end Run

end Worklane.Memory
