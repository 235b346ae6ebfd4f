import Worklane.Memory.Invariant

/-!
# `requeue` against its contract

`requeue` moves the first record of an id.  An id that has been reused can have
several records, and then the contract, which leaves none behind, is not met.
-/

namespace Worklane.Memory

open List

/-- The conditions of a requeue, in terms of the live jobs. -/
structure Revivable (inner : Inner) (id : JobId) (entry : DeadEntry) : Prop where
  record : inner.record id = some entry
  notLive : ∀ job ∈ inner.jobs, job.id ≠ id
  keyFree : ∀ key, entry.uniqueKey = some key → ∀ job ∈ inner.jobs, job.uniqueKey ≠ some key

/-- What the contract asks of a requeue. -/
structure MeetsContract (inner : Inner) (now : Nat) (id : JobId) (outcome : Outcome) : Prop where
  succeeds : outcome.reply = .ok .done ↔ ∃ entry, Revivable inner id entry
  revived : ∀ entry, Revivable inner id entry → ∃ job, outcome.inner.jobs = inner.jobs ++ [job] ∧
      (outcome.inner.jobs.filter fun other => other.id = id) = [job] ∧
      job.envelope = entry.letter.envelope ∧ job.uniqueKey = entry.uniqueKey ∧
      visible job.envelope.lane now job = true ∧ job.deliveries = 0
  /-- No record of the id is left, and the other records stay. -/
  cleared : ∀ entry, Revivable inner id entry →
    outcome.inner.dead = inner.dead.filter fun other => other.id ≠ id
  noRecord : inner.record id = none → outcome.reply = .error (.broker (noDeadLetterText id))
  liveId : ∀ entry, inner.record id = some entry → (∃ job ∈ inner.jobs, job.id = id) →
    outcome.reply = .error (.liveJobIdConflict (liveIdText id))
  keyHeld : ∀ entry key, inner.record id = some entry → (∀ job ∈ inner.jobs, job.id ≠ id) →
    entry.uniqueKey = some key → (∃ job ∈ inner.jobs, job.uniqueKey = some key) →
    outcome.reply = .error (.uniqueKeyHeld (keyHeldText id key))
  unchanged : (¬ ∃ entry, Revivable inner id entry) → outcome.inner = inner

section Requeue

variable {inner : Inner} {now : Nat} {id : JobId} {entry : DeadEntry}

theorem isLive_iff : inner.isLive id = true ↔ ∃ job ∈ inner.jobs, job.id = id := by
  simp [Inner.isLive]

theorem not_isLive_iff : inner.isLive id = false ↔ ∀ job ∈ inner.jobs, job.id ≠ id := by
  simp [Inner.isLive]

theorem Coherent.isSome_unique (coherent : Coherent inner) (key : String) :
    (inner.unique key).isSome = true ↔ ∃ job ∈ inner.jobs, job.uniqueKey = some key := by
  rw [Option.isSome_iff_exists]
  constructor
  · rintro ⟨holder, held⟩
    obtain ⟨job, member, _, own⟩ := (coherent.keys key holder).mp held
    exact ⟨job, member, own⟩
  · rintro ⟨job, member, own⟩
    exact ⟨job.id, (coherent.keys key job.id).mpr ⟨job, member, rfl, own⟩⟩

theorem Refusal.not_revivable (coherent : Coherent inner) {failure : Error}
    (refusal : Refusal inner id failure) : ¬ Revivable inner id entry := by
  intro revivable
  cases refusal with
  | noRecord absent => simp [revivable.record] at absent
  | liveId _ live =>
    obtain ⟨job, member, same⟩ := isLive_iff.mp live
    exact revivable.notLive job member same
  | keyHeld record _ held taken =>
    obtain ⟨job, member, own⟩ := (coherent.isSome_unique _).mp taken
    rw [revivable.record] at record
    cases record
    exact revivable.keyFree _ held job member own

theorem Refusal.named (coherent : Coherent inner) {failure : Error}
    (refusal : Refusal inner id failure) :
    (inner.record id = none → failure = .broker (noDeadLetterText id)) ∧
    (∀ entry, inner.record id = some entry → (∃ job ∈ inner.jobs, job.id = id) →
      failure = .liveJobIdConflict (liveIdText id)) ∧
    (∀ entry key, inner.record id = some entry → (∀ job ∈ inner.jobs, job.id ≠ id) →
      entry.uniqueKey = some key → (∃ job ∈ inner.jobs, job.uniqueKey = some key) →
      failure = .uniqueKeyHeld (keyHeldText id key)) := by
  cases refusal with
  | noRecord absent => simp [absent]
  | liveId record live =>
    obtain ⟨job, member, same⟩ := isLive_iff.mp live
    refine ⟨by simp [record], fun _ _ _ => rfl, fun _ _ _ notLive => ?_⟩
    exact absurd same (notLive job member)
  | keyHeld record notLive held taken =>
    refine ⟨by simp [record], fun _ _ live => ?_, fun entry key own _ ownKey _ => ?_⟩
    · rw [isLive_iff.mpr live] at notLive
      cases notLive
    · rw [record] at own
      cases own
      rw [held] at ownKey
      cases ownKey
      rfl

theorem revived_dead_iff {before after : List DeadEntry}
    (split : inner.dead = before ++ entry :: after) (same : entry.id = id)
    (others : ∀ other ∈ before, other.id ≠ id) :
    before ++ after = (inner.dead.filter fun other => other.id ≠ id) ↔
      (inner.dead.filter fun other => other.id = id) = [entry] := by
  have early : before.filter (fun other => other.id ≠ id) = before :=
    filter_eq_self.mpr fun other member => by simp [others other member]
  have none : before.filter (fun other => other.id = id) = [] :=
    filter_eq_nil_iff.mpr fun other member => by simp [others other member]
  rw [split, filter_append, filter_append, early, none,
    filter_cons_of_neg (by simp [same]), filter_cons_of_pos (by simp [same]),
    append_cancel_left_eq, nil_append, List.cons.injEq, eq_comm,
    filter_eq_self, filter_eq_nil_iff]
  simp

/-- In a coherent store `requeue` meets its contract unless it succeeds while
its id has another record. -/
theorem Coherent.meetsContract_iff (coherent : Coherent inner) :
    MeetsContract inner now id (requeue inner now id) ↔ ∀ entry, Revivable inner id entry →
        (inner.dead.filter fun other => other.id = id) = [entry] := by
  rcases requeue_cases inner now id with
    ⟨failure, refusal, refused⟩ | ⟨before, entry, after, split, same, others, notLive, free, moved⟩
  · have never : ∀ entry, ¬ Revivable inner id entry := fun _ =>
    refusal.not_revivable coherent
    obtain ⟨noRecord, liveId, keyHeld⟩ := refusal.named coherent
    rw [refused]
    refine ⟨fun _ entry revivable => absurd revivable (never entry), fun _ => ?_⟩
    exact {
      succeeds := ⟨fun accepted => (by cases accepted),
        fun found => absurd found (not_exists.mpr never)⟩
      revived := fun entry revivable => absurd revivable (never entry)
      cleared := fun entry revivable => absurd revivable (never entry)
      noRecord := fun absent => by rw [noRecord absent]
      liveId := fun entry record live => by rw [liveId entry record live]
      keyHeld := fun entry key record apart own held => by
        rw [keyHeld entry key record apart own held]
      unchanged := fun _ => rfl }
  · have record : inner.record id = some entry :=
      find?_eq_some_iff_append.mpr ⟨by simp [same], before, after, split, by simpa using others⟩
    have unique : ∀ other, Revivable inner id other → other = entry := by
      intro other revivable
      have found := revivable.record
      rw [record] at found
      exact (Option.some.inj found).symm
    have apart : ∀ job ∈ inner.jobs, job.id ≠ id := by
      rw [same] at notLive
      exact not_isLive_iff.mp notLive
    have unheld : ∀ key, entry.uniqueKey = some key →
        ¬ ∃ job ∈ inner.jobs, job.uniqueKey = some key := by
      intro key own held
      have taken := (coherent.isSome_unique key).mpr held
      rw [Inner.keyHolder, own, Option.bind_some] at free
      simp [free] at taken
    have revivable : Revivable inner id entry :=
      ⟨record, apart, fun key own job member held => unheld key own ⟨job, member, held⟩⟩
    rw [moved]
    refine ⟨fun meets other revived => ?_, fun single => ?_⟩
    · rw [unique other revived]
      exact (revived_dead_iff split same others).mp (meets.cleared entry revivable)
    · exact {
        succeeds := ⟨fun _ => ⟨entry, revivable⟩, fun _ => rfl⟩
        revived := fun other revived => by
          rw [unique other revived]
          refine ⟨requeuedJob entry now, rfl, ?_, rfl, rfl, by simp [visible, requeuedJob], rfl⟩
          have absent : inner.jobs.filter (fun other => other.id = id) = [] :=
            filter_eq_nil_iff.mpr fun job member => by simp [apart job member]
          have own : (requeuedJob entry now).id = id := same
          rw [revive, filter_append, absent, nil_append,
            filter_cons_of_pos (by simp [own]), filter_nil]
        cleared := fun _ _ => (revived_dead_iff split same others).mpr (single entry revivable)
        noRecord := fun absent => by simp [record] at absent
        liveId := fun _ _ found => by
          obtain ⟨job, member, live⟩ := found
          exact absurd live (apart job member)
        keyHeld := fun other key found _ own held => by
          rw [record] at found
          cases found
          exact absurd held (unheld key own)
        unchanged := fun never => absurd ⟨entry, revivable⟩ never }

end Requeue

/-- In every reachable state `requeue` meets its contract unless it succeeds
while its id has another record. -/
theorem requeue_contract (config : Config) (inputs : List Input) (now : Nat) (id : JobId) :
    MeetsContract ((machine config).run inputs) now id
        (requeue ((machine config).run inputs) now id) ↔
      ∀ entry, Revivable ((machine config).run inputs) id entry →
        (((machine config).run inputs).dead.filter fun other => other.id = id) = [entry] :=
  (run_coherent config inputs).meetsContract_iff

/-! ## An id with two records -/

def reusedJob : NewJob := ⟨⟨⟨1⟩⟩, ⟨"mail"⟩, "send", [], 3, 0, none, 0, none⟩

/-- A job fails, its id is used again, and the new job fails too. -/
def reusedTwice : List Input :=
  [⟨1, ⟨⟨0⟩⟩, .enqueue reusedJob⟩, ⟨2, ⟨⟨1⟩⟩, .reserve ⟨"mail"⟩⟩,
    ⟨3, ⟨⟨0⟩⟩, .fail ⟨⟨1⟩⟩ "first"⟩, ⟨4, ⟨⟨0⟩⟩, .enqueue reusedJob⟩,
    ⟨5, ⟨⟨2⟩⟩, .reserve ⟨"mail"⟩⟩, ⟨6, ⟨⟨0⟩⟩, .fail ⟨⟨2⟩⟩ "second"⟩]

/-- The requeue succeeds, and a record of the id is left. -/
theorem second_record_left :
    ¬ MeetsContract ((machine ⟨30, ⟨none, none⟩, none⟩).run reusedTwice) 7 ⟨⟨1⟩⟩
      (requeue ((machine ⟨30, ⟨none, none⟩, none⟩).run reusedTwice) 7 ⟨⟨1⟩⟩) := by
  intro meets
  obtain ⟨entry, revivable⟩ := meets.succeeds.mp (by decide +kernel)
  have left := meets.cleared entry revivable
  revert left
  decide +kernel

end Worklane.Memory
