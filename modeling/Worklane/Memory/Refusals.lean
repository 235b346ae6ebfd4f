import Worklane.Memory.Parts

/-!
# Calls that are refused

A call that is answered with an error changes the store only by clearing leases
that are over, and no later call can tell.
-/

namespace Worklane.Memory

/-- The store is the same, up to cleared leases. -/
def Cleared (now : Nat) (inner next : Inner) : Prop :=
  ∃ jobs, List.Forall₂ (Released releaseLease now) inner.jobs jobs ∧
    next = { inner with jobs := jobs }

section Cleared

variable {now : Nat} {inner next : Inner}

theorem Cleared.refl (now : Nat) (inner : Inner) : Cleared now inner inner :=
  ⟨inner.jobs, List.forall₂_same.mpr fun _ _ => Or.inl rfl, rfl⟩

theorem Released.releasedJob_eq {job job' : StoredJob}
    (released : Released releaseLease now job job') :
    releasedJob now job' = releasedJob now job := by
  rcases released with rfl | ⟨exceeded, rfl⟩
  · rfl
  · rw [releasedJob_expired exceeded]
    exact releasedJob_running rfl

theorem Cleared.view (part : Part) (cleared : Cleared now inner next) :
    part.view now next = part.view now inner := by
  obtain ⟨jobs, aligned, rfl⟩ := cleared
  refine view_congr ?_ rfl rfl fun _ _ => rfl
  have kept := Lib.filter_of_aligned aligned fun job job' released => by
    show part.holds job = part.holds job'
    rw [← @holds_releasedJob part now job, ← @holds_releasedJob part now job',
      released.releasedJob_eq]
  exact (Lib.map_eq_of_aligned kept fun _ _ released =>
    released.releasedJob_eq.symm).symm

/-- What an error leaves behind. -/
def KeepsOnError (now : Nat) (inner : Inner) (outcome : Outcome) : Prop :=
  ∀ failure, outcome.reply = .error failure → Cleared now inner outcome.inner

theorem resolve_keepsOnError (inner : Inner) (receipt : ReservationReceipt)
    (now : Nat) (change : Inner → Nat → Inner × List DeadEntry) :
    KeepsOnError now inner (resolve releaseLease inner receipt now change) := by
  intro failure refused
  rcases resolve_cases releaseLease inner receipt now change with
    ⟨jobs, aligned, equal⟩ | ⟨before, job, after, split, _, current, equal⟩
  · rw [equal]
    exact ⟨jobs, aligned, rfl⟩
  · rw [equal] at refused
    cases refused

theorem requeue_keepsOnError (inner : Inner) (now : Nat) (id : JobId) :
    KeepsOnError now inner (requeue inner now id) := by
  intro failure refused
  rcases requeue_cases inner now id with ⟨_, _, same⟩ | ⟨_, _, _, _, _, _, _, _, revived⟩
  · rw [same]
    exact .refl now inner
  · rw [revived] at refused
    cases refused

theorem perform_keepsOnError (config : Config) (inner : Inner) (input : Input) :
    KeepsOnError input.now inner (perform releaseLease config inner input) := by
  obtain ⟨now, mint, call⟩ := input
  intro failure refused
  cases call with
  | enqueue job =>
    simp only [perform, enqueue] at refused ⊢
    cases checked : checkPayloadSize job with
    | error failure => exact .refl now inner
    | ok value =>
      rw [checked] at refused
      cases refused
  | enqueueBatch jobs =>
    simp only [perform, enqueueBatch] at refused ⊢
    cases checked : jobs.forM checkPayloadSize with
    | error failure => exact .refl now inner
    | ok value =>
      rw [checked] at refused
      cases refused
  | ack | retry | defer | fail | extend => exact resolve_keepsOnError _ _ _ _ failure refused
  | requeue id => exact requeue_keepsOnError inner now id failure refused
  | enqueueScheduled id occurrence job =>
    simp only [perform, enqueueScheduled] at refused
    split at refused <;> cases refused
  | reserve | classify | readDeadLetters | countDeadLetters | purgeDeadLetters | pendingCount
  | removeSchedule => cases refused

end Cleared

theorem placed_all (inner : Inner) : Part.all.Placed inner where
  jobs := fun _ _ => ⟨rfl, fun _ _ => rfl, fun foreign => (nomatch foreign)⟩
  dead := fun _ _ => ⟨rfl, fun foreign => (nomatch foreign)⟩

theorem respects_all (input : Input) : Part.all.Respects input where
  jobs := fun _ _ => rfl
  keys := fun _ _ foreign => (nomatch foreign)
  matches_ := by
    unfold Part.Matches
    split <;> trivial

theorem concerns_all (call : Call) : Part.all.concerns call = true ∨ call = .enqueueBatch [] := by
  cases call with
  | enqueueBatch jobs =>
    cases jobs with
    | nil => exact Or.inr rfl
    | cons job rest => exact Or.inl rfl
  | _ => exact Or.inl rfl

theorem perform_alike (config : Config) {inner other : Inner} {input : Input}
    (distinct : inner.receipts.Nodup) (distinct' : other.receipts.Nodup)
    (same : Part.all.view input.now inner = Part.all.view input.now other) :
    Part.all.Follows input.now (perform releaseLease config inner input)
      (perform releaseLease config other input) := by
  have left := perform_follows config (placed_all inner) distinct
    (respects_all input) (concerns_all input.call)
  have right := perform_follows config (placed_all other) distinct'
    (respects_all input) (concerns_all input.call)
  rw [same] at left
  exact ⟨left.reply.trans right.reply.symm, left.view.trans right.view.symm⟩

theorem run_distinct (config : Config) {inputs : List Input} (fresh : FreshMints inputs) :
    ((machine config).run inputs).receipts.Nodup :=
  (run_tracked releaseLease_releases config inputs fresh).consistent.receipts

section NoTrace

variable (config : Config) {past : List Input} {refused : Input}

/-- From a refused call on, the broker with the call and the broker without it
look alike. -/
theorem run_alike {failure : Error}
    (fails : (perform releaseLease config ((machine config).run past)
      refused).reply = .error failure) (later : List Input)
    (fresh : FreshMints (past ++ refused :: later))
    (ordered : ClockMonotone (refused :: later)) :
    (∀ now, (∀ input ∈ refused :: later, input.now ≤ now) →
      Part.all.view now ((machine config).run (past ++ refused :: later)) =
        Part.all.view now ((machine config).run (past ++ later))) ∧
      (machine config).traceFrom ((machine config).run (past ++ [refused])) later =
        (machine config).traceFrom ((machine config).run past) later := by
  induction later using List.reverseRecOn with
  | nil =>
    refine ⟨?_, rfl⟩
    intro now after
    rw [List.append_nil, Lib.Machine.run_concat]
    exact view_eq_later (after refused (List.mem_singleton.mpr rfl))
      ((perform_keepsOnError config _ refused failure fails).view _)
  | append_singleton later input ih =>
    have split : past ++ refused :: (later ++ [input]) =
        (past ++ refused :: later) ++ [input] := by simp
    have split' : past ++ (later ++ [input]) = (past ++ later) ++ [input] := by simp
    rw [split] at fresh
    have before := freshMints_past _ _ fresh
    have ordered' : ClockMonotone ((refused :: later) ++ [input]) := ordered
    obtain ⟨alike, traces⟩ := ih before (clockMonotone_past _ _ ordered')
    have same := alike input.now (clockMonotone_last ordered')
    have follows := perform_alike config (run_distinct config before)
      (run_distinct config (freshMints_sublist
        ((List.sublist_cons_self ..).append_left past) before)) same
    constructor
    · intro now after
      rw [split, split', Lib.Machine.run_concat, Lib.Machine.run_concat]
      exact view_eq_later (after input (by simp)) follows.view
    · have state : (machine config).runFrom ((machine config).run (past ++ [refused])) later =
          (machine config).run (past ++ refused :: later) := by
        simp [Lib.Machine.run, Lib.Machine.runFrom]
      have state' : (machine config).runFrom ((machine config).run past)
          later = (machine config).run (past ++ later) := by
        simp [Lib.Machine.run, Lib.Machine.runFrom]
      rw [Lib.Machine.traceFrom_append, Lib.Machine.traceFrom_append, traces, state, state']
      congr 1
      exact congrArg (fun reply => [(input, reply)]) follows.reply

end NoTrace

/-- A refused call clears at most leases that are over, and every later
sequence of calls is answered as if it had not been made. -/
theorem refused_call_leaves_no_trace (config : Config) (past : List Input)
    (refused : Input) (later : List Input)
    (fresh : FreshMints (past ++ refused :: later))
    (ordered : ClockMonotone (refused :: later)) {failure : Error}
    (fails : (perform releaseLease config ((machine config).run past)
      refused).reply = .error failure) :
    Cleared refused.now ((machine config).run past) ((machine config).run (past ++ [refused])) ∧
      (machine config).traceFrom ((machine config).run (past ++ [refused])) later =
        (machine config).traceFrom ((machine config).run past) later := by
  refine ⟨?_, (run_alike config fails later fresh ordered).2⟩
  rw [Lib.Machine.run_concat]
  exact perform_keepsOnError config _ refused failure fails

/-- A late ack clears the lease of the job and nothing else, and the next
worker gets the job either way. -/
theorem refused_call_leaves_no_trace_late_ack : let config : Config := ⟨10, ⟨none, none⟩, none⟩
    let job : NewJob := ⟨⟨⟨1⟩⟩, ⟨"mail"⟩, "kind", [], 3, 0, none, 0, none⟩
    let past : List Input := [⟨1, ⟨⟨0⟩⟩, .enqueue job⟩, ⟨2, ⟨⟨7⟩⟩, .reserve ⟨"mail"⟩⟩]
    let refused : Input := ⟨20, ⟨⟨0⟩⟩, .ack ⟨⟨7⟩⟩⟩
    let later : List Input := [⟨21, ⟨⟨8⟩⟩, .reserve ⟨"mail"⟩⟩]
    ((machine config).run (past ++ [refused])).jobs ≠ ((machine config).run past).jobs ∧
      (machine config).traceFrom ((machine config).run (past ++ [refused])) later =
        (machine config).traceFrom ((machine config).run past) later := by
  refine ⟨by decide, ?_⟩
  exact (@refused_call_leaves_no_trace _ _ _ _ (by decide) (by decide) (stale ⟨⟨7⟩⟩) (by decide)).2

end Worklane.Memory
