import Worklane.Redis.Changes

/-!
# What `RESERVE` does to the job hashes

`RESERVE` dead-letters the jobs that were delivered too often until it meets
one that was not, and leases that one.  Seen from the job hashes alone, the
levels and the sorted sets do not matter.
-/

namespace Worklane.Redis

variable {args : ReserveArgs} {store : Store}

/-- The delivery that is due would be one too many. -/
def ReserveArgs.Exceeded (args : ReserveArgs) (hash : JobHash) : Prop :=
  0 < args.max ∧ args.max < hash.deliveries + 1

/-- The hash of a job that is handed out. -/
def JobHash.leasedBy (hash : JobHash) (args : ReserveArgs) : JobHash :=
  { hash with
    deliveries := hash.deliveries + 1
    leasedUntil := some (Lib.toDouble args.leaseUntil)
    receipt := some args.receipt }

/-- What `RESERVE` answers, which jobs it dead-letters, and the job hashes it
leaves. -/
inductive Hands (args : ReserveArgs) : (Text → Option JobHash) → Option (Blob × Nat) → List Burial →
      (Text → Option JobHash) → Prop
  | nothing (job : Text → Option JobHash) : Hands args job none [] job
  | handed {job : Text → Option JobHash} {id : Text} {hash : JobHash}
      (found : job id = some hash) (within : ¬ args.Exceeded hash) :
      Hands args job (some (hash.envelope, hash.attempts)) []
        (Function.update job id (some (hash.leasedBy args)))
  | swept {job final : Text → Option JobHash} {id member : Text}
      {hash : JobHash} {priority : Nat} {answer : Option (Blob × Nat)}
      {burials : List Burial} (found : job id = some hash)
      (exceeded : args.Exceeded hash)
      (rest : Hands args (Function.update job id none) answer burials final) :
      Hands args job answer ((id, hash.deadRecord args.lane priority member
          (overDeliveredText args.max) (Lib.toDouble args.now)) :: burials)
        final

/-! ## The script -/

@[simp]
theorem pruneByAge_job (lane : Lane) (bounds : Bounds) :
    (store.pruneByAge lane bounds).job = store.job := by
  unfold Store.pruneByAge
  split <;> rfl

@[simp]
theorem pruneByCount_job (lane : Lane) (bounds : Bounds) :
    (store.pruneByCount lane bounds).job = store.job := by
  simp only [Store.pruneByCount]
  split <;> rfl

@[simp]
theorem deadLetterMove_job (id : Text) (hash : JobHash) (lane : Lane)
    (priority : Nat) (member : Text) (error : String) (deadAt : Nat)
    (bounds : Bounds) :
    (store.deadLetterMove id hash lane priority member error deadAt
      bounds).job = Function.update store.job id none := by
  simp only [Store.deadLetterMove, pruneByCount_job, pruneByAge_job]
  rfl

/-- What a level answers `RESERVE` with. -/
def LevelEnd.answer : LevelEnd → Option (Blob × Nat)
  | .handed envelope attempts => some (envelope, attempts)
  | _ => none

theorem Hands.append {job middle final : Text → Option JobHash}
    {answer : Option (Blob × Nat)} {burials later : List Burial}
    (first : Hands args job none burials middle)
    (second : Hands args middle answer later final) :
    Hands args job answer (burials ++ later) final := by
  generalize unanswered : none = pending at first
  induction first with
  | nothing => exact second
  | handed found within => cases unanswered
  | swept found exceeded rest ih =>
    exact .swept found exceeded (ih second unanswered)

theorem reserveLevel_hands (args : ReserveArgs) (priority left : Nat) (store : Store) :
    Hands args store.job (store.reserveLevel args priority left).2.1.answer
      (store.reserveLevel args priority left).2.2
      (store.reserveLevel args priority left).1.job := by
  induction left generalizing store with
  | zero => exact .nothing store.job
  | succ left ih =>
    rw [Store.reserveLevel]
    cases (store.lanes (args.lane, priority)).firstUpTo (Lib.toDouble args.now) with
    | none => exact .nothing store.job
    | some entry =>
      cases found : store.job (fifoId entry.member) with
      | none =>
        simp only [found]
        exact .nothing store.job
      | some hash =>
        simp only [found]
        by_cases exceeded : args.Exceeded hash
        · have exceeded : 0 < args.max ∧ args.max < hash.deliveries + 1 := exceeded
          simp only [if_pos exceeded]
          refine .swept found exceeded ?_
          have rest := ih (store.deadLetterMove (fifoId entry.member) hash args.lane priority
            entry.member (overDeliveredText args.max)
            (Lib.toDouble args.now) args.bounds)
          rwa [deadLetterMove_job] at rest
        · have under : ¬ (0 < args.max ∧ args.max < hash.deliveries + 1) := exceeded
          simp only [if_neg under]
          exact .handed found exceeded

theorem reserveLevels_hands (args : ReserveArgs) (levels : List Nat) (left : Nat) (store : Store) :
    Hands args store.job (store.reserveLevels args levels left).2.1
      (store.reserveLevels args levels left).2.2
      (store.reserveLevels args levels left).1.job := by
  induction levels generalizing store left with
  | nil => exact .nothing store.job
  | cons priority rest ih =>
    rw [Store.reserveLevels]
    split
    · exact ih left { store with
        prios := Function.update store.prios args.lane ((store.prios args.lane).zrem priority) }
    · have first := reserveLevel_hands args priority left store
      rcases ended : store.reserveLevel args priority left with
        ⟨next, outcome, buried⟩
      rw [ended] at first
      cases outcome with
      | handed envelope attempts => exact first
      | capped => exact first
      | drained remaining =>
        exact first.append (ih remaining next)

theorem reserve_hands (args : ReserveArgs) (store : Store) :
    Hands args store.job (store.reserve args).2.1 (store.reserve args).2.2
      (store.reserve args).1.job :=
  reserveLevels_hands args _ _ store

/-! ## One job -/

section OneJob

variable {job final : Text → Option JobHash} {answer : Option (Blob × Nat)}
variable {burials : List Burial} {id : Text}

theorem Hands.none_of_none (hands : Hands args job answer burials final)
    (absent : job id = none) : final id = none := by
  induction hands with
  | nothing => exact absent
  | @handed job other hash found within =>
    have different : id ≠ other := by
      rintro rfl
      cases absent.symm.trans found
    rw [Function.update_of_ne different, absent]
  | @swept job final other member hash priority answer burials found
      exceeded rest ih =>
      apply ih
      by_cases same : id = other
      · rw [same, Function.update_self]
      · rw [Function.update_of_ne same, absent]

theorem Hands.cases_of_some (hands : Hands args job answer burials final)
    {hash : JobHash} (live : job id = some hash) :
    (id ∈ burials.map Prod.fst ∧ final id = none ∧ args.Exceeded hash) ∨
      (id ∉ burials.map Prod.fst ∧ final id = some (hash.leasedBy args) ∧
        answer = some (hash.envelope, hash.attempts) ∧
        ¬ args.Exceeded hash) ∨
      (id ∉ burials.map Prod.fst ∧ final id = some hash) := by
  induction hands with
  | nothing => exact Or.inr (Or.inr ⟨List.not_mem_nil, live⟩)
  | @handed job other stored found within =>
    right
    by_cases same : id = other
    · subst same
      cases live.symm.trans found
      exact Or.inl ⟨List.not_mem_nil, Function.update_self .., rfl, within⟩
    · exact Or.inr ⟨List.not_mem_nil, (Function.update_of_ne same ..).trans live⟩
  | @swept job final other member stored priority answer burials found
      exceeded rest ih =>
      by_cases same : id = other
      · subst same
        cases live.symm.trans found
        exact Or.inl ⟨List.mem_cons_self .., rest.none_of_none (Function.update_self ..), exceeded⟩
      · have kept : Function.update job other none id = some hash :=
          (Function.update_of_ne same ..).trans live
        have unnamed : ∀ {list : List Text}, id ∉ list → id ∉ other :: list :=
          fun outside member => outside ((List.mem_cons.mp member).resolve_left same)
        rcases ih kept with
          ⟨member, rest⟩ | ⟨outside, rest⟩ | ⟨outside, rest⟩
        · exact Or.inl ⟨List.mem_cons_of_mem _ member, rest⟩
        · exact Or.inr (Or.inl ⟨unnamed outside, rest⟩)
        · exact Or.inr (Or.inr ⟨unnamed outside, rest⟩)

theorem Hands.of_answer (hands : Hands args job answer burials final)
    {blob : Blob} {attempts : Nat} (handed : answer = some (blob, attempts)) :
    ∃ id hash, job id = some hash ∧ hash.envelope = blob ∧
      hash.attempts = attempts ∧ final id = some (hash.leasedBy args) ∧
      id ∉ burials.map Prod.fst ∧ ¬ args.Exceeded hash := by
  induction hands with
  | nothing => cases handed
  | @handed job id hash found within =>
    cases handed
    exact ⟨id, hash, found, rfl, rfl, Function.update_self .., List.not_mem_nil, within⟩
  | @swept job final other member stored priority answer burials found
      exceeded rest ih =>
      obtain ⟨id, hash, kept, same, count, leased, outside, within⟩ := ih handed
      have different : id ≠ other := by
        rintro rfl
        rw [Function.update_self] at kept
        cases kept
      rw [Function.update_of_ne different] at kept
      refine ⟨id, hash, kept, same, count, leased, ?_, within⟩
      exact fun member => outside ((List.mem_cons.mp member).resolve_left different)

end OneJob

end Worklane.Redis
