import Worklane.Memory.Sound

/-!
# Where jobs and receipts come from

A receipt on a job was handed out with exactly the envelope the job still has,
and a stored job was submitted with its id, its payload and its unique key.
An insertion is answered with the id of a job that is live afterwards: the job
itself, or the one it was deduplicated to.
-/

namespace Worklane.Memory

open List

/-! ## Receipts -/

section Receipts

variable {release : StoredJob → StoredJob} {config : Config}
variable {now : Nat} {mint : ReservationReceipt} {call : Call}
variable {inner next : Inner} {label : Label} {labels : List Label}

/-- The job was there before, with this receipt and this envelope. -/
def Held (inner : Inner) (receipt : ReservationReceipt) (envelope : JobEnvelope) : Prop :=
  ∃ job ∈ inner.jobs, job.receipt = some receipt ∧ job.envelope = envelope

theorem Change.held (releases : Releases release)
    (change : Change release config now mint call inner label next)
    (noGrant : ∀ id given, .grant id given ∉ label.actions)
    {receipt : ReservationReceipt} {envelope : JobEnvelope}
    (held : Held next receipt envelope) : Held inner receipt envelope := by
  obtain ⟨job, member, owns, rfl⟩ := held
  -- Where one job of the list is replaced, or removed.
  have kept : ∀ {before after : List StoredJob} {old : StoredJob},
      inner.jobs = before ++ old :: after → job ∈ before ++ after →
      Held inner receipt job.envelope := by
    intro before after old split listed
    refine ⟨job, ?_, owns, rfl⟩
    rw [split]
    simp only [mem_append, mem_cons] at listed ⊢
    tauto
  have replaced : ∀ {before after : List StoredJob} {old new : StoredJob},
      inner.jobs = before ++ old :: after → job ∈ before ++ new :: after →
      (new.receipt = some receipt → old.receipt = some receipt ∧ old.envelope = new.envelope) →
      Held inner receipt job.envelope := by
    intro before after old new split listed same
    simp only [mem_append, mem_cons] at listed
    rcases listed with early | rfl | late
    · exact kept split (mem_append_left _ early)
    · obtain ⟨receipts, envelopes⟩ := same owns
      exact ⟨old, by simp [split], receipts, envelopes⟩
    · exact kept split (mem_append_right _ late)
  have appended : ∀ {new : StoredJob}, job ∈ inner.jobs ++ [new] →
      new.receipt = none → Held inner receipt job.envelope := by
    intro new listed idle
    rcases mem_append.mp listed with early | last
    · exact ⟨job, early, owns, rfl⟩
    · rw [mem_singleton.mp last, idle] at owns
      cases owns
  cases change with
  | store => exact appended member rfl
  | release aligned =>
    obtain ⟨old, inside, released⟩ := Lib.exists_left_of_mem aligned member
    rcases released with rfl | ⟨_, rfl⟩
    · exact ⟨job, inside, owns, rfl⟩
    · rw [releases.receipt] at owns
      cases owns
  | lease => exact absurd (mem_singleton.mpr rfl) (noGrant _ _)
  | sweep error split => exact kept split member
  | ack split => exact kept split member
  | retry delay split => exact replaced split member (by rintro ⟨⟩)
  | defer delay split => exact replaced split member (by rintro ⟨⟩)
  | fail error split => exact kept split member
  | extend split => exact replaced split member fun same => ⟨same, rfl⟩
  | drop => exact ⟨job, member, owns, rfl⟩
  | revive => exact appended member rfl
  | schedule => exact ⟨job, member, owns, rfl⟩

theorem Changes.held (releases : Releases release)
    (changes : Changes release config now mint call inner labels next)
    (noGrant : ∀ id given, .grant id given ∉ labels.flatMap Label.actions)
    {receipt : ReservationReceipt} {envelope : JobEnvelope}
    (held : Held next receipt envelope) : Held inner receipt envelope := by
  induction changes with
  | refl => exact held
  | head change _ ih =>
    rw [flatMap_cons] at noGrant
    refine change.held releases (fun id given member => ?_) (ih (fun id given member => ?_) held)
    · exact noGrant id given (mem_append_left _ member)
    · exact noGrant id given (mem_append_right _ member)

theorem mem_of_swept {retention : RetentionPolicy} {error : String}
    {before after : List StoredJob} {swept job : StoredJob}
    (split : inner.jobs = before ++ swept :: after)
    (member : job ∈ (deadLetterAt retention inner before.length error now).1.jobs) :
    job ∈ inner.jobs := by
  rw [deadLetterAt_split _ split] at member
  rw [split]
  simp only [mem_append, mem_cons] at member ⊢
  tauto

variable {lane : Lane} {result : Inner × Option Reservation × List DeadEntry}

theorem Loops.handed (loops : Loops config lane now mint inner result) {handed : Reservation}
    (hands : result.2.1 = some handed) :
    ∃ job ∈ inner.jobs, job.envelope.lane = lane ∧ handed = ⟨job.envelope, mint, config.lease⟩ := by
  induction loops with
  | ends => cases hands
  | @leases _ _ _ job best =>
    cases hands
    exact ⟨job, by simp [best.split], (visible_iff.mp best.chosenEligible).1, rfl⟩
  | sweeps best _ _ _ ih =>
    obtain ⟨job, listed, same⟩ := ih hands
    exact ⟨job, mem_of_swept best.split listed, same⟩

theorem Loops.held (loops : Loops config lane now mint inner result)
    {receipt : ReservationReceipt} {envelope : JobEnvelope}
    (held : Held result.1 receipt envelope) :
    Held inner receipt envelope ∨ result.2.1 = some ⟨envelope, receipt, config.lease⟩ := by
  induction loops with
  | ends => exact Or.inl held
  | leases best =>
    obtain ⟨found, listed, owns, rfl⟩ := held
    simp only [mem_append, mem_cons] at listed
    rcases listed with early | rfl | late
    · exact Or.inl ⟨found, by simp [best.split, early], owns, rfl⟩
    · cases owns
      exact Or.inr rfl
    · exact Or.inl ⟨found, by simp [best.split, late], owns, rfl⟩
  | sweeps best _ _ _ ih =>
    rcases ih held with ⟨job, listed, same⟩ | new
    · exact Or.inl ⟨job, mem_of_swept best.split listed, same⟩
    · exact Or.inr new

end Receipts

section Snapshot

variable (config : Config)

variable {receipt : ReservationReceipt}

theorem perform_held (inner : Inner) (input : Input) {envelope : JobEnvelope}
    (held : Held (perform releaseLease config inner input).inner receipt envelope) :
    Held inner receipt envelope ∨ ((∃ lane, input.call = .reserve lane) ∧
        (perform releaseLease config inner input).reply =
          .ok (.reserved (some ⟨envelope, receipt, config.lease⟩))) := by
  by_cases reserves : ∃ lane, input.call = .reserve lane
  · obtain ⟨now, mint, call⟩ := input
    obtain ⟨lane, rfl⟩ := reserves
    rcases (reserveLoop_loops config lane now mint _ _).held held with
      ⟨job, listed, owns, rfl⟩ | handed
    · left
      obtain ⟨old, inside, released⟩ :=
        Lib.exists_left_of_mem (releaseExpired_aligned now inner.jobs) listed
      rcases released with rfl | ⟨_, rfl⟩
      · exact ⟨job, inside, owns, rfl⟩
      · cases owns
    · right
      refine ⟨⟨lane, rfl⟩, ?_⟩
      exact congrArg (fun handed => Except.ok (Value.reserved handed)) handed
  · left
    obtain ⟨labels, changes, explains⟩ := perform_changes releaseLease config inner input
    refine changes.held releaseLease_releases ?_ held
    intro id given member
    rw [explains.actions] at member
    have grants := Lib.Lease.Action.mem_active member
    obtain ⟨lane, _, call, _⟩ := leaseAction_grant grants
    exact reserves ⟨lane, call⟩

theorem run_held (inputs : List Input) {envelope : JobEnvelope}
    (held : Held ((machine config).run inputs) receipt envelope) :
    ∃ input lane, input.call = .reserve lane ∧
      (input, .ok (.reserved (some ⟨envelope, receipt, config.lease⟩))) ∈
        (machine config).trace inputs := by
  induction inputs using List.reverseRecOn with
  | nil =>
    obtain ⟨_, member, _⟩ := held
    cases member
  | append_singleton past input ih =>
    rw [Lib.Machine.run_concat] at held
    rw [Lib.Machine.trace_concat]
    rcases perform_held config _ input held with old | ⟨⟨lane, call⟩, new⟩
    · obtain ⟨earlier, lane, call, member⟩ := ih old
      exact ⟨earlier, lane, call, mem_append_left _ member⟩
    · refine ⟨input, lane, call, mem_append_right _ ?_⟩
      rw [mem_singleton]
      exact congrArg (Prod.mk input) new.symm

/-- The receipt a resolution names. -/
def resolves : Call → Option ReservationReceipt
  | .ack receipt | .retry receipt _ | .defer receipt _ | .fail receipt _
  | .extend receipt => some receipt
  | _ => none

theorem perform_resolves {inner : Inner} {input : Input} {value : Value}
    (names : resolves input.call = some receipt)
    (accepted : (perform releaseLease config inner input).reply = .ok value) :
    ∃ job ∈ inner.jobs, job.receipt = some receipt ∧
      inner.underReceipt receipt = [job.envelope] := by
  have found : ∀ change : Inner → Nat → Inner × List DeadEntry,
      (resolve releaseLease inner receipt input.now change).reply = .ok value →
      ∃ job ∈ inner.jobs, job.receipt = some receipt ∧
        inner.underReceipt receipt = [job.envelope] := by
    intro change replied
    rcases resolve_cases releaseLease inner receipt input.now change with
      ⟨jobs, _, equal⟩ | ⟨before, job, after, split, under, current, _⟩
    · rw [equal] at replied
      cases replied
    · exact ⟨job, by simp [split], current.1, under⟩
  obtain ⟨now, mint, call⟩ := input
  cases call with
  | ack | retry | defer | fail | extend =>
    cases names
    exact found _ accepted
  | _ => cases names

theorem perform_handed {inner : Inner} {input : Input} {lane : Lane}
    {handed : Reservation} (reserves : input.call = .reserve lane)
    (accepted : (perform releaseLease config inner input).reply = .ok (.reserved (some handed))) :
    handed.receipt = input.mint ∧ ∃ job ∈ inner.jobs, job.envelope = handed.envelope ∧
        job.envelope.lane = lane := by
  obtain ⟨now, mint, call⟩ := input
  cases reserves
  have hands : (reserveLoop config lane now mint maxDeadLetterSweep
      { inner with jobs := releaseExpired releaseLease now inner.jobs }).2.1 =
        some handed :=
    Value.reserved.inj (Except.ok.inj accepted)
  obtain ⟨job, listed, same, rfl⟩ := (reserveLoop_loops config lane now mint _ _).handed hands
  refine ⟨rfl, ?_⟩
  obtain ⟨old, inside, released⟩ :=
    Lib.exists_left_of_mem (releaseExpired_aligned now inner.jobs) listed
  rcases released with rfl | ⟨_, rfl⟩
  · exact ⟨_, inside, rfl, same⟩
  · exact ⟨_, inside, rfl, same⟩

end Snapshot

/-! ## Submissions -/

/-- The same envelope, up to its attempts. -/
def Same (old new : JobEnvelope) : Prop :=
  new = { old with attempts := new.attempts }

theorem Same.refl (envelope : JobEnvelope) : Same envelope envelope := rfl

theorem Same.trans {first second third : JobEnvelope}
    (left : Same first second) (right : Same second third) :
    Same first third := by
  unfold Same at *
  rw [right, left]

theorem same_bump (envelope : JobEnvelope) : Same envelope envelope.bump := rfl

/-- The envelopes of a store with their unique keys. -/
def Inner.cards (inner : Inner) : List (JobEnvelope × Option String) :=
  inner.jobs.map (fun job => (job.envelope, job.uniqueKey)) ++
    inner.dead.map fun entry => (entry.letter.envelope, entry.uniqueKey)

theorem mem_cards_job {inner : Inner} {job : StoredJob} (member : job ∈ inner.jobs) :
    (job.envelope, job.uniqueKey) ∈ inner.cards :=
  mem_append_left _ (mem_map.mpr ⟨job, member, rfl⟩)

theorem mem_cards_dead {inner : Inner} {entry : DeadEntry} (member : entry ∈ inner.dead) :
    (entry.letter.envelope, entry.uniqueKey) ∈ inner.cards :=
  mem_append_right _ (mem_map.mpr ⟨entry, member, rfl⟩)

/-- The cards of the jobs a call brings. -/
def newCards (jobs : List NewJob) : List (JobEnvelope × Option String) :=
  jobs.map fun job => (job.intoEnvelope, job.uniqueKey)

/-- A card that was there before or that the call brings, up to attempts. -/
def Sourced (call : Call) (inner : Inner) (card : JobEnvelope × Option String) : Prop :=
  ∃ old ∈ inner.cards ++ newCards call.newJobs, Same old.1 card.1 ∧ old.2 = card.2

section Cards

variable {release : StoredJob → StoredJob} {config : Config}
variable {now : Nat} {mint : ReservationReceipt} {call : Call}
variable {inner next : Inner} {label : Label} {labels : List Label}
variable {card : JobEnvelope × Option String}

theorem sourced_of_mem (member : card ∈ inner.cards) : Sourced call inner card :=
  ⟨card, mem_append_left _ member, .refl _, rfl⟩

theorem Change.sourced (releases : Releases release)
    (change : Change release config now mint call inner label next) :
    ∀ card ∈ next.cards, Sourced call inner card := by
  have live : ∀ job ∈ inner.jobs, Sourced call inner (job.envelope, job.uniqueKey) :=
    fun job inside => sourced_of_mem (mem_cards_job inside)
  have dead : ∀ entry ∈ inner.dead, Sourced call inner (entry.letter.envelope, entry.uniqueKey) :=
    fun entry inside => sourced_of_mem (mem_cards_dead inside)
  -- The cards of a split job list.
  have listed : ∀ {before after : List StoredJob} {old : StoredJob},
      inner.jobs = before ++ old :: after → ∀ job ∈ before ++ after,
      Sourced call inner (job.envelope, job.uniqueKey) := by
    intro before after old split job inside
    refine live job ?_
    rw [split]
    simp only [mem_append, mem_cons] at inside ⊢
    tauto
  have replaced : ∀ {before after : List StoredJob} {old new : StoredJob},
      inner.jobs = before ++ old :: after →
      Same old.envelope new.envelope → old.uniqueKey = new.uniqueKey →
      ∀ job ∈ before ++ new :: after, Sourced call inner (job.envelope, job.uniqueKey) := by
    intro before after old new split same key job inside
    simp only [mem_append, mem_cons] at inside
    rcases inside with early | rfl | late
    · exact listed split job (mem_append_left _ early)
    · exact ⟨_, mem_append_left _ (mem_cards_job (by simp [split])), same, key⟩
    · exact listed split job (mem_append_right _ late)
  have buried : ∀ {before after : List StoredJob} {old : StoredJob}
      {error : String}, inner.jobs = before ++ old :: after →
      ∀ entry ∈ inner.dead ++ [deadEntry old error now],
        Sourced call inner (entry.letter.envelope, entry.uniqueKey) := by
    intro before after old error split entry inside
    rcases mem_append.mp inside with early | last
    · exact dead entry early
    · rw [mem_singleton.mp last]
      exact live old (by simp [split])
  have apart : ∀ {jobs : List StoredJob} {letters : List DeadEntry},
      (∀ job ∈ jobs, Sourced call inner (job.envelope, job.uniqueKey)) →
      (∀ entry ∈ letters, Sourced call inner (entry.letter.envelope, entry.uniqueKey)) →
      ∀ card ∈ jobs.map (fun job => (job.envelope, job.uniqueKey)) ++
        letters.map (fun entry => (entry.letter.envelope, entry.uniqueKey)),
        Sourced call inner card := by
    intro jobs letters live gone card inside
    rcases mem_append.mp inside with early | late
    · obtain ⟨job, held, rfl⟩ := mem_map.mp early
      exact live job held
    · obtain ⟨entry, held, rfl⟩ := mem_map.mp late
      exact gone entry held
  have appended : ∀ {new : StoredJob},
      Sourced call inner (new.envelope, new.uniqueKey) →
      ∀ job ∈ inner.jobs ++ [new], Sourced call inner (job.envelope, job.uniqueKey) := by
    intro new known job inside
    rcases mem_append.mp inside with early | last
    · exact live job early
    · rw [mem_singleton.mp last]
      exact known
  cases change with
  | store job _ _ new =>
    exact apart (appended ⟨_, mem_append_right _ (mem_map_of_mem new), .refl _, rfl⟩) dead
  | release aligned =>
    refine apart ?_ dead
    intro job inside
    obtain ⟨old, held, released⟩ := Lib.exists_left_of_mem aligned inside
    obtain ⟨envelope, key⟩ := released.same releases
    rw [envelope, key]
    exact live old held
  | lease split => exact apart (replaced split rfl rfl) dead
  | sweep error split => exact apart (listed split) (buried split)
  | ack split => exact apart (listed split) dead
  | retry delay split => exact apart (replaced split (same_bump _) rfl) dead
  | defer delay split => exact apart (replaced split rfl rfl) dead
  | fail error split => exact apart (listed split) (buried split)
  | extend split => exact apart (replaced split rfl rfl) dead
  | drop sublist => exact apart live fun entry inside => dead entry (sublist.subset inside)
  | revive split =>
    refine apart (appended (dead _ (by simp [split]))) ?_
    intro entry inside
    refine dead entry ?_
    rw [split]
    simp only [mem_append, mem_cons] at inside ⊢
    tauto
  | schedule => exact fun card => sourced_of_mem

/-- A call brings the cards of its new jobs and no others. -/
theorem Changes.sourced (releases : Releases release)
    (changes : Changes release config now mint call inner labels next) :
    ∀ card ∈ next.cards, Sourced call inner card := by
  induction changes with
  | refl => exact fun card => sourced_of_mem
  | head change _ ih =>
    intro card member
    obtain ⟨middle, inside, same, key⟩ := ih card member
    rcases mem_append.mp inside with stored | brought
    · obtain ⟨old, first, oldSame, oldKey⟩ := change.sourced releases middle stored
      exact ⟨old, first, oldSame.trans same, oldKey.trans key⟩
    · exact ⟨middle, mem_append_right _ brought, same, key⟩

theorem run_cards (config : Config) (inputs : List Input)
    (member : card ∈ ((machine config).run inputs).cards) :
    ∃ old ∈ newCards (newJobs inputs), Same old.1 card.1 ∧ old.2 = card.2 := by
  induction inputs using List.reverseRecOn generalizing card with
  | nil => cases member
  | append_singleton past input ih =>
    rw [Lib.Machine.run_concat] at member
    obtain ⟨labels, changes, _⟩ := perform_changes releaseLease config _ input
    obtain ⟨old, inside, same, key⟩ := changes.sourced releaseLease_releases card member
    rw [newJobs_concat, newCards, map_append]
    rcases mem_append.mp inside with stored | brought
    · obtain ⟨first, listed, firstSame, firstKey⟩ := ih stored
      exact ⟨first, mem_append_left _ listed, firstSame.trans same, firstKey.trans key⟩
    · exact ⟨old, mem_append_right _ brought, same, key⟩

end Cards

/-- The jobs of a submission with the ids they were answered with. -/
def answered : Call → Reply → List (NewJob × JobId)
  | .enqueue job, .ok (.jobId id) => [(job, id)]
  | .enqueueBatch jobs, .ok (.jobIds ids) => jobs.zip ids
  | _, _ => []

section Insertion

variable {now : Nat}

/-- The live job an insertion was answered with. -/
def Answers (inner : Inner) (job : NewJob) (id : JobId) : Prop :=
  ∃ stored ∈ inner.jobs, stored.id = id ∧ (id = job.id ∨ ∃ key, job.uniqueKey = some key ∧
      stored.uniqueKey = some key)

/-- What `enqueue_batch` does to a store: the jobs it keeps are appended, each
answered with its own id, and every answer is a live job. -/
structure Inserts (now : Nat) (inner final : Inner) (jobs : List NewJob)
    (ids : List JobId) (kept : List NewJob) : Prop where
  sublist : kept.Sublist jobs
  stored : final.jobs = inner.jobs ++ kept.map fun job => storedJob job now
  dead : final.dead = inner.dead
  own : ∀ job ∈ kept, (job, job.id) ∈ jobs.zip ids
  live : ∀ entry ∈ jobs.zip ids, Answers final entry.1 entry.2
  fresh : (jobs.map NewJob.id).Nodup → ∀ job, (job, job.id) ∈ jobs.zip ids →
    inner.isLive job.id = false → job ∈ kept

variable {inner : Inner}

theorem Answers.mono {final : Inner} {job : NewJob} {id : JobId} (answers : Answers inner job id)
    (more : ∀ stored ∈ inner.jobs, stored ∈ final.jobs) :
    Answers final job id := by
  obtain ⟨stored, member, rest⟩ := answers
  exact ⟨stored, more stored member, rest⟩

theorem insertOne_inserts {inner : Inner} (coherent : Coherent inner) (job : NewJob) :
    ∃ kept, Inserts now inner (insertOne inner job now).1 [job] [(insertOne inner job now).2] kept ∧
      Coherent (insertOne inner job now).1 := by
  rcases insertOne_cases inner job now with
    ⟨live, equal⟩ | ⟨holder, notLive, held, equal⟩ | ⟨notLive, keyFree, equal⟩
  · rw [equal]
    refine ⟨[], ⟨nil_sublist _, by simp, rfl, by rintro _ ⟨⟩, ?_, ?_⟩, coherent⟩
    · intro entry member
      rw [zip_cons_cons, zip_nil_left, mem_singleton] at member
      subst member
      obtain ⟨stored, inside, same⟩ := any_eq_true.mp live
      exact ⟨stored, inside, of_decide_eq_true same, Or.inl rfl⟩
    · intro _ other member notLive
      rw [zip_cons_cons, zip_nil_left, mem_singleton] at member
      cases member
      rw [live] at notLive
      cases notLive
  · rw [equal]
    obtain ⟨key, keyed, owner⟩ := Option.bind_eq_some_iff.mp held
    obtain ⟨stored, inside, same, storedKey⟩ := (coherent.keys key holder).mp owner
    refine ⟨[], ⟨nil_sublist _, by simp, rfl, by rintro _ ⟨⟩, ?_, ?_⟩, coherent⟩
    · intro entry member
      rw [zip_cons_cons, zip_nil_left, mem_singleton] at member
      subst member
      exact ⟨stored, inside, same, Or.inr ⟨key, keyed, storedKey⟩⟩
    · intro _ other member notLive
      rw [zip_cons_cons, zip_nil_left, mem_singleton] at member
      cases member
      exact absurd (mem_map.mpr ⟨stored, inside, same⟩) (isLive_eq_false.mp notLive)
  · rw [equal]
    refine ⟨[job], ⟨.refl _, by simp, rfl, by simp, ?_, by simp⟩,
      coherent.append (storedJob job now) notLive keyFree rfl rfl _⟩
    intro entry member
    rw [zip_cons_cons, zip_nil_left, mem_singleton] at member
    subst member
    exact ⟨storedJob job now, by simp, rfl, Or.inl rfl⟩

theorem insertAll_inserts {inner : Inner} (coherent : Coherent inner) (jobs : List NewJob) :
    ∃ kept, Inserts now inner (insertAll now inner jobs).1 jobs
      (insertAll now inner jobs).2 kept := by
  induction jobs generalizing inner with
  | nil =>
    exact ⟨[], .slnil, by simp [insertAll], rfl, by simp, by simp, by simp⟩
  | cons job rest ih =>
    obtain ⟨first, one, middle⟩ := @insertOne_inserts now inner coherent job
    obtain ⟨later, others⟩ := ih middle
    have stays : ∀ stored ∈ (insertOne inner job now).1.jobs,
        stored ∈ (insertAll now inner (job :: rest)).1.jobs := by
      intro stored member
      simp only [insertAll]
      rw [others.stored]
      exact mem_append_left _ member
    refine ⟨first ++ later, ?_, ?_, ?_, ?_, ?_, ?_⟩
    · have both := one.sublist.append others.sublist
      exact both
    · simp only [insertAll]
      rw [others.stored, one.stored, map_append, append_assoc]
    · simp only [insertAll]
      rw [others.dead, one.dead]
    · intro candidate member
      simp only [insertAll, zip_cons_cons]
      rcases mem_append.mp member with early | late
      · have listed := one.own candidate early
        simp only [zip_cons_cons, zip_nil_left, mem_singleton] at listed
        rw [listed]
        exact mem_cons_self ..
      · exact mem_cons_of_mem _ (others.own candidate late)
    · intro entry member
      simp only [insertAll, zip_cons_cons] at member
      rcases mem_cons.mp member with rfl | inside
      · refine (one.live (job, (insertOne inner job now).2) ?_).mono stays
        simp
      · exact others.live entry inside
    · intro distinct candidate member notLive
      rw [map_cons, nodup_cons] at distinct
      simp only [insertAll, zip_cons_cons] at member
      rcases mem_cons.mp member with same | inside
      · obtain ⟨rfl, own⟩ := Prod.mk.inj same
        refine mem_append_left _ (one.fresh (by simp) candidate ?_ notLive)
        rw [← own]
        simp
      · refine mem_append_right _ (others.fresh distinct.2 candidate inside ?_)
        -- The first job of the batch has another id.
        have apart : candidate.id ≠ job.id := by
          intro same
          exact distinct.1 (mem_map.mpr ⟨candidate, (of_mem_zip inside).1, same⟩)
        refine isLive_eq_false.mpr fun listed => ?_
        rw [one.stored, map_append] at listed
        rcases mem_append.mp listed with old | new
        · exact isLive_eq_false.mp notLive old
        · obtain ⟨_, known, same⟩ := mem_map.mp new
          obtain ⟨kept, held, rfl⟩ := mem_map.mp known
          have only := one.sublist.subset held
          rw [mem_singleton.mp only] at same
          exact apart same.symm

/-- `enqueue` and `enqueue_batch`. -/
def submits : Call → Bool
  | .enqueue _ | .enqueueBatch _ => true
  | _ => false

theorem perform_submission (config : Config) (coherent : Coherent inner) {input : Input}
    (submission : submits input.call = true) :
    ((∃ failure, (perform releaseLease config inner input).reply = .error failure) ∧
        (perform releaseLease config inner input).inner = inner) ∨
      ∃ ids kept, answered input.call (perform releaseLease config inner input).reply =
            input.call.newJobs.zip ids ∧
        Inserts input.now inner (perform releaseLease config inner input).inner
          input.call.newJobs ids kept := by
  obtain ⟨now, mint, call⟩ := input
  cases call with
  | enqueue job =>
    simp only [perform, enqueue]
    split
    · exact Or.inl ⟨⟨_, rfl⟩, rfl⟩
    · obtain ⟨kept, inserts, _⟩ := @insertOne_inserts now inner coherent job
      exact Or.inr ⟨_, kept, rfl, inserts⟩
  | enqueueBatch jobs =>
    simp only [perform, enqueueBatch]
    split
    · exact Or.inl ⟨⟨_, rfl⟩, rfl⟩
    · obtain ⟨kept, inserts⟩ := @insertAll_inserts now inner coherent jobs
      exact Or.inr ⟨_, kept, rfl, inserts⟩
  | _ => cases submission

theorem storedBy_inserts {call : Call} (submission : submits call = true)
    {now : Nat} {final : Inner} {jobs : List NewJob}
    {ids : List JobId} {kept : List NewJob}
    (inserts : Inserts now inner final jobs ids kept) :
    storedBy call inner final = kept.map NewJob.intoEnvelope := by
  have envelopes : (final.jobs.drop inner.jobs.length).map
      StoredJob.envelope = kept.map NewJob.intoEnvelope := by
    rw [inserts.stored, drop_left, map_map]
    rfl
  cases call with
  | enqueue => exact envelopes
  | enqueueBatch => exact envelopes
  | _ => cases submission

/-- Calls of a scheduler. -/
def schedules : Call → Bool
  | .enqueueScheduled .. | .removeSchedule _ => true
  | _ => false

/-- What a call stores was submitted by it and answered with its own id. -/
theorem perform_stored (config : Config) {inner : Inner} (coherent : Coherent inner) {input : Input}
    (unscheduled : schedules input.call = false) :
    ∀ envelope ∈ storedBy input.call inner (perform releaseLease config inner input).inner,
      ∃ job ∈ input.call.newJobs, envelope = job.intoEnvelope ∧ (job, job.id) ∈ answered input.call
          (perform releaseLease config inner input).reply := by
  intro envelope member
  cases submission : submits input.call with
  | false =>
    obtain ⟨now, mint, call⟩ := input
    cases call with
    | enqueue => cases submission
    | enqueueBatch => cases submission
    | enqueueScheduled => cases unscheduled
    | _ => cases member
  | true =>
    rcases perform_submission config coherent submission with
      ⟨_, same⟩ | ⟨ids, kept, answers, inserts⟩
    · rw [same, storedBy_self] at member
      cases member
    · rw [storedBy_inserts submission inserts] at member
      obtain ⟨job, held, rfl⟩ := mem_map.mp member
      refine ⟨job, inserts.sublist.subset held, rfl, ?_⟩
      rw [answers]
      exact inserts.own job held

/-- A job answered with its own id was stored, unless the id was live. -/
theorem perform_kept (config : Config) {inner : Inner} (coherent : Coherent inner) {input : Input}
    (distinct : (input.call.newJobs.map NewJob.id).Nodup) {job : NewJob}
    (own : (job, job.id) ∈ answered input.call (perform releaseLease config inner input).reply)
    (new : inner.isLive job.id = false) :
    job.intoEnvelope ∈ storedBy input.call inner (perform releaseLease config inner input).inner ∧
      storedJob job input.now ∈ (perform releaseLease config inner input).inner.jobs := by
  cases submission : submits input.call with
  | false =>
    obtain ⟨now, mint, call⟩ := input
    cases call with
    | enqueue => cases submission
    | enqueueBatch => cases submission
    | _ => cases own
  | true =>
    rcases perform_submission config coherent submission with
      ⟨⟨failure, refused⟩, _⟩ | ⟨ids, kept, answers, inserts⟩
    · rw [refused] at own
      obtain ⟨now, mint, call⟩ := input
      cases call with
      | enqueue => cases own
      | enqueueBatch => cases own
      | _ => cases submission
    · rw [answers] at own
      have held := inserts.fresh distinct job own new
      rw [storedBy_inserts submission inserts, inserts.stored]
      exact ⟨mem_map.mpr ⟨job, held, rfl⟩, mem_append_right _ (mem_map.mpr ⟨job, held, rfl⟩)⟩

/-! ## The ledgers of one more call -/

section Ledgers

variable (config : Config) (past : List Input) (input : Input)

theorem storedIn_concat : storedIn config (past ++ [input]) = storedIn config past ++
      storedBy input.call ((machine config).run past)
        (perform releaseLease config ((machine config).run past) input).inner := by
  simp [storedIn, performed]

theorem ackedIn_concat : ackedIn config (past ++ [input]) = ackedIn config past ++
      ackedBy ((machine config).run past) (input,
        (perform releaseLease config ((machine config).run past) input).reply) := by
  simp [ackedIn, performed]

/-- The envelopes of the jobs retried. -/
def retriedIn (inputs : List Input) : List JobEnvelope :=
  ((machine config).steps inputs).flatMap fun step =>
    retriedBy step.1 (step.2, (performed config step).reply)

theorem retriedIn_concat : retriedIn config (past ++ [input]) = retriedIn config past ++
      retriedBy ((machine config).run past) (input,
        (perform releaseLease config ((machine config).run past) input).reply) := by
  simp [retriedIn, performed]

/-- An accepted retry replaces one envelope; nothing else changes one. -/
theorem perform_contents (inner : Inner) :
    (perform releaseLease config inner input).inner.contents + retriedBy inner
          (input, (perform releaseLease config inner input).reply) ≤
      inner.contents + storedBy input.call inner (perform releaseLease config inner input).inner +
        (retriedBy inner (input, (perform releaseLease config inner
          input).reply)).map JobEnvelope.bump := by
  have balanced := performed_balanced config (inner, input)
  simp only [performed] at balanced
  rw [← balanced]
  exact add_le_add_left ((Multiset.le_add_right _ _).trans (Multiset.le_add_right _ _)) _

variable {config past} {later : List Input}

theorem ackedIn_mono {envelope : JobEnvelope} (longer : past <+: later)
    (member : envelope ∈ ackedIn config past) :
    envelope ∈ ackedIn config later := by
  obtain ⟨more, rfl⟩ := longer
  rw [ackedIn, Lib.Machine.steps_append, flatMap_append]
  exact mem_append_left _ member

theorem storedIn_mono {envelope : JobEnvelope} (longer : past <+: later)
    (member : envelope ∈ storedIn config past) :
    envelope ∈ storedIn config later := by
  obtain ⟨more, rfl⟩ := longer
  rw [storedIn, Lib.Machine.steps_append, flatMap_append]
  exact mem_append_left _ member

end Ledgers

theorem storedIn_ids (config : Config) (inputs : List Input) (fresh : FreshMints inputs)
    (unscheduled : ∀ input ∈ inputs, schedules input.call = false) :
    ((storedIn config inputs).map JobEnvelope.id).Sublist ((newJobs inputs).map NewJob.id) := by
  induction inputs using List.reverseRecOn with
  | nil => exact .slnil
  | append_singleton past input ih =>
    have earlier := freshMints_past past input fresh
    have coherent := run_coherent config past
    rw [storedIn_concat, newJobs_concat, map_append, map_append]
    refine (ih earlier fun other known =>
      unscheduled other (mem_append_left _ known)).append ?_
    cases submission : submits input.call with
    | false =>
      have scheduled := unscheduled input (by simp)
      obtain ⟨now, mint, call⟩ := input
      cases call with
      | enqueue => cases submission
      | enqueueBatch => cases submission
      | enqueueScheduled => cases scheduled
      | _ => exact nil_sublist _
    | true =>
      rcases perform_submission config coherent submission with
        ⟨_, same⟩ | ⟨ids, kept, _, inserts⟩
      · rw [same, storedBy_self]
        exact nil_sublist _
      · rw [storedBy_inserts submission inserts, map_map]
        exact inserts.sublist.map NewJob.id

end Insertion

end Worklane.Memory
