import Mathlib.Data.Multiset.UnionInter
import Worklane.Memory.Conservation

/-!
# Runs that do not reuse job ids

When no new job carries an id that was used before, live jobs and dead letters
never share an id, and every stored envelope is one that was submitted, up to
its attempts.  The bounds on the counters are kept along with that: they are
what keeps saturating arithmetic from being seen.
-/

namespace Worklane.Memory

open List

/-- What counts a counter of a job up: a delivery or an attempt. -/
def Label.counted : Label → Nat
  | .leased _ _ | .retried _ _ => 1
  | _ => 0

/-- Jobs moved to the dead letters. -/
def Label.deaths : Label → Nat
  | .swept _ | .failed _ _ => 1
  | _ => 0

/-- `good` is what is known of every envelope submitted, whatever its attempts,
`used` are the ids submitted so far, `served` bounds the deliveries and the
attempts of a job and `limit` the number of dead letters. -/
structure Sound (good : JobEnvelope → Prop) (used : List JobId)
    (served limit : Nat) (inner : Inner) : Prop where
  lasting : ∀ envelope, good envelope → good envelope.bump
  coherent : Coherent inner
  ids : (inner.contents.map JobEnvelope.id).Nodup
  used : ∀ envelope ∈ inner.contents, envelope.id ∈ used
  good : ∀ envelope ∈ inner.contents, good envelope
  attempts : ∀ envelope ∈ inner.contents, envelope.attempts ≤ served
  deliveries : ∀ job ∈ inner.jobs, job.deliveries ≤ served
  dead : inner.dead.length ≤ limit

section Sound

variable {good : JobEnvelope → Prop} {used : List JobId}
variable {served limit : Nat}
variable {inner next : Inner}

theorem Sound.mono (sound : Sound good used served limit inner)
    {used' : List JobId} {served' limit' : Nat}
    (moreIds : ∀ id ∈ used, id ∈ used') (moreServed : served ≤ served')
    (moreDead : limit ≤ limit') :
    Sound good used' served' limit' inner where
  lasting := sound.lasting
  coherent := sound.coherent
  ids := sound.ids
  used envelope member := moreIds _ (sound.used envelope member)
  good := sound.good
  attempts envelope member := Nat.le_trans (sound.attempts envelope member) moreServed
  deliveries job member := Nat.le_trans (sound.deliveries job member) moreServed
  dead := Nat.le_trans sound.dead moreDead

theorem sound_empty {good : JobEnvelope → Prop}
    (lasting : ∀ envelope, good envelope → good envelope.bump) :
    Sound good [] 0 0 Inner.empty where
  lasting := lasting
  coherent := tracked_empty.consistent.toCoherent
  ids := by simp [Inner.empty, Inner.contents]
  used := by simp [Inner.empty, Inner.contents]
  good := by simp [Inner.empty, Inner.contents]
  attempts := by simp [Inner.empty, Inner.contents]
  deliveries := by simp [Inner.empty]
  dead := Nat.le_refl 0

theorem mem_contents_job {job : StoredJob} (member : job ∈ inner.jobs) :
    job.envelope ∈ inner.contents :=
  Multiset.mem_add.mpr (Or.inl (mem_map_of_mem member))

theorem contents_ids (inner : Inner) : inner.contents.map JobEnvelope.id =
      (inner.jobs.map StoredJob.id ++ inner.dead.map DeadEntry.id : List JobId) := by
  rw [Inner.contents, Multiset.map_add, Multiset.map_coe, Multiset.map_coe, map_map, map_map]
  rfl

theorem Sound.nodup (sound : Sound good used served limit inner) :
    (inner.jobs.map StoredJob.id ++ inner.dead.map DeadEntry.id).Nodup := by
  have distinct := sound.ids
  rwa [contents_ids, Multiset.coe_nodup] at distinct

theorem Sound.apart (sound : Sound good used served limit inner)
    {job : StoredJob} (live : job ∈ inner.jobs) {entry : DeadEntry}
    (dead : entry ∈ inner.dead) : entry.id ≠ job.id := by
  intro same
  exact disjoint_of_nodup_append sound.nodup (mem_map_of_mem live) (mem_map.mpr ⟨entry, dead, same⟩)

end Sound

section Change

variable {good : JobEnvelope → Prop} {used : List JobId}
variable {served limit : Nat}
variable {release : StoredJob → StoredJob} {config : Config}
variable {now : Nat} {mint : ReservationReceipt} {call : Call}
variable {inner next : Inner} {label : Label}

theorem Change.retried_mem (change : Change release config now mint call inner label next) :
    ∀ envelope ∈ label.retriedEnvelopes, envelope ∈ inner.contents := by
  intro envelope member
  cases change with
  | retry delay split =>
    rw [Label.retriedEnvelopes, mem_singleton] at member
    rw [member]
    exact mem_contents_job (by simp [split])
  | _ => cases member

theorem Change.contents_le (releases : Releases release)
    (change : Change release config now mint call inner label next) :
    next.contents ≤ inner.contents + label.storedEnvelopes +
      label.retriedEnvelopes.map JobEnvelope.bump := by
  have balanced := change.balanced releases
  simp only [Balanced, flatMap_cons, flatMap_nil, append_nil] at balanced
  rw [← balanced]
  exact (Multiset.le_add_right _ _).trans
    ((Multiset.le_add_right _ _).trans (Multiset.le_add_right _ _))

theorem Change.ids_le (releases : Releases release)
    (change : Change release config now mint call inner label next) :
    next.contents.map JobEnvelope.id ≤ inner.contents.map JobEnvelope.id +
        label.storedEnvelopes.map JobEnvelope.id := by
  have balanced := congrArg (Multiset.map JobEnvelope.id) (change.balanced releases)
  simp only [flatMap_cons, flatMap_nil, append_nil,
    Multiset.map_add, Multiset.map_coe, map_map, Function.comp_def,
    JobEnvelope.bump_id] at balanced
  have cancelled := add_right_cancel balanced
  rw [← cancelled, add_assoc]
  exact Multiset.le_add_right _ _

theorem Change.deliveries_le (releases : Releases release)
    (change : Change release config now mint call inner label next)
    (bounded : ∀ job ∈ inner.jobs, job.deliveries ≤ served) :
    ∀ job ∈ next.jobs, job.deliveries ≤ served + label.counted := by
  have replaced : ∀ {before after : List StoredJob}
      {job job' : StoredJob}, inner.jobs = before ++ job :: after →
      job'.deliveries ≤ served + label.counted →
      ∀ other ∈ before ++ job' :: after, other.deliveries ≤ served + label.counted := by
    intro before after job job' split fits other member
    rw [split] at bounded
    simp only [mem_append, mem_cons] at bounded member
    rcases member with early | rfl | late
    · exact Nat.le_add_right_of_le (bounded other (Or.inl early))
    · exact fits
    · exact Nat.le_add_right_of_le (bounded other (Or.inr (Or.inr late)))
  have removed : ∀ {before after : List StoredJob} {job : StoredJob},
      inner.jobs = before ++ job :: after →
      ∀ other ∈ before ++ after, other.deliveries ≤ served + label.counted := by
    intro before after job split other member
    apply Nat.le_add_right_of_le
    apply bounded
    rw [split]
    simp only [mem_append, mem_cons] at member ⊢
    tauto
  have appended : ∀ {job : StoredJob}, job.deliveries = 0 → ∀ other ∈ inner.jobs ++ [job],
        other.deliveries ≤ served + label.counted := by
    intro job new other member
    rcases mem_append.mp member with old | last
    · exact Nat.le_add_right_of_le (bounded other old)
    · rw [mem_singleton.mp last, new]
      exact Nat.zero_le _
  have here : ∀ {before after : List StoredJob} {job : StoredJob},
      inner.jobs = before ++ job :: after → job.deliveries ≤ served :=
    fun split => bounded _ (by simp [split])
  cases change with
  | store job => exact appended rfl
  | release aligned =>
    intro job member
    obtain ⟨old, inside, same⟩ := Lib.exists_left_of_mem aligned member
    rcases same with rfl | ⟨_, rfl⟩
    · exact bounded job inside
    · rw [releases.deliveries]
      exact bounded old inside
  | lease split =>
    apply replaced split
    exact Nat.le_trans (Nat.min_le_left ..) (Nat.add_le_add_right (here split) 1)
  | sweep error split => exact removed split
  | ack split => exact removed split
  | retry delay split =>
    have old := here split
    exact replaced split (Nat.le_succ_of_le old)
  | defer delay split =>
    have old := here split
    exact replaced split old
  | fail error split => exact removed split
  | extend split =>
    have old := here split
    exact replaced split old
  | drop => exact bounded
  | revive => exact appended rfl
  | schedule => exact bounded

theorem Change.dead_le (change : Change release config now mint call inner label next) :
    next.dead.length ≤ inner.dead.length + label.deaths := by
  cases change with
  | sweep => simp [Label.deaths]
  | fail => simp [Label.deaths]
  | drop sublist => exact sublist.length_le
  | revive split =>
    rw [split]
    simp only [length_append, length_cons, Label.deaths]
    omega
  | _ => exact Nat.le_refl _

theorem Change.known (releases : Releases release)
    (change : Change release config now mint call inner label next)
    (property : JobEnvelope → Prop)
    (old : ∀ envelope ∈ inner.contents, property envelope)
    (new : ∀ envelope ∈ label.storedEnvelopes, property envelope)
    (bumped : ∀ envelope ∈ inner.contents,
      envelope ∈ label.retriedEnvelopes → property envelope.bump) :
    ∀ envelope ∈ next.contents, property envelope := by
  intro envelope member
  have listed := Multiset.mem_of_le (change.contents_le releases) member
  rw [Multiset.mem_add, Multiset.mem_add] at listed
  rcases listed with (was | stored) | retried
  · exact old envelope was
  · exact new envelope stored
  · obtain ⟨before, inside, rfl⟩ := mem_map.mp (Multiset.mem_coe.mp retried)
    exact bumped before (change.retried_mem before inside) inside

/-- One change keeps the bounds, as they have to grow with it. -/
theorem Change.sound (releases : Releases release)
    (change : Change release config now mint call inner label next)
    (fresh : ∀ envelope ∈ label.storedEnvelopes,
      envelope.id ∉ used ∧ good envelope ∧ envelope.attempts = 0)
    (sound : Sound good used served limit inner) :
    Sound good (used ++ label.storedEnvelopes.map JobEnvelope.id)
      (served + label.counted) (limit + label.deaths) next where
  lasting := sound.lasting
  coherent := change.coherent releases sound.coherent
  ids := by
    have single : (label.storedEnvelopes.map JobEnvelope.id).Nodup := by
      cases label <;> simp [Label.storedEnvelopes]
    apply Multiset.nodup_of_le (change.ids_le releases)
    refine Multiset.nodup_add.mpr ⟨sound.ids, Multiset.coe_nodup.mpr single, ?_⟩
    apply Multiset.disjoint_left.mpr
    intro id old new
    obtain ⟨was, inside, rfl⟩ := Multiset.mem_map.mp old
    obtain ⟨stored, listed, same⟩ := mem_map.mp (Multiset.mem_coe.mp new)
    apply (fresh stored listed).1
    rw [same]
    exact sound.used was inside
  used := by
    apply change.known releases fun envelope => envelope.id ∈
      used ++ label.storedEnvelopes.map JobEnvelope.id
    · intro envelope member
      exact mem_append_left _ (sound.used envelope member)
    · intro envelope member
      exact mem_append_right _ (mem_map_of_mem member)
    · intro envelope member _
      exact mem_append_left _ (sound.used envelope member)
  good := by
    apply change.known releases good sound.good
    · exact fun envelope member => (fresh envelope member).2.1
    · exact fun envelope member _ =>
      sound.lasting envelope (sound.good envelope member)
  attempts := by
    apply change.known releases fun envelope =>
      envelope.attempts ≤ served + label.counted
    · exact fun envelope member =>
      Nat.le_add_right_of_le (sound.attempts envelope member)
    · intro envelope member
      rw [(fresh envelope member).2.2]
      exact Nat.zero_le _
    · intro envelope member retried
      have counted : label.counted = 1 := by
        cases label <;> first | rfl | cases retried
      rw [counted]
      exact Nat.le_trans (Nat.min_le_left ..)
        (Nat.add_le_add_right (sound.attempts envelope member) 1)
  deliveries := change.deliveries_le releases sound.deliveries
  dead := Nat.le_trans change.dead_le (Nat.add_le_add_right sound.dead _)

theorem Sound.kept (sound : Sound good used served limit inner) (config : Config) (input : Input)
    (change : Change releaseLease config input.now input.mint input.call inner label next)
    (nothing : label.storedEnvelopes = []) :
    Sound good used (served + label.counted) (limit + label.deaths) next := by
  have kept := change.sound releaseLease_releases (by simp [nothing]) sound
  simpa [nothing] using kept

theorem Sound.buried (sound : Sound good used served limit inner) (config : Config) (input : Input)
    {before after : List StoredJob} {job : StoredJob} {error : String}
    (change : Change releaseLease config input.now input.mint input.call inner label
      { inner with
        jobs := before ++ after
        unique := freeKey inner.unique job.uniqueKey
        dead := inner.dead ++ [deadEntry job error input.now] })
    (split : inner.jobs = before ++ job :: after)
    (nothing : label.storedEnvelopes = []) (idle : label.counted = 0)
    (deaths : label.deaths = 1) :
    Sound good used served (limit + 1)
      (deadLetterAt config.retention inner before.length error input.now).1 := by
  have moved := sound.kept config input change nothing
  rw [deaths, idle] at moved
  obtain ⟨sublist, parts⟩ := pruneDead_spec config.retention
    job.envelope.lane input.now (inner.dead ++ [deadEntry job error input.now])
  rw [deadLetterAt_split _ split]
  exact moved.kept config input (.drop sublist parts) rfl

end Change

/-! ## No lease is over -/

section Running

variable {now : Nat} {inner : Inner}

/-- No lease of a live job is over. -/
def Running (now : Nat) (inner : Inner) : Prop :=
  ∀ job ∈ inner.jobs, expired now job = false

theorem running_releaseExpired {release : StoredJob → StoredJob}
    (releases : Releases release) (now : Nat) (inner : Inner) :
    Running now { inner with jobs := releaseExpired release now inner.jobs } := by
  intro job member
  obtain ⟨old, _, rfl⟩ := mem_map.mp member
  by_cases exceeded : expired now old = true
  · rw [if_pos exceeded, expired, releases.leasedUntil]
    rfl
  · rw [if_neg exceeded]
    exact Bool.eq_false_iff.mpr exceeded

theorem Running.deadLetter (running : Running now inner)
    {before after : List StoredJob} {job : StoredJob}
    (split : inner.jobs = before ++ job :: after)
    (retention : RetentionPolicy) (error : String) :
    Running now (deadLetterAt retention inner before.length error now).1 := by
  rw [deadLetterAt_split _ split]
  intro other member
  apply running
  rw [split]
  simp only [mem_append, mem_cons] at member ⊢
  tauto

end Running

/-! ## Payloads -/

section Payloads

variable {serde : SerdeJson}

theorem checkPayloadSize_ok {job : NewJob}
    (encodes : ∃ blob, encodeEnvelope serde job.intoEnvelope = .ok blob) :
    checkPayloadSize job = .ok () := by
  obtain ⟨blob, encoded⟩ := encodes
  have fits := payload_le_of_encode encoded
  exact if_neg (Nat.not_lt.mpr fits)

theorem checkPayloadSizes_ok {jobs : List NewJob} (encodes : ∀ job ∈ jobs,
      ∃ blob, encodeEnvelope serde job.intoEnvelope = .ok blob) :
    jobs.forM checkPayloadSize = .ok () := by
  induction jobs with
  | nil => rfl
  | cons job rest ih =>
    rw [List.forM, checkPayloadSize_ok (encodes job (mem_cons_self ..))]
    exact ih fun other member =>
      encodes other (mem_cons_of_mem _ member)

end Payloads

end Worklane.Memory
