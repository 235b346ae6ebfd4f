import Mathlib.Data.List.Basic
import Mathlib.Data.List.Induction
import Mathlib.Data.List.Nodup
import Mathlib.Logic.Function.Basic
import Mathlib.Tactic.Common

/-!
# Leases with receipts

A table of leases: each job is free or held under a receipt until an end
time.  A step may let leases lapse whose end has passed, and does at most one
of three things: grant a free job under a fresh receipt, settle a receipt that
is still current (the job becomes free), or renew one.

The log of a run determines the lease end of every receipt.  From it follow
the two guarantees a lease is for: a receipt is settled at most once and only
while it is current, and nobody else is granted the job before its lease end.
-/

namespace Lib.Lease

open List

universe u v

variable {Job : Type u} {Receipt : Type v}

inductive Action (Job : Type u) (Receipt : Type v) where
  | idle
  | grant (job : Job) (receipt : Receipt)
  | settle (receipt : Receipt)
  | renew (receipt : Receipt)
  deriving DecidableEq

/-- The action as a list, nothing for `idle`. -/
def Action.active : Action Job Receipt → List (Action Job Receipt)
  | .idle => []
  | action => [action]

theorem Action.length_active_le (action : Action Job Receipt) : action.active.length ≤ 1 := by
  cases action <;> simp [active]

theorem Action.mem_active {action other : Action Job Receipt}
    (member : other ∈ action.active) : action = other := by
  cases action <;> simp_all [active]

theorem Action.active_eq_cons {action taken : Action Job Receipt} {rest : List (Action Job Receipt)}
    (equal : taken :: rest = action.active) :
    taken = action ∧ rest = [] := by
  cases action <;> simp_all [active]

/-- Who holds which job, and until when. -/
abbrev Holders (Job : Type u) (Receipt : Type v) :=
  Job → Option (Receipt × Nat)

/-- Leases may disappear once their end has passed. -/
def Lapses (now : Nat) (holders holders' : Holders Job Receipt) : Prop :=
  ∀ job, holders' job = holders job ∨ (holders' job = none ∧
      ∃ receipt endsAt, holders job = some (receipt, endsAt) ∧ endsAt ≤ now)

theorem Lapses.refl (now : Nat) (holders : Holders Job Receipt) :
    Lapses now holders holders :=
  fun _ => Or.inl rfl

theorem Lapses.trans {now : Nat} {first second third : Holders Job Receipt}
    (left : Lapses now first second) (right : Lapses now second third) :
    Lapses now first third := by
  intro job
  rcases right job with kept | ⟨gone, receipt, endsAt, held, exceeded⟩
  · rw [kept]
    exact left job
  · refine Or.inr ⟨gone, receipt, endsAt, ?_, exceeded⟩
    rcases left job with same | ⟨none, _⟩
    · rw [← same]
      exact held
    · rw [none] at held
      cases held

theorem Lapses.of_some {now : Nat} {holders holders' : Holders Job Receipt}
    (lapses : Lapses now holders holders') {job : Job}
    {lease : Receipt × Nat} (held : holders' job = some lease) :
    holders job = some lease := by
  rcases lapses job with same | ⟨gone, _⟩
  · rw [← same]
    exact held
  · rw [gone] at held
    cases held

section Steps

variable [DecidableEq Job] (deadline : Nat → Nat) (now : Nat)

inductive Act : Holders Job Receipt → Action Job Receipt → Holders Job Receipt → Prop
  | idle (holders : Holders Job Receipt) : Act holders .idle holders
  | grant {holders : Holders Job Receipt} {job : Job} (receipt : Receipt)
      (free : holders job = none) :
      Act holders (.grant job receipt) (Function.update holders job (some (receipt, deadline now)))
  | settle {holders : Holders Job Receipt} {job : Job} {receipt : Receipt} {endsAt : Nat}
      (held : holders job = some (receipt, endsAt))
      (current : now < endsAt) :
      Act holders (.settle receipt) (Function.update holders job none)
  | renew {holders : Holders Job Receipt} {job : Job} {receipt : Receipt} {endsAt : Nat}
      (held : holders job = some (receipt, endsAt))
      (current : now < endsAt) :
      Act holders (.renew receipt) (Function.update holders job (some (receipt, deadline now)))

/-- One step: leases lapse, one action, leases lapse. -/
def Step (holders : Holders Job Receipt) (action : Action Job Receipt)
    (holders' : Holders Job Receipt) : Prop :=
  ∃ before after, Lapses now holders before ∧
    Act deadline now before action after ∧ Lapses now after holders'

/-- A log entry: the time of a step and its action. -/
abbrev Log (Job : Type u) (Receipt : Type v) :=
  List (Nat × Action Job Receipt)

/-- `receipt` was granted in `log`. -/
def Granted (log : Log Job Receipt) (receipt : Receipt) : Prop :=
  ∃ time job, (time, Action.grant job receipt) ∈ log

/-- Runs from the empty table, every granted receipt being fresh. -/
inductive Runs : Log Job Receipt → Holders Job Receipt → Prop
  | start : Runs [] (fun _ => none)
  | next {log : Log Job Receipt} {holders holders' : Holders Job Receipt}
      {now : Nat} {action : Action Job Receipt} :
      Runs log holders →
      Step deadline now holders action holders' →
      (∀ job receipt, action = .grant job receipt → ¬ Granted log receipt) →
      Runs (log ++ [(now, action)]) holders'

end Steps

section Compose

variable [DecidableEq Job] {deadline : Nat → Nat} {now : Nat}

theorem Act.step {holders holders' : Holders Job Receipt} {action : Action Job Receipt}
    (act : Act deadline now holders action holders') :
    Step deadline now holders action holders' :=
  ⟨holders, holders', Lapses.refl now holders, act, Lapses.refl now holders'⟩

theorem step_idle_iff {holders holders' : Holders Job Receipt} :
    Step deadline now holders .idle holders' ↔ Lapses now holders holders' := by
  constructor
  · rintro ⟨before, after, first, act, second⟩
    cases act
    exact first.trans second
  · intro lapses
    exact ⟨holders', holders', lapses, .idle _, Lapses.refl now _⟩

theorem Step.idle_trans {first second third : Holders Job Receipt} {action : Action Job Receipt}
    (lapses : Lapses now first second)
    (step : Step deadline now second action third) :
    Step deadline now first action third := by
  obtain ⟨before, after, left, act, right⟩ := step
  exact ⟨before, after, lapses.trans left, act, right⟩

theorem Step.trans_idle {first second third : Holders Job Receipt} {action : Action Job Receipt}
    (step : Step deadline now first action second)
    (lapses : Lapses now second third) :
    Step deadline now first action third := by
  obtain ⟨before, after, left, act, right⟩ := step
  exact ⟨before, after, left, act, right.trans lapses⟩

end Compose

/-! ## The lease end a log determines -/

section LeaseEnd

variable [DecidableEq Receipt] (deadline : Nat → Nat)

/-- The lease end an entry gives to `receipt`, if any. -/
def entryEnd (receipt : Receipt) (entry : Nat × Action Job Receipt) :
    Option Nat :=
  match entry.2 with
  | .grant _ granted =>
    if granted = receipt then some (deadline entry.1) else none
  | .renew renewed =>
    if renewed = receipt then some (deadline entry.1) else none
  | _ => none

/-- The lease end of `receipt` after `log`: the last grant or renewal. -/
def leaseEnd (log : Log Job Receipt) (receipt : Receipt) : Option Nat :=
  (log.filterMap (entryEnd deadline receipt)).getLast?

variable {deadline}

theorem leaseEnd_concat (log : Log Job Receipt) (receipt : Receipt)
    (entry : Nat × Action Job Receipt) :
    leaseEnd deadline (log ++ [entry]) receipt = (entryEnd deadline receipt entry).or
        (leaseEnd deadline log receipt) := by
  unfold leaseEnd
  rw [filterMap_append]
  cases ended : entryEnd deadline receipt entry with
  | none => simp [ended]
  | some time => simp [ended]

theorem exists_leaseEnd_of_granted (deadline : Nat → Nat)
    {log : Log Job Receipt} {receipt : Receipt} (granted : Granted log receipt) :
    ∃ endsAt, leaseEnd deadline log receipt = some endsAt := by
  obtain ⟨time, job, member⟩ := granted
  apply Option.isSome_iff_exists.mp
  rw [leaseEnd, getLast?_isSome]
  apply ne_nil_of_mem (a := deadline time)
  exact mem_filterMap.mpr ⟨_, member, by simp [entryEnd]⟩

end LeaseEnd

/-! ## What a held lease says about the log -/

/-- `log` granted `job` under `receipt`, and has not granted the job again
nor settled the receipt since. -/
structure Standing (log : Log Job Receipt) (job : Job) (receipt : Receipt) : Prop where
  granted : ∃ before time after, log = before ++ (time, Action.grant job receipt) :: after ∧
      ∀ entry ∈ after, ∀ other, entry.2 ≠ .grant job other
  unsettled : ∀ time, (time, Action.settle receipt) ∉ log

theorem Standing.concat {log : Log Job Receipt} {job : Job}
    {receipt : Receipt} (standing : Standing log job receipt)
    {entry : Nat × Action Job Receipt}
    (notGrant : ∀ other, entry.2 ≠ .grant job other)
    (notSettle : entry.2 ≠ .settle receipt) :
    Standing (log ++ [entry]) job receipt := by
  obtain ⟨⟨before, time, after, split, later⟩, unsettled⟩ := standing
  refine ⟨⟨before, time, after ++ [entry], by simp [split], ?_⟩, ?_⟩
  · intro member inside other
    rcases mem_append.mp inside with old | new
    · exact later member old other
    · rw [mem_singleton.mp new]
      exact notGrant other
  · intro settledAt inside
    rcases mem_append.mp inside with old | new
    · exact unsettled settledAt old
    · have equal := mem_singleton.mp new
      exact notSettle (by rw [← equal])

theorem Granted.concat {log : Log Job Receipt} {receipt : Receipt}
    (granted : Granted log receipt) (entry : Nat × Action Job Receipt) :
    Granted (log ++ [entry]) receipt := by
  obtain ⟨time, job, member⟩ := granted
  exact ⟨time, job, mem_append_left _ member⟩

section Faithful

variable [DecidableEq Receipt] {deadline : Nat → Nat}

/-- The table reflects the log. -/
structure Faithful (deadline : Nat → Nat) (log : Log Job Receipt)
    (holders : Holders Job Receipt) : Prop where
  standing : ∀ job receipt endsAt, holders job = some (receipt, endsAt) → Standing log job receipt
  leaseEnd : ∀ job receipt endsAt, holders job = some (receipt, endsAt) →
      leaseEnd deadline log receipt = some endsAt
  settled : ∀ time receipt, (time, Action.settle receipt) ∈ log → Granted log receipt
  unique : ∀ job other receipt endsAt otherEnd, holders job = some (receipt, endsAt) →
      holders other = some (receipt, otherEnd) → job = other

theorem Faithful.start : Faithful deadline ([] : Log Job Receipt) (fun _ => none) where
  standing _ _ _ held := by cases held
  leaseEnd _ _ _ held := by cases held
  settled _ _ member := by cases member
  unique _ _ _ _ _ held := by cases held

variable {log : Log Job Receipt} {holders : Holders Job Receipt}

theorem Faithful.granted (faithful : Faithful deadline log holders)
    {job : Job} {receipt : Receipt} {endsAt : Nat}
    (held : holders job = some (receipt, endsAt)) :
    Granted log receipt := by
  obtain ⟨before, time, after, split, _⟩ := (faithful.standing job receipt endsAt held).granted
  exact ⟨time, job, by rw [split]; simp⟩

theorem Faithful.lapses {now : Nat} {holders' : Holders Job Receipt}
    (faithful : Faithful deadline log holders)
    (lapses : Lapses now holders holders') :
    Faithful deadline log holders' where
  standing job receipt endsAt held := faithful.standing job receipt endsAt (lapses.of_some held)
  leaseEnd job receipt endsAt held := faithful.leaseEnd job receipt endsAt (lapses.of_some held)
  settled := faithful.settled
  unique job other receipt endsAt otherEnd held otherHeld :=
    faithful.unique job other receipt endsAt otherEnd
      (lapses.of_some held) (lapses.of_some otherHeld)

variable {action : Action Job Receipt}

/-- A lease of a job the action does not concern stays faithful when the
action is logged. -/
theorem Faithful.untouched (faithful : Faithful deadline log holders)
    {job : Job} {receipt : Receipt} {endsAt : Nat}
    (held : holders job = some (receipt, endsAt))
    {now : Nat}
    (notGrant : ∀ other, action ≠ .grant job other)
    (notSettle : action ≠ .settle receipt)
    (notEnd : entryEnd deadline receipt (now, action) = none) :
    Standing (log ++ [(now, action)]) job receipt ∧
      Lib.Lease.leaseEnd deadline (log ++ [(now, action)]) receipt =
        some endsAt := by
  refine ⟨(faithful.standing job receipt endsAt held).concat notGrant notSettle, ?_⟩
  rw [leaseEnd_concat, notEnd, Option.none_or]
  exact faithful.leaseEnd job receipt endsAt held

variable [DecidableEq Job]

theorem Faithful.update (faithful : Faithful deadline log holders) {now : Nat} {job : Job}
    {lease : Option (Receipt × Nat)}
    (others : ∀ other, other ≠ job → ∀ receipt endsAt, holders other = some (receipt, endsAt) →
        (∀ granted, action ≠ .grant other granted) ∧
        action ≠ .settle receipt ∧
        entryEnd deadline receipt (now, action) = none)
    (own : ∀ receipt endsAt, lease = some (receipt, endsAt) →
      Standing (log ++ [(now, action)]) job receipt ∧
      Lib.Lease.leaseEnd deadline (log ++ [(now, action)]) receipt = some endsAt ∧
      ∀ other otherEnd, holders other = some (receipt, otherEnd) → other = job)
    (settled : ∀ receipt, action = .settle receipt → Granted log receipt) :
    Faithful deadline (log ++ [(now, action)]) (Function.update holders job lease) := by
  -- A lease after the update is the new one or an old one of another job.
  have origin : ∀ other receipt endsAt,
      Function.update holders job lease other = some (receipt, endsAt) →
        (other = job ∧ lease = some (receipt, endsAt)) ∨
          (other ≠ job ∧ holders other = some (receipt, endsAt)) := by
    intro other receipt endsAt held
    by_cases same : other = job
    · subst same
      rw [Function.update_self] at held
      exact Or.inl ⟨rfl, held⟩
    · rw [Function.update_of_ne same] at held
      exact Or.inr ⟨same, held⟩
  have valid : ∀ other receipt endsAt,
      Function.update holders job lease other = some (receipt, endsAt) →
        Standing (log ++ [(now, action)]) other receipt ∧
          Lib.Lease.leaseEnd deadline (log ++ [(now, action)]) receipt =
            some endsAt := by
    intro other receipt endsAt held
    rcases origin other receipt endsAt held with
      ⟨rfl, new⟩ | ⟨different, old⟩
    · exact ⟨(own receipt endsAt new).1, (own receipt endsAt new).2.1⟩
    · obtain ⟨notGrant, notSettle, notEnd⟩ := others other different receipt endsAt old
      exact faithful.untouched old notGrant notSettle notEnd
  refine ⟨fun other receipt endsAt held => (valid other receipt endsAt
    held).1, fun other receipt endsAt held => (valid other receipt endsAt
    held).2, ?_, ?_⟩
  · intro time receipt member
    rcases mem_append.mp member with old | new
    · exact (faithful.settled time receipt old).concat _
    · have equal := mem_singleton.mp new
      have isSettle : action = .settle receipt := (congrArg Prod.snd equal).symm
      exact (settled receipt isSettle).concat _
  · intro first second receipt firstEnd secondEnd firstHeld secondHeld
    rcases origin first receipt firstEnd firstHeld with
      ⟨rfl, firstNew⟩ | ⟨_, firstOld⟩ <;>
    rcases origin second receipt secondEnd secondHeld with
      ⟨rfl, secondNew⟩ | ⟨_, secondOld⟩
    · rfl
    · exact ((own receipt firstEnd firstNew).2.2 second secondEnd secondOld).symm
    · exact (own receipt secondEnd secondNew).2.2 first firstEnd firstOld
    · exact faithful.unique first second receipt firstEnd secondEnd firstOld secondOld

theorem Faithful.act {now : Nat} {holders' : Holders Job Receipt}
    (faithful : Faithful deadline log holders)
    (act : Act deadline now holders action holders')
    (fresh : ∀ job receipt, action = .grant job receipt → ¬ Granted log receipt) :
    Faithful deadline (log ++ [(now, action)]) holders' := by
  -- A receipt held by another job differs from the one acted on.
  have differs : ∀ {job other : Job} {receipt otherReceipt : Receipt}
      {endsAt otherEnd : Nat}, other ≠ job →
      holders job = some (receipt, endsAt) →
      holders other = some (otherReceipt, otherEnd) →
      receipt ≠ otherReceipt := by
    rintro job other receipt _ endsAt otherEnd different held otherHeld rfl
    exact different (faithful.unique _ _ _ _ _ otherHeld held)
  cases act with
  | idle =>
    have untouched : ∀ job receipt endsAt, holders job = some (receipt, endsAt) →
          Standing (log ++ [(now, .idle)]) job receipt ∧
            Lib.Lease.leaseEnd deadline (log ++ [(now, .idle)]) receipt = some endsAt := by
      intro job receipt endsAt held
      exact faithful.untouched held (fun _ => nofun) nofun rfl
    refine ⟨fun job receipt endsAt held => (untouched job receipt endsAt
      held).1, fun job receipt endsAt held => (untouched job receipt
      endsAt held).2, ?_, faithful.unique⟩
    intro time receipt member
    have old : (time, Action.settle receipt) ∈ log := by
      simpa using member
    exact (faithful.settled time receipt old).concat _
  | @grant job receipt free =>
    have new := fresh job receipt rfl
    apply faithful.update
    · intro other different otherReceipt endsAt held
      have distinct : receipt ≠ otherReceipt := by
        rintro rfl
        exact new (faithful.granted held)
      refine ⟨?_, nofun, by simp [entryEnd, distinct]⟩
      intro granted equal
      cases equal
      exact different rfl
    · intro own endsAt equal
      cases equal
      refine ⟨⟨⟨log, now, [], rfl, by simp⟩, ?_⟩, ?_, ?_⟩
      · intro time member
        have old : (time, Action.settle receipt) ∈ log := by
          simpa using member
        exact new (faithful.settled time receipt old)
      · rw [leaseEnd_concat]
        simp [entryEnd]
      · intro other otherEnd held
        exact absurd (faithful.granted held) new
    · exact nofun
  | @settle job receipt endsAt held current =>
    apply faithful.update
    · intro other different otherReceipt otherEnd otherHeld
      refine ⟨fun _ => nofun, ?_, rfl⟩
      intro equal
      exact differs different held otherHeld (Action.settle.inj equal)
    · exact nofun
    · intro settled equal
      rw [← Action.settle.inj equal]
      exact faithful.granted held
  | @renew job receipt endsAt held current =>
    apply faithful.update
    · intro other different otherReceipt otherEnd otherHeld
      refine ⟨fun _ => nofun, nofun, ?_⟩
      simp [entryEnd, differs different held otherHeld]
    · intro own ownEnd equal
      cases equal
      refine ⟨(faithful.standing job receipt endsAt held).concat (fun _ => nofun) nofun, ?_, ?_⟩
      · rw [leaseEnd_concat]
        simp [entryEnd]
      · intro other otherEnd otherHeld
        exact faithful.unique _ _ _ _ _ otherHeld held
    · exact nofun

theorem Runs.faithful (runs : Runs deadline log holders) :
    Faithful deadline log holders := by
  induction runs with
  | start => exact Faithful.start
  | next _ step fresh ih =>
    obtain ⟨before, after, first, act, second⟩ := step
    exact ((ih.lapses first).act act fresh).lapses second

end Faithful

/-! ## Tables kept as lists of records -/

section Table

variable {Record : Type*} [DecidableEq Job]
variable (key : Record → Job) (lease : Record → Option (Receipt × Nat))

/-- The leases of a list of records: the record of a job carries its lease. -/
def table (records : List Record) : Holders Job Receipt :=
  fun job => (records.find? fun record => key record = job).bind lease

variable {key lease}

variable {records : List Record}

theorem table_of_not_mem {job : Job}
    (absent : job ∉ records.map key) : table key lease records job = none := by
  have missed : (records.find? fun record => key record = job) = none := by
    rw [find?_eq_none]
    intro record member found
    apply absent
    rw [← of_decide_eq_true found]
    exact mem_map_of_mem member
  rw [table, missed, Option.bind_none]

theorem table_append (first second : List Record) (job : Job) :
    table key lease (first ++ second) job = if job ∈ first.map key then table key lease first job
      else table key lease second job := by
  unfold table
  rw [find?_append]
  split
  · next inside =>
    obtain ⟨record, member, rfl⟩ := mem_map.mp inside
    have found : (first.find? fun other => key other = key record).isSome := by
      rw [find?_isSome]
      exact ⟨record, member, by simp⟩
    rw [Option.or_of_isSome found]
  · next outside =>
    have missed : (first.find? fun record => key record = job) = none := by
      rw [find?_eq_none]
      intro record member found
      apply outside
      rw [← of_decide_eq_true found]
      exact mem_map_of_mem member
    rw [missed, Option.none_or]

theorem table_cons (record : Record) (records : List Record) (job : Job) :
    table key lease (record :: records) job = if job = key record then lease record
      else table key lease records job := by
  unfold table
  by_cases same : job = key record
  · subst same
    simp
  · rw [if_neg same, find?_cons_of_neg]
    simpa using Ne.symm same

variable {before : List Record} {after : List Record} {record : Record}

theorem table_split (distinct : ((before ++ record :: after).map key).Nodup) :
    table key lease (before ++ record :: after) (key record) =
      lease record := by
  rw [map_append, map_cons] at distinct
  have outside : key record ∉ before.map key := by
    intro inside
    exact disjoint_of_nodup_append distinct inside (by simp)
  rw [table_append, if_neg outside, table_cons, if_pos rfl]

theorem table_replace {record' : Record} (distinct : ((before ++ record :: after).map key).Nodup)
    (same : key record' = key record) :
    table key lease (before ++ record' :: after) =
      Function.update (table key lease (before ++ record :: after))
        (key record) (lease record') := by
  have distinct' : ((before ++ record' :: after).map key).Nodup := by
    simpa [same] using distinct
  funext job
  by_cases own : job = key record
  · subst own
    rw [Function.update_self, ← same]
    exact table_split distinct'
  · rw [Function.update_of_ne own]
    simp only [table_append, table_cons, same, own, if_false]

theorem table_remove (distinct : ((before ++ record :: after).map key).Nodup) :
    table key lease (before ++ after) =
      Function.update (table key lease (before ++ record :: after)) (key record) none := by
  funext job
  by_cases own : job = key record
  · subst own
    rw [Function.update_self]
    apply table_of_not_mem
    rw [map_append, map_cons] at distinct
    rw [map_append]
    exact (nodup_middle.mp distinct).notMem
  · rw [Function.update_of_ne own]
    simp only [table_append, table_cons, own, if_false]

theorem table_concat (absent : key record ∉ records.map key) :
    table key lease (records ++ [record]) = Function.update (table key lease records) (key record)
        (lease record) := by
  funext job
  by_cases own : job = key record
  · subst own
    rw [Function.update_self, table_append, if_neg absent, table_cons, if_pos rfl]
  · rw [Function.update_of_ne own, table_append, table_cons, if_neg own]
    split
    · rfl
    · next outside => exact (table_of_not_mem outside).symm

theorem table_lapses {now : Nat} {records' : List Record}
    (aligned : List.Forall₂ (fun record record' =>
      key record' = key record ∧ (lease record' = lease record ∨
          (lease record' = none ∧ ∃ receipt endsAt,
            lease record = some (receipt, endsAt) ∧ endsAt ≤ now)))
      records records') :
    Lapses now (table key lease records) (table key lease records') := by
  induction aligned with
  | nil => exact Lapses.refl now _
  | cons matched _ ih =>
    intro job
    rw [table_cons, table_cons, matched.1]
    split
    · exact matched.2
    · exact ih job

end Table

/-! ## The guarantees -/

section Guarantees

variable [DecidableEq Job] {deadline : Nat → Nat}

variable {log : Log Job Receipt} {holders' : Holders Job Receipt}

theorem Runs.last {now : Nat} {action : Action Job Receipt}
    (runs : Runs deadline (log ++ [(now, action)]) holders') :
    ∃ holders, Runs deadline log holders ∧ Step deadline now holders action holders' ∧
      ∀ job receipt, action = .grant job receipt → ¬ Granted log receipt := by
  generalize extended : log ++ [(now, action)] = whole at runs
  cases runs with
  | start => simp at extended
  | next earlier step fresh =>
    obtain ⟨rfl, equal⟩ := append_inj' extended rfl
    cases equal
    exact ⟨_, earlier, step, fresh⟩

variable {holders : Holders Job Receipt}

theorem Runs.shorten {first second : Log Job Receipt}
    (runs : Runs deadline (first ++ second) holders) :
    ∃ earlier, Runs deadline first earlier := by
  induction second using List.reverseRecOn generalizing holders with
  | nil => exact ⟨holders, by simpa using runs⟩
  | append_singleton rest entry ih =>
    rw [← append_assoc] at runs
    obtain ⟨earlier, shorter, _⟩ := Runs.last runs
    exact ih shorter

variable [DecidableEq Receipt]

/-- A receipt that is settled or renewed stands for a job: granted under it,
not granted again, never settled, and its lease end is in the future. -/
theorem Runs.accepted {past future : Log Job Receipt} {now : Nat}
    {action : Action Job Receipt} {holders : Holders Job Receipt}
    (runs : Runs deadline (past ++ (now, action) :: future) holders)
    {receipt : Receipt}
    (accepts : action = .settle receipt ∨ action = .renew receipt) :
    ∃ job endsAt, Standing past job receipt ∧
      leaseEnd deadline past receipt = some endsAt ∧ now < endsAt := by
  rw [append_cons] at runs
  obtain ⟨_, upTo⟩ := runs.shorten
  obtain ⟨_, earlier, ⟨before, after, lapses, act, _⟩, _⟩ := Runs.last upTo
  have faithful := earlier.faithful.lapses lapses
  rcases accepts with rfl | rfl
  · cases act with
    | settle held current =>
      exact ⟨_, _, faithful.standing _ _ _ held, faithful.leaseEnd _ _ _ held, current⟩
  · cases act with
    | renew held current =>
      exact ⟨_, _, faithful.standing _ _ _ held, faithful.leaseEnd _ _ _ held, current⟩

/-- The job of `receipt` is still held under it, or its lease is over. -/
def Guarded (deadline : Nat → Nat) (log : Log Job Receipt) (job : Job)
    (receipt : Receipt) (now : Nat) (holders : Holders Job Receipt) :
    Prop :=
  ∃ endsAt, leaseEnd deadline log receipt = some endsAt ∧
    (holders job = some (receipt, endsAt) ∨ endsAt ≤ now)

variable {receipt : Receipt}

omit [DecidableEq Job] in
theorem Guarded.lapses {job : Job} {now later : Nat}
    (guarded : Guarded deadline log job receipt now holders)
    (ordered : now ≤ later) (lapses : Lapses later holders holders') :
    Guarded deadline log job receipt later holders' := by
  obtain ⟨endsAt, ends, held | exceeded⟩ := guarded
  · refine ⟨endsAt, ends, ?_⟩
    rcases lapses job with same | ⟨_, lapsed, lapsedEnd, was, passed⟩
    · rw [same]
      exact Or.inl held
    · rw [held] at was
      cases was
      exact Or.inr passed
  · exact ⟨endsAt, ends, Or.inr (Nat.le_trans exceeded ordered)⟩

theorem Guarded.act {job : Job} {now : Nat} {action : Action Job Receipt}
    (faithful : Faithful deadline log holders)
    (guarded : Guarded deadline log job receipt now holders)
    (granted : Granted log receipt)
    (act : Act deadline now holders action holders')
    (fresh : ∀ other otherReceipt, action = .grant other otherReceipt → ¬ Granted log otherReceipt)
    (notSettle : action ≠ .settle receipt) :
    Guarded deadline (log ++ [(now, action)]) job receipt now holders' := by
  obtain ⟨endsAt, ends, state⟩ := guarded
  -- An entry that gives the receipt no new end leaves the end as it is.
  have kept : entryEnd deadline receipt (now, action) = none →
      leaseEnd deadline (log ++ [(now, action)]) receipt = some endsAt := by
    intro notEnd
    rw [leaseEnd_concat, notEnd, Option.none_or]
    exact ends
  cases act with
  | idle => exact ⟨endsAt, kept rfl, state⟩
  | @grant other otherReceipt free =>
    have distinct : otherReceipt ≠ receipt := by
      rintro rfl
      exact fresh other _ rfl granted
    refine ⟨endsAt, kept (by simp [entryEnd, distinct]), ?_⟩
    rcases state with held | exceeded
    · have different : job ≠ other := by
        rintro rfl
        rw [free] at held
        cases held
      rw [Function.update_of_ne different]
      exact Or.inl held
    · exact Or.inr exceeded
  | @settle other otherReceipt otherEnd otherHeld _ =>
    refine ⟨endsAt, kept rfl, ?_⟩
    rcases state with held | exceeded
    · have different : job ≠ other := by
        rintro rfl
        rw [held] at otherHeld
        cases otherHeld
        exact notSettle rfl
      rw [Function.update_of_ne different]
      exact Or.inl held
    · exact Or.inr exceeded
  | @renew other otherReceipt otherEnd otherHeld current =>
    by_cases same : otherReceipt = receipt
    · subst same
      -- The lease end is the renewed holder's, so it had not passed.
      have equal := faithful.leaseEnd other otherReceipt otherEnd otherHeld
      rw [ends] at equal
      cases equal
      rcases state with held | exceeded
      · have sameJob := faithful.unique _ _ _ _ _ held otherHeld
        subst sameJob
        refine ⟨deadline now, ?_, Or.inl (by simp)⟩
        rw [leaseEnd_concat]
        simp [entryEnd]
      · omega
    · refine ⟨endsAt, kept (by simp [entryEnd, same]), ?_⟩
      rcases state with held | exceeded
      · have different : job ≠ other := by
          rintro rfl
          rw [held] at otherHeld
          cases otherHeld
          exact same rfl
        rw [Function.update_of_ne different]
        exact Or.inl held
      · exact Or.inr exceeded

/-- From its grant on, until it is settled, a lease guards its job. -/
theorem Runs.guarded {past rest : Log Job Receipt} {job : Job} {time : Nat}
    (runs : Runs deadline (past ++ (time, .grant job receipt) :: rest) holders)
    (ordered : ((time, Action.grant job receipt) :: rest).Pairwise
      fun earlier later => earlier.1 ≤ later.1)
    (unsettled : ∀ settledAt, (settledAt, Action.settle receipt) ∉ rest) :
    ∃ now, (∃ entry ∈ (time, Action.grant job receipt) :: rest, entry.1 = now) ∧
      Guarded deadline (past ++ (time, .grant job receipt) :: rest) job
        receipt now holders := by
  induction rest using List.reverseRecOn generalizing holders with
  | nil =>
    obtain ⟨_, _, ⟨before, after, _, act, lapses⟩, _⟩ := Runs.last runs
    refine ⟨time, by simp, ?_⟩
    refine Guarded.lapses ?_ (Nat.le_refl time) lapses
    cases act with
    | grant _ free =>
      refine ⟨deadline time, ?_, Or.inl (by simp)⟩
      rw [leaseEnd_concat]
      simp [entryEnd]
  | append_singleton rest entry ih =>
    obtain ⟨now, action⟩ := entry
    rw [← cons_append, ← append_assoc] at runs
    obtain ⟨_, earlier, ⟨before, after, first, act, second⟩, fresh⟩ := Runs.last runs
    rw [← cons_append] at ordered
    obtain ⟨sorted, _, below⟩ := pairwise_append.mp ordered
    obtain ⟨last, ⟨witness, member, reached⟩, guarded⟩ :=
      ih earlier sorted (fun settledAt inside =>
        unsettled settledAt (mem_append_left _ inside))
    have later : last ≤ now := by
      rw [← reached]
      exact below witness member (now, action) (by simp)
    have notSettle : action ≠ .settle receipt := by
      rintro rfl
      exact unsettled now (by simp)
    have granted : Granted (past ++ (time, .grant job receipt) :: rest)
        receipt := ⟨time, job, by simp⟩
    refine ⟨now, ⟨(now, action), by simp, rfl⟩, ?_⟩
    rw [← cons_append, ← append_assoc]
    exact ((guarded.lapses later first).act (earlier.faithful.lapses first) granted act fresh
      notSettle).lapses (Nat.le_refl now) second

/-- Nobody is granted the job before the lease end, unless the receipt was
settled first. -/
theorem Runs.exclusive {past rest : Log Job Receipt} {job : Job}
    {other : Receipt} {time later : Nat}
    (runs : Runs deadline ((past ++ (time, .grant job receipt) :: rest) ++
        [(later, .grant job other)]) holders)
    (ordered : ((time, Action.grant job receipt) :: rest ++
      [(later, Action.grant job other)]).Pairwise fun earlier later => earlier.1 ≤ later.1)
    (unsettled : ∀ settledAt, (settledAt, Action.settle receipt) ∉ rest) :
    ∃ endsAt, leaseEnd deadline (past ++ (time, .grant job receipt) :: rest) receipt =
          some endsAt ∧ endsAt ≤ later := by
  obtain ⟨_, earlier, ⟨before, after, first, act, _⟩, _⟩ := Runs.last runs
  obtain ⟨sorted, _, below⟩ := pairwise_append.mp ordered
  obtain ⟨now, ⟨entry, member, reached⟩, guarded⟩ := earlier.guarded sorted unsettled
  have notBefore : now ≤ later := by
    rw [← reached]
    exact below entry member (later, .grant job other) (by simp)
  obtain ⟨endsAt, ends, held | exceeded⟩ := guarded.lapses notBefore first
  · cases act with
    | grant _ free =>
      rw [free] at held
      cases held
  · exact ⟨endsAt, ends, exceeded⟩

end Guarantees

end Lib.Lease
