import Mathlib.Data.List.Chain
import Mathlib.Data.Set.Basic
import Worklane.Scheduler.Run

/-!
# The occurrences the scheduler attempts

An entry's cursor is the first occurrence strictly after the reading it was
computed from: the reading `run` starts with, or the one taken when the entry's
last fire completed.  That is the first occurrence at or after the reading
unless the reading falls on an occurrence.
-/

namespace Worklane.Scheduler

open List

/-! ## Cursors -/

section Cursors

variable (cron : Cron)

theorem Cron.after_mem (time : Int) : cron.after time ∈ cron.times := (cron.least time).1.1

theorem Cron.lt_after (time : Int) : time < cron.after time := (cron.least time).1.2

theorem Cron.after_le {time other : Int} (member : other ∈ cron.times) (later : time < other) :
    cron.after time ≤ other :=
  (cron.least time).2 ⟨member, later⟩

theorem Cron.least_from_iff (start : Int) :
    IsLeast {time ∈ cron.times | start ≤ time} (cron.after start) ↔ start ∉ cron.times := by
  constructor
  · intro least member
    have early := least.2 ⟨member, le_refl start⟩
    have late := cron.lt_after start
    omega
  · intro absent
    refine ⟨⟨cron.after_mem start, (cron.lt_after start).le⟩, ?_⟩
    intro other candidate
    have different : start ≠ other := fun same => absent (same ▸ candidate.1)
    exact cron.after_le candidate.1 (lt_of_le_of_ne candidate.2 different)

theorem Cron.least_later_iff {occurrence reading : Int} (order : occurrence ≤ reading) :
    IsLeast {time ∈ cron.times | occurrence < time ∧ reading ≤ time} (cron.after reading) ↔
      reading = occurrence ∨ reading ∉ cron.times := by
  have late := cron.lt_after reading
  constructor
  · intro least
    by_contra both
    rw [not_or, not_not] at both
    have early := least.2 ⟨both.2, by omega, le_refl reading⟩
    omega
  · intro apart
    refine ⟨⟨cron.after_mem reading, by omega, late.le⟩, ?_⟩
    intro other candidate
    have different : reading ≠ other := by
      intro same
      rcases apart with equal | absent
      · have later := candidate.2.1
        omega
      · exact absent (same ▸ candidate.1)
    exact cron.after_le candidate.1 (lt_of_le_of_ne candidate.2.2 different)

end Cursors

/-! ## The attempts of one entry -/

/-- The next attempt is the occurrence after the reading that completed this
one. -/
def Follows (cron : Cron) (attempt next : Attempt) : Prop :=
  ∃ reading, attempt.after = some reading ∧ attempt.occurrence ≤ reading ∧
    next.occurrence = cron.after reading

/-- The reading the cursor comes from. -/
def Since (start : Int) (attempts : List Attempt) (base : Int) : Prop :=
  match attempts.getLast? with
  | none => base = start
  | some last => last.after = some base ∧ last.occurrence ≤ base

/-- The attempts of an entry from the first one on. -/
structure Linked (cron : Cron) (start : Int) (attempts : List Attempt) : Prop where
  first : ∀ attempt ∈ attempts.head?, attempt.occurrence = cron.after start
  later : attempts.IsChain (Follows cron)

/-- Completed attempts, and the cursor after them. -/
structure Chained (cron : Cron) (start : Int) (attempts : List Attempt) (cursor : Int) : Prop
    extends Linked cron start attempts where
  cursor : ∃ base, Since start attempts base ∧ cursor = cron.after base

section Chains

variable {cron : Cron} {start cursor : Int} {attempts : List Attempt} {attempt : Attempt}

theorem Chained.linked (chained : Chained cron start attempts cursor)
    (due : attempt.occurrence = cursor) : Linked cron start (attempts ++ [attempt]) := by
  obtain ⟨base, since, rfl⟩ := chained.cursor
  constructor
  · intro first member
    cases attempts with
    | nil =>
      simp only [nil_append, head?_cons, Option.mem_some_iff] at member
      rw [← member, due, show base = start from since]
    | cons head rest => exact chained.first first member
  · refine isChain_append.mpr ⟨chained.later, .singleton _, fun last ends next begins => ?_⟩
    simp only [head?_cons, Option.mem_some_iff] at begins
    rw [Since, Option.mem_def.mp ends] at since
    exact ⟨base, since.1, since.2, by rw [← begins, due]⟩

theorem Chained.complete (chained : Chained cron start attempts cursor)
    (due : attempt.occurrence = cursor) {reading : Int} (order : attempt.occurrence ≤ reading) :
    Chained cron start (attempts ++ [{ attempt with after := some reading }])
      (cron.after reading) where
  toLinked := chained.linked due
  cursor := by
    refine ⟨reading, ?_, rfl⟩
    rw [Since, getLast?_concat]
    exact ⟨rfl, order⟩

end Chains

/-! ## The state of a run -/

/-- The pass and the place in the entry list, up to which fires were made. -/
def State.place (settings : Settings) (state : State) : Nat :=
  match state.phase with
  | .due _ index => index
  | .firing _ index | .fired _ index => index + 1
  | _ => settings.entries.length

/-- What is known of the fire in progress. -/
structure InProgress (settings : Settings) (state : State) (now : Int) (index : Nat) : Prop where
  inside : index < settings.entries.length
  seen : ∃ last, state.last = some last ∧ now ≤ last
  pending : ∃ attempt, state.pending = some attempt ∧ attempt.entry = index ∧
    attempt.occurrence ≤ now

def PhaseHolds (settings : Settings) (state : State) : Prop :=
  match state.phase with
  | .starting => False
  | .due now index =>
    index < settings.entries.length ∧ (∃ last, state.last = some last ∧ now ≤ last) ∧
      state.cursors index ≤ now ∧ state.pending = none
  | .firing now index | .fired now index => InProgress settings state now index
  | .ended _ => True
  | _ => state.pending = none

def Earlier (attempt next : Attempt) : Prop :=
  attempt.pass < next.pass ∨ (attempt.pass = next.pass ∧ attempt.entry < next.entry)

/-- The invariant of `run` once it has its first reading. -/
structure Kept (settings : Settings) (start : Int) (state : State) : Prop where
  chained : ∀ index entry, settings.entries[index]? = some entry →
    Chained entry.cron start (attemptsOf index state.completed) (state.cursors index)
  pending : ∀ attempt, state.pending = some attempt →
    attempt.occurrence = state.cursors attempt.entry
  due : ∀ attempt ∈ state.log, attempt.occurrence ≤ attempt.now
  order : state.log.Pairwise Earlier
  reached : ∀ attempt ∈ state.log, attempt.pass < state.pass ∨
    (attempt.pass = state.pass ∧ attempt.entry < state.place settings)
  phase : PhaseHolds settings state

section Steps

variable {settings : Settings} {start : Int} {state next : State}

theorem scan_cases (settings : Settings) (cursors : Nat → Int) (now : Int) (index : Nat) :
    settings.scan cursors now index = .waiting ∨
      ∃ found, index ≤ found ∧ found < settings.entries.length ∧ cursors found ≤ now ∧
        settings.scan cursors now index = .due now found := by
  rw [Settings.scan]
  cases search : (List.range' index (settings.entries.length - index)).find? fun i =>
    cursors i ≤ now with
  | none => exact Or.inl rfl
  | some found =>
    have ready := find?_some search
    have inside := mem_range'_1.mp (mem_of_find?_eq_some search)
    exact Or.inr ⟨found, inside.1, by omega, by simpa using ready, rfl⟩

theorem Kept.enter (kept : Kept settings start state) (phase : Phase) (last : Option Int)
    (holds : PhaseHolds settings { state with phase := phase, last := last })
    (further : state.place settings ≤ State.place settings { state with phase := phase }) :
    Kept settings start { state with phase := phase, last := last } where
  chained := kept.chained
  pending := kept.pending
  due := kept.due
  order := kept.order
  reached := fun attempt member => (kept.reached attempt member).imp_right fun here =>
    ⟨here.1, Nat.lt_of_lt_of_le here.2 further⟩
  phase := holds

/-- The loop scans on from an index that no fire of this pass has reached. -/
theorem Kept.scan (kept : Kept settings start state) {now : Int} {index : Nat}
    (idle : state.pending = none) (seen : ∃ last, state.last = some last ∧ now ≤ last)
    (reached : ∀ attempt ∈ state.log, attempt.pass < state.pass ∨
      (attempt.pass = state.pass ∧ attempt.entry < index))
    (small : index ≤ settings.entries.length) :
    Kept settings start { state with phase := settings.scan state.cursors now index } := by
  have rest : ∀ phase, PhaseHolds settings { state with phase := phase } →
      index ≤ State.place settings { state with phase := phase } →
      Kept settings start { state with phase := phase } := fun phase holds further =>
    { kept with
      reached := fun attempt member => (reached attempt member).imp_right fun here =>
        ⟨here.1, Nat.lt_of_lt_of_le here.2 further⟩
      phase := holds }
  rcases scan_cases settings state.cursors now index with
    waiting | ⟨found, order, inside, ready, due⟩
  · rw [waiting]
    exact rest _ idle small
  · rw [due]
    exact rest _ ⟨inside, seen, ready, idle⟩ order

theorem Kept.dispatch (kept : Kept settings start state) {now : Int} {index : Nat}
    (phase : state.phase = .due now index) (request : Request) :
    Kept settings start
      { state with
        phase := .firing now index
        pending := some ⟨index, state.pass, now, state.cursors index, request, none⟩ } := by
  have holds := kept.phase
  rw [PhaseHolds, phase] at holds
  obtain ⟨inside, seen, ready, idle⟩ := holds
  have log : state.log = state.completed := by simp [State.log, idle]
  have reached := kept.reached
  rw [log, State.place, phase] at reached
  constructor
  · exact kept.chained
  · intro attempt same
    rw [← Option.some.inj same]
  · intro attempt member
    rcases mem_append.mp member with old | new
    · exact kept.due attempt (log ▸ old)
    · rw [mem_singleton.mp new]
      exact ready
  · refine pairwise_append.mpr ⟨log ▸ kept.order, pairwise_singleton .., ?_⟩
    intro attempt old other new
    rw [mem_singleton.mp new]
    exact reached attempt old
  · intro attempt member
    rcases mem_append.mp member with old | new
    · exact (reached attempt old).imp_right fun here => ⟨here.1, Nat.lt_succ_of_lt here.2⟩
    · rw [mem_singleton.mp new]
      exact Or.inr ⟨rfl, Nat.lt_succ_self index⟩
  · exact ⟨inside, seen, _, rfl, rfl, ready⟩

theorem Kept.advance (kept : Kept settings start state) {now time : Int} {index : Nat}
    (phase : state.phase = .fired now index) (order : ∀ last ∈ state.last, last ≤ time) :
    let cursors := Function.update state.cursors index (settings.nextAfter index time)
    Kept settings start
      { state with
        last := some time
        phase := settings.scan cursors now (index + 1)
        cursors := cursors
        completed := state.completed ++
          state.pending.toList.map fun attempt => { attempt with after := some time }
        pending := none } := by
  intro cursors
  have holds := kept.phase
  rw [PhaseHolds, phase] at holds
  obtain ⟨inside, ⟨last, read, seen⟩, attempt, pending, own, ready⟩ := holds
  have passed : now ≤ time := seen.trans (order last read)
  have cursor : attempt.occurrence = state.cursors index := by
    rw [kept.pending attempt pending, own]
  have log : state.log = state.completed ++ [attempt] := by simp [State.log, pending]
  have reached := kept.reached
  have sorted := kept.order
  have due := kept.due
  rw [log] at reached sorted due
  rw [State.place, phase] at reached
  -- The completed attempt has the place of the pending one.
  have moved : Kept settings start
      { state with
        last := some time
        phase := .waiting
        cursors := cursors
        completed := state.completed ++ [{ attempt with after := some time }]
        pending := none } := by
    constructor
    · intro other entry found
      change Chained entry.cron start (attemptsOf other (state.completed ++ [_])) (cursors other)
      rw [attemptsOf, filter_append]
      by_cases same : other = index
      · subst same
        have advanced : cursors other = entry.cron.after time := by
          simp [cursors, Settings.nextAfter, found]
        rw [filter_cons_of_pos (by simp [own]), filter_nil, advanced]
        exact (kept.chained other entry found).complete cursor (ready.trans passed)
      · have kept_ : cursors other = state.cursors other := Function.update_of_ne same ..
        rw [filter_cons_of_neg (by simp [own, Ne.symm same]), filter_nil, append_nil, kept_]
        exact kept.chained other entry found
    · intro other absent
      cases absent
    · intro other member
      rw [State.log, Option.toList_none, append_nil] at member
      rcases mem_append.mp member with old | new
      · exact due other (mem_append_left _ old)
      · rw [mem_singleton.mp new]
        exact due attempt (by simp)
    · rw [State.log, Option.toList_none, append_nil]
      rw [pairwise_append] at sorted ⊢
      refine ⟨sorted.1, pairwise_singleton .., fun other old new member => ?_⟩
      rw [mem_singleton.mp member]
      exact sorted.2.2 other old attempt (by simp)
    · intro other member
      rw [State.log, Option.toList_none, append_nil] at member
      rcases mem_append.mp member with old | new
      · exact (reached other (mem_append_left _ old)).imp_right fun here =>
        ⟨here.1, Nat.lt_of_lt_of_le here.2 inside⟩
      · rw [mem_singleton.mp new]
        exact (reached attempt (by simp)).imp_right fun here =>
          ⟨here.1, Nat.lt_of_lt_of_le here.2 inside⟩
    · rfl
  rw [pending]
  refine moved.scan rfl ⟨time, rfl, passed⟩ ?_ inside
  intro other member
  rw [State.log, Option.toList_none, append_nil] at member
  rcases mem_append.mp member with old | new
  · exact reached other (mem_append_left _ old)
  · rw [mem_singleton.mp new]
    exact reached attempt (by simp)

theorem Kept.place_le (kept : Kept settings start state) :
    state.place settings ≤ settings.entries.length := by
  have holds := kept.phase
  rw [PhaseHolds] at holds
  rw [State.place]
  split <;> simp_all only [le_refl]
  · exact holds.1.le
  · exact holds.inside
  · exact holds.inside

theorem Kept.step (kept : Kept settings start state) {event : Event}
    (taken : settings.step state event = some next) : Kept settings start next := by
  have holds := kept.phase
  cases event with
  | clock time =>
    simp only [Settings.step, Settings.read] at taken
    split at taken
    · cases taken
    · next forward =>
      have order : ∀ last ∈ state.last, last ≤ time := by
        intro last member
        rw [Option.mem_def.mp member] at forward
        simpa using forward
      cases phase : state.phase with
      | waiting =>
        rw [phase] at taken
        cases taken
        refine kept.enter _ _ ?_ (by simp [State.place, phase])
        simpa [PhaseHolds, phase] using holds
      | woken =>
        rw [phase] at taken
        cases taken
        have idle : state.pending = none := by simpa [PhaseHolds, phase] using holds
        have fresh : Kept settings start
            { state with phase := .waiting, last := some time, pass := state.pass + 1 } :=
          { kept with
            reached := fun attempt member =>
              Or.inl ((kept.reached attempt member).elim Nat.lt_succ_of_lt
                fun here => Nat.lt_succ_of_le here.1.le)
            phase := idle }
        exact fresh.scan idle ⟨time, rfl, le_refl time⟩ (fun attempt member =>
          (fresh.reached attempt member).imp_right fun here =>
            absurd here.1 (Nat.ne_of_lt ((kept.reached attempt member).elim Nat.lt_succ_of_lt
              fun here => Nat.lt_succ_of_le here.1.le))) (Nat.zero_le _)
      | fired now index =>
        rw [phase] at taken
        cases taken
        exact kept.advance phase order
      | _ => simp_all [PhaseHolds]
  | clockFailed =>
    simp only [Settings.step] at taken
    split at taken <;> cases taken <;> exact kept.enter _ _ trivial kept.place_le
  | slept =>
    simp only [Settings.step] at taken
    split at taken <;> cases taken
    next wait phase =>
      refine kept.enter _ _ ?_ (by simp [State.place, phase])
      simpa [PhaseHolds, phase] using holds
  | shutdown =>
    simp only [Settings.step] at taken
    split at taken <;> cases taken <;> exact kept.enter _ _ trivial kept.place_le
  | dispatch id =>
    simp only [Settings.step] at taken
    split at taken
    · next now index phase =>
      split at taken
      · cases taken
        exact kept.dispatch phase _
      · cases taken
    · cases taken
  | answered result =>
    simp only [Settings.step] at taken
    split at taken
    · next now index phase =>
      have progress : InProgress settings state now index := by
        simpa [PhaseHolds, phase] using holds
      have fired : Kept settings start { state with phase := .fired now index } :=
        kept.enter _ _ ⟨progress.inside, progress.seen, progress.pending⟩
          (by simp [State.place, phase])
      cases result with
      | ok claimed =>
        cases taken
        exact fired
      | error failure =>
        simp only at taken
        split at taken
        · cases taken
          exact fired
        · cases taken
          exact kept.enter _ _ trivial kept.place_le
    · cases taken

theorem kept_start (taken : settings.step settings.initial (.clock start) = some state) :
    Kept settings start state := by
  simp only [Settings.step, Settings.read, Settings.initial, Option.any_none,
    Bool.false_eq_true, if_false] at taken
  split at taken
  · next phase =>
    cases taken
    refine ⟨fun index entry found => ⟨⟨by simp [attemptsOf], by simp [attemptsOf]⟩,
      start, rfl, by simp [Settings.nextAfter, found]⟩, ?_, ?_, ?_, ?_, rfl⟩ <;>
      simp [State.log]
  all_goals (next phase => split at phase <;> simp_all)

end Steps

/-! ## Whole runs -/

section Selection

variable (settings : Settings) (start : Int) (state : State)

/-- What is asked of the attempts of a run that starts with this reading. -/
structure Selects : Prop where
  first : ∀ index entry, settings.entries[index]? = some entry →
    ∀ attempt ∈ (attemptsOf index state.log).head?,
      IsLeast {time ∈ entry.cron.times | start ≤ time} attempt.occurrence
  later : ∀ index entry, settings.entries[index]? = some entry →
    (attemptsOf index state.log).IsChain fun attempt next =>
      ∃ reading, attempt.after = some reading ∧
        IsLeast {time ∈ entry.cron.times | attempt.occurrence < time ∧ reading ≤ time}
          next.occurrence
  due : ∀ attempt ∈ state.log, attempt.occurrence ≤ attempt.now
  once : (state.log.map fun attempt => (attempt.pass, attempt.entry)).Nodup

/-- No cursor was computed from a reading that is itself an occurrence, the
occurrence just attempted apart. -/
structure OffBeat : Prop where
  first : ∀ index entry, settings.entries[index]? = some entry →
    attemptsOf index state.log ≠ [] → start ∉ entry.cron.times
  later : ∀ index entry, settings.entries[index]? = some entry →
    (attemptsOf index state.log).IsChain fun attempt _ =>
      ∀ reading, attempt.after = some reading →
        reading = attempt.occurrence ∨ reading ∉ entry.cron.times

variable {settings start state}

theorem Kept.linked (kept : Kept settings start state) {index : Nat} {entry : ScheduleEntry}
    (found : settings.entries[index]? = some entry) :
    Linked entry.cron start (attemptsOf index state.log) := by
  have chained := kept.chained index entry found
  rw [State.log, attemptsOf, filter_append]
  cases pending : state.pending with
  | none => simpa [attemptsOf] using chained.toLinked
  | some attempt =>
    by_cases own : attempt.entry = index
    · rw [Option.toList_some, filter_cons_of_pos (by simp [own]), filter_nil]
      refine chained.linked ?_
      rw [kept.pending attempt pending, own]
    · rw [Option.toList_some, filter_cons_of_neg (by simp [own]), filter_nil, append_nil]
      exact chained.toLinked

theorem isChain_iff_of_imp {α : Type} {link left right : α → α → Prop} {items : List α}
    (chain : items.IsChain link) (same : ∀ first second, link first second →
      (left first second ↔ right first second)) :
    items.IsChain left ↔ items.IsChain right := by
  simp only [isChain_iff_forall_rel_of_append_cons_cons] at chain ⊢
  exact ⟨fun all _ _ _ _ split => (same _ _ (chain split)).mp (all split),
    fun all _ _ _ _ split => (same _ _ (chain split)).mpr (all split)⟩

theorem Linked.later_iff {cron : Cron} {attempts : List Attempt}
    (linked : Linked cron start attempts) :
    (attempts.IsChain fun attempt next => ∃ reading, attempt.after = some reading ∧
        IsLeast {time ∈ cron.times | attempt.occurrence < time ∧ reading ≤ time} next.occurrence) ↔
      attempts.IsChain fun attempt _ => ∀ reading, attempt.after = some reading →
        reading = attempt.occurrence ∨ reading ∉ cron.times := by
  refine isChain_iff_of_imp linked.later fun attempt next follows => ?_
  obtain ⟨reading, after, order, due⟩ := follows
  rw [due]
  constructor
  · rintro ⟨other, same, least⟩ again repeated
    rw [repeated] at same after
    cases same
    cases after
    exact (cron.least_later_iff order).mp least
  · intro apart
    exact ⟨reading, after, (cron.least_later_iff order).mpr (apart reading after)⟩

theorem Linked.first_iff {cron : Cron} {attempts : List Attempt}
    (linked : Linked cron start attempts) :
    (∀ attempt ∈ attempts.head?, IsLeast {time ∈ cron.times | start ≤ time} attempt.occurrence) ↔
      (attempts ≠ [] → start ∉ cron.times) := by
  cases attempts with
  | nil => simp
  | cons head rest =>
    have due := linked.first head rfl
    simp only [head?_cons, Option.mem_some_iff, forall_eq', ne_eq, reduceCtorEq,
      not_false_eq_true, forall_const]
    rw [due]
    exact cron.least_from_iff start

theorem Kept.selects_iff (kept : Kept settings start state) :
    Selects settings start state ↔ OffBeat settings start state := by
  constructor
  · intro selects
    exact ⟨fun index entry found =>
      (kept.linked found).first_iff.mp (selects.first index entry found),
      fun index entry found => (kept.linked found).later_iff.mp (selects.later index entry found)⟩
  · intro offBeat
    refine ⟨fun index entry found =>
      (kept.linked found).first_iff.mpr (offBeat.first index entry found),
      fun index entry found => (kept.linked found).later_iff.mpr (offBeat.later index entry found),
      kept.due, ?_⟩
    rw [List.Nodup, pairwise_map]
    refine kept.order.imp fun earlier same => ?_
    have passes := congrArg Prod.fst same
    have entries := congrArg Prod.snd same
    simp only at passes entries
    rcases earlier with before | ⟨_, before⟩ <;> omega

/-- A run that has its first reading keeps the invariant for it. -/
def Seeded (settings : Settings) (events : List Event) (state : State) : Prop :=
  ∀ start rest, events = .clock start :: rest → Kept settings start state

theorem run_seeded {events : List Event} (run : (automaton settings).Runs events state) :
    Seeded settings events state := by
  refine run.invariant ?_ ?_
  · intro start rest impossible
    cases impossible
  · intro past event before next earlier taken seeded start rest shape
    cases past with
    | nil =>
      cases shape
      rw [Lib.Automaton.of_runs_nil earlier] at taken
      exact kept_start taken
    | cons head tail =>
      cases shape
      exact (seeded start tail rfl).step taken

/-- Over every run: the attempted occurrences are the ones asked for exactly
when no reading a cursor comes from is an occurrence. -/
theorem occurrences_selected_iff (settings : Settings) (start : Int) (events : List Event)
    (state : State) (run : (automaton settings).Runs (.clock start :: events) state) :
    Selects settings start state ↔ OffBeat settings start state :=
  (run_seeded run start events rfl).selects_iff

end Selection

/-! ## A schedule for every full minute -/

def minute : Int := 60 * 10 ^ 9

/-- The full minutes from the epoch on. -/
def everyMinute : Cron where
  occurrence count := minute * count
  increasing := by
    intro early late order
    have positive : (0 : Int) < minute := by decide
    exact Int.mul_lt_mul_of_pos_left (Int.ofNat_lt.mpr order) positive
  after time := if time < 0 then 0 else minute * (time / minute + 1)
  least := by
    have positive : (0 : Int) < minute := by decide
    intro time
    split
    · next early =>
      refine ⟨⟨⟨0, by simp⟩, early⟩, ?_⟩
      rintro _ ⟨⟨count, rfl⟩, _⟩
      exact Int.mul_nonneg positive.le (Int.natCast_nonneg count)
    · next late =>
      have nonneg : 0 ≤ time / minute := Int.ediv_nonneg (by omega) positive.le
      refine ⟨⟨⟨(time / minute + 1).toNat, ?_⟩, ?_⟩, ?_⟩
      · change minute * ((time / minute + 1).toNat : Int) = _
        rw [Int.toNat_of_nonneg (by omega)]
      · rw [Int.mul_add, Int.mul_one]
        have rest := Int.emod_lt_of_pos time positive
        have whole := Int.mul_ediv_add_emod time minute
        omega
      · rintro _ ⟨⟨count, rfl⟩, after⟩
        change time < minute * (count : Int) at after
        rw [Int.mul_comm] at after
        have above : time / minute < count := Int.ediv_lt_of_lt_mul positive after
        exact Int.mul_le_mul_of_nonneg_left above positive.le

def minutely : Settings where
  entries := [⟨"tick", everyMinute, ⟨"mail"⟩, "send", [], 3, false⟩]
  resilient := false
  preDispatch := id

/-- `run` starts with this reading and fires at the end of the next minute. -/
def firstFire (start : Int) : List Event :=
  [.clock start, .clock start, .slept, .clock (2 * minute), .dispatch ⟨⟨1⟩⟩]

def firedState (start : Int) : State where
  phase := .firing (2 * minute) 0
  cursors := fun index => minutely.nextAfter index start
  pass := 1
  last := some (2 * minute)
  completed := []
  pending := some ⟨0, 1, 2 * minute, everyMinute.after start,
    minutely.request ⟨"tick", everyMinute, ⟨"mail"⟩, "send", [], 3, false⟩
      (everyMinute.after start) ⟨⟨1⟩⟩, none⟩

/-- The reading falls on the first full minute, which is not attempted. -/
theorem minute_skipped : (automaton minutely).Runs (firstFire minute) (firedState minute) ∧
      ¬ Selects minutely minute (firedState minute) := by
  refine ⟨rfl, fun selects => ?_⟩
  have least := selects.first 0 _ rfl _ rfl
  have early := least.2 ⟨⟨1, by simp [everyMinute]⟩, le_refl minute⟩
  revert early
  decide

/-- After that fire it sleeps and fires again. -/
def secondFire (start : Int) : List Event :=
  firstFire start ++ [.answered (.ok true), .clock (2 * minute + 5), .clock (2 * minute + 5),
    .slept, .clock (3 * minute), .dispatch ⟨⟨2⟩⟩]

def twiceFiredState (start : Int) : State where
  phase := .firing (3 * minute) 0
  cursors := Function.update (firedState start).cursors 0 (everyMinute.after (2 * minute + 5))
  pass := 2
  last := some (3 * minute)
  completed := (firedState start).pending.toList.map fun attempt =>
    { attempt with after := some (2 * minute + 5) }
  pending := some ⟨0, 2, 3 * minute, everyMinute.after (2 * minute + 5),
    minutely.request ⟨"tick", everyMinute, ⟨"mail"⟩, "send", [], 3, false⟩
      (everyMinute.after (2 * minute + 5)) ⟨⟨2⟩⟩, none⟩

/-- A start between two minutes attempts the next two, each fire being
completed between two minutes as well. -/
theorem minutes_attempted :
    (automaton minutely).Runs (secondFire (minute + 1)) (twiceFiredState (minute + 1)) ∧
      Selects minutely (minute + 1) (twiceFiredState (minute + 1)) := by
  have run : (automaton minutely).Runs (secondFire (minute + 1)) (twiceFiredState (minute + 1)) :=
    rfl
  refine ⟨run, (occurrences_selected_iff minutely _ _ _ run).mpr ⟨?_, ?_⟩⟩
  · intro index entry found _
    cases index with
    | zero =>
      cases found
      rintro ⟨count, same⟩
      simp only [everyMinute, minute] at same
      omega
    | succ index => cases found
  · intro index entry found
    cases index with
    | zero =>
      cases found
      refine .cons_cons ?_ (.singleton _)
      rintro _ ⟨⟩
      refine .inr ?_
      rintro ⟨count, same⟩
      simp only [everyMinute, minute] at same
      omega
    | succ index => exact .nil

end Worklane.Scheduler
