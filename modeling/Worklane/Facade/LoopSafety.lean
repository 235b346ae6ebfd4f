import Worklane.Facade.RunLoop

/-!
# The safety of `Worker::run`

What holds of every run of the loop, whatever the events: how many tasks are
in flight, when it stops reserving, when it may return and with what.
-/

namespace Worklane.Facade

open List
open Lib.Automaton

/-! ## What the events say about the variables -/

/-- The loop has seen the shutdown signal, or in fail-fast mode an error. -/
def stopped (settings : LoopSettings) (events : List (Nat × RunEvent)) :
    Bool :=
  signalled events || (!settings.resilient && !(errorsOf events).isEmpty)

/-- The error that is kept: the first one, in resilient mode the first one
after the shutdown signal. -/
def surfaced (settings : LoopSettings) (events : List (Nat × RunEvent)) :
    Option Failure :=
  if settings.resilient then
    (errorsOf (sinceSignal events)).head?
  else
    (errorsOf events).head?

section Concat

variable (settings : LoopSettings) (past : List (Nat × RunEvent)) (event : Nat × RunEvent)

@[simp]
theorem stopped_concat : stopped settings (past ++ [event]) = (stopped settings past ||
      event.2.signals || (!settings.resilient && event.2.error.isSome)) := by
  have grown : (errorsOf past ++ event.2.error.toList).isEmpty =
      ((errorsOf past).isEmpty && !event.2.error.isSome) := by
    cases event.2.error <;> simp
  simp only [stopped, signalled_concat, errorsOf_concat, grown]
  cases signalled past <;> cases settings.resilient <;>
    cases (errorsOf past).isEmpty <;> simp

theorem error_of_signals {event : RunEvent} (signals : event.signals = true) :
    event.error = none := by
  cases event <;> first | rfl | cases signals

theorem errorsOf_sinceSignal_single : errorsOf (sinceSignal [event]) = [] := by
  cases signals : event.2.signals with
  | false => simp [sinceSignal, signals, errorsOf]
  | true =>
    simp [sinceSignal, signals, errorsOf, error_of_signals signals]

theorem surfaced_concat : surfaced settings (past ++ [event]) = (surfaced settings past).or
      (if settings.resilient && !signalled past then none
        else event.2.error) := by
  cases mode : settings.resilient with
  | false => simp [surfaced, mode, head?_append]
  | true =>
    cases seen : signalled past with
    | false =>
      have early : sinceSignal past = [] := by
        refine dropWhile_eq_nil_iff.mpr fun entry member => ?_
        simpa using any_eq_false.mp seen entry member
      simp only [surfaced, mode, sinceSignal_early past event seen,
        errorsOf_sinceSignal_single, early, if_true]
      rfl
    | true =>
      simp [surfaced, mode, sinceSignal_later past event seen, head?_append]

end Concat

/-- The variables of the loop, as the events so far determine them. -/
structure Tallied (settings : LoopSettings)
    (events : List (Nat × RunEvent)) (loop : RunLoop) : Prop where
  bounded : loop.inFlight.length ≤ settings.slots
  spawned : loop.spawned = spawnedIn events
  tasks : (loop.inFlight ++ joinedIn events).Perm (List.range loop.spawned)
  shuttingDown : loop.shuttingDown = stopped settings events
  firstErr : loop.firstErr = surfaced settings events

section Step

variable {settings : LoopSettings} {past : List (Nat × RunEvent)}
  {event : RunEvent} {loop changed next : RunLoop} {now : Nat}

theorem Tallied.onward (held : Tallied settings past loop)
    (moved : Onward settings now loop next) : Tallied settings past next := by
  obtain ⟨bounded, spawned, tasks, shuttingDown, firstErr⟩ := held
  refine ⟨?_, ?_, ?_, ?_, ?_⟩
  · rw [moved.inFlight]
    exact bounded
  · rw [moved.spawned]
    exact spawned
  · rw [moved.inFlight, moved.spawned]
    exact tasks
  · rw [moved.shuttingDown]
    exact shuttingDown
  · rw [moved.firstErr]
    exact firstErr

theorem Effect.bounded (effect : Effect settings loop event changed)
    (bounded : loop.inFlight.length ≤ settings.slots) :
    changed.inFlight.length ≤ settings.slots := by
  have fewer : ∀ task, (loop.inFlight.erase task).length ≤ settings.slots :=
    fun task => Nat.le_trans length_erase_le bounded
  cases effect with
  | poll | empty | shutdown | tick | deadline => exact bounded
  | found reservation up free =>
    rw [RunLoop.spawn, length_append]
    exact free
  | refused error up =>
    unfold RunLoop.recordError
    split <;> exact bounded
  | joined => exact fewer _
  | failed =>
    unfold RunLoop.recordError
    split <;> exact fewer _
  | drained => exact fewer _

theorem Effect.spawned (effect : Effect settings loop event changed) :
    changed.spawned = loop.spawned + if event.spawns then 1 else 0 := by
  cases effect with
  | poll | found | empty | shutdown | tick | joined | drained
  | deadline => rfl
  | refused | failed =>
    unfold RunLoop.recordError
    split <;> rfl

theorem perm_join {tasks joined : List Nat} {task : Nat} (member : task ∈ tasks) :
    (tasks.erase task ++ (joined ++ [task])).Perm (tasks ++ joined) := by
  rw [← append_assoc]
  refine perm_append_comm.trans ?_
  exact (perm_cons_erase member).symm.append_right joined

theorem Effect.tasks (effect : Effect settings loop event changed) {joined : List Nat}
    (all : (loop.inFlight ++ joined).Perm (List.range loop.spawned)) :
    (changed.inFlight ++ (joined ++ event.task.toList)).Perm (List.range changed.spawned) := by
  cases effect with
  | poll | empty | shutdown | tick | deadline =>
    simp only [RunEvent.task, Option.toList_none, append_nil]
    exact all
  | found reservation up free =>
    simp only [RunEvent.task, Option.toList_none, append_nil]
    simp only [RunLoop.spawn, range_succ, append_assoc]
    refine (perm_append_comm.append_left _).trans ?_
    rw [← append_assoc]
    exact all.append_right _
  | refused error up =>
    simp only [RunEvent.task, Option.toList_none, append_nil]
    unfold RunLoop.recordError
    split <;> exact all
  | joined member quiet => exact (perm_join member).trans all
  | failed member failure up =>
    unfold RunLoop.recordError
    split <;> exact (perm_join member).trans all
  | drained member failure down => exact (perm_join member).trans all

theorem Effect.shuttingDown (effect : Effect settings loop event changed) :
    changed.shuttingDown = (loop.shuttingDown || event.signals ||
      (!settings.resilient && event.error.isSome)) := by
  cases effect with
  | poll ready up => simp [up, RunEvent.signals, RunEvent.error]
  | found | empty | tick | deadline =>
    simp [RunEvent.signals, RunEvent.error, RunLoop.spawn, RunLoop.polledEmpty]
  | refused error up =>
    cases mode : settings.resilient <;>
      simp [RunLoop.recordError, mode, RunEvent.signals, RunEvent.error]
  | shutdown up => simp [RunEvent.signals]
  | joined member quiet =>
    simp [RunEvent.signals, RunEvent.error, quiet, RunLoop.join]
  | failed member failure up =>
    cases mode : settings.resilient <;>
      simp [RunLoop.recordError, mode, RunEvent.signals, RunEvent.error, failure, RunLoop.join]
  | drained member failure down =>
    simp [RunLoop.noteError, RunLoop.join, down]

/-- Before the signal, resilient mode keeps no error; a drain always does. -/
theorem Effect.firstErr (effect : Effect settings loop event changed) :
    changed.firstErr = loop.firstErr.or (if settings.resilient && !loop.shuttingDown then none
        else event.error) := by
  cases effect with
  | poll | found | empty | shutdown | tick | deadline =>
    simp [RunEvent.error, RunLoop.spawn, RunLoop.polledEmpty]
  | refused error up =>
    cases mode : settings.resilient <;>
      simp [RunLoop.recordError, RunLoop.noteError, mode, up, RunEvent.error]
  | joined member quiet => simp [RunEvent.error, quiet, RunLoop.join]
  | failed member failure up =>
    cases mode : settings.resilient <;>
      simp [RunLoop.recordError, RunLoop.noteError, RunLoop.join, mode, up, RunEvent.error, failure]
  | drained member failure down =>
    simp [RunLoop.noteError, RunLoop.join, down, RunEvent.error, failure]

theorem Tallied.effect (held : Tallied settings past loop)
    (effect : Effect settings loop event changed) :
    Tallied settings (past ++ [(now, event)]) changed := by
  have seen : (settings.resilient && !loop.shuttingDown) =
      (settings.resilient && !signalled past) := by
    rw [held.shuttingDown]
    cases mode : settings.resilient <;> simp [stopped, mode]
  refine ⟨effect.bounded held.bounded, ?_, ?_, ?_, ?_⟩
  · rw [effect.spawned, held.spawned, spawnedIn_concat]
  · rw [joinedIn_concat]
    exact effect.tasks held.tasks
  · rw [effect.shuttingDown, held.shuttingDown, stopped_concat]
  · rw [effect.firstErr, seen, held.firstErr, surfaced_concat]

theorem Effect.drainDeadline (effect : Effect settings loop event changed) :
    changed.drainDeadline = loop.drainDeadline := by
  cases effect with
  | poll | found | empty | shutdown | tick | joined | drained
  | deadline => rfl
  | refused | failed =>
    unfold RunLoop.recordError
    split <;> rfl

theorem Effect.up_of_reserves (effect : Effect settings loop event changed)
    (reserves : event.reserves = true) : loop.shuttingDown = false := by
  cases effect with
  | found reservation up free => exact up
  | empty up => exact up
  | refused error up => exact up
  | poll | shutdown | tick | joined | failed | drained | deadline =>
    cases reserves

end Step

/-! ## The drain -/

section Drain

variable {settings : LoopSettings} {events past : List (Nat × RunEvent)}
  {loop next changed : RunLoop} {now : Nat} {event : RunEvent}

/-- The loop began to drain at this time: nowhere before, and there. -/
def DrainBegan (settings : LoopSettings) (events : List (Nat × RunEvent)) (began : Nat) : Prop :=
  ∃ first event rest draining, events = first ++ (began, event) :: rest ∧
    (∀ earlier later before, first = earlier ++ later →
      (runAutomaton settings).Runs earlier before → ¬ before.Draining) ∧
    (runAutomaton settings).Runs (first ++ [(began, event)]) draining ∧
    draining.Draining

theorem DrainBegan.concat {began : Nat}
    (drain : DrainBegan settings past began) (entry : Nat × RunEvent) :
    DrainBegan settings (past ++ [entry]) began := by
  obtain ⟨first, event, rest, draining, rfl, start⟩ := drain
  exact ⟨first, event, rest ++ [entry], draining, by simp, start⟩

/-- The deadline is fixed where the drain begins, and tasks are left behind
when it passes or when it cannot be computed. -/
structure Drained (settings : LoopSettings)
    (events : List (Nat × RunEvent)) (loop : RunLoop) : Prop where
  fixed : ∀ date, loop.drainDeadline = some date → ∃ timeout began,
    settings.shutdownTimeout = some timeout ∧ DrainBegan settings events began ∧
      date = began + timeout.asNanos ∧ date < instantEnd
  fresh : loop.drainDeadline = none → settings.shutdownTimeout ≠ none → loop.phase ≠ .panicked →
    ∀ earlier later before, events = earlier ++ later →
      (runAutomaton settings).Runs earlier before → ¬ before.Draining
  left : loop.phase = .returned → loop.inFlight = [] ∨ ∃ date now, loop.drainDeadline = some date ∧
      events.getLast? = some (now, .deadline) ∧ date ≤ now
  overflow : loop.phase = .panicked → ∃ timeout began event,
    settings.shutdownTimeout = some timeout ∧ DrainBegan settings events began ∧
      instantEnd ≤ began + timeout.asNanos ∧ events.getLast? = some (began, event) ∧
      event.expires = false

theorem not_draining_of_undated (placed : Placed settings loop)
    (undated : loop.drainDeadline = none)
    (timed : settings.shutdownTimeout ≠ none) (calm : loop.phase ≠ .panicked) :
    ¬ loop.Draining := by
  rintro (⟨deadline, phase⟩ | panicked)
  · unfold Placed at placed
    rw [phase] at placed
    cases deadline with
    | none => exact timed (placed.2.2 rfl)
    | some date =>
      have dated := placed.2.1 date rfl
      rw [undated] at dated
      cases dated
  · exact calm panicked

theorem checkedAdd_some {wait : Duration} {date : Nat} (sum : checkedAdd now wait = some date) :
    date = now + wait.asNanos ∧ date < instantEnd := by
  unfold checkedAdd at sum
  split at sum
  · next fits =>
    cases sum
    exact ⟨rfl, fits⟩
  · cases sum

theorem checkedAdd_none {wait : Duration} (sum : checkedAdd now wait = none) :
    instantEnd ≤ now + wait.asNanos := by
  unfold checkedAdd at sum
  split at sum
  · cases sum
  · next large => exact Nat.le_of_not_lt large

theorem not_panicked_of_step {entry : Nat × RunEvent}
    (taken : (runAutomaton settings).step loop entry = some next) : loop.phase ≠ .panicked := by
  intro phase
  simp [runAutomaton, RunLoop.step, phase] at taken

theorem Drained.onward (drained : Drained settings past loop) (calm : loop.phase ≠ .panicked)
    (effect : Effect settings loop event changed) (early : event.expires = false)
    (moved : Onward settings now changed next)
    (run : (runAutomaton settings).Runs (past ++ [(now, event)]) next) :
    Drained settings (past ++ [(now, event)]) next := by
  have dated := moved.dated
  rw [effect.drainDeadline] at dated
  -- Where the step sets the deadline, the drain begins.
  have begins : loop.drainDeadline = none → settings.shutdownTimeout ≠ none → next.Draining →
      DrainBegan settings (past ++ [(now, event)]) now := by
    intro undated timed draining
    exact ⟨past, event, [], next, rfl, drained.fresh undated timed calm, run, draining⟩
  refine ⟨?_, ?_, fun ended => .inl (moved.ended ended), ?_⟩
  · intro date found
    rcases dated with ⟨same, _⟩ | ⟨undated, timeout, timed, set, draining, _⟩
    · obtain ⟨timeout, began, timed, drain, exact, fits⟩ := drained.fixed date (same ▸ found)
      exact ⟨timeout, began, timed, drain.concat _, exact, fits⟩
    · obtain ⟨sum, fits⟩ := checkedAdd_some (set.symm.trans found)
      exact ⟨timeout, now, timed, begins undated (by simp [timed]) draining, sum, fits⟩
  · intro undated timed calmNext earlier later before split reached
    have undatedBefore : loop.drainDeadline = none := by
      rcases dated with ⟨same, _⟩ | ⟨undated, _⟩
      · exact same.symm.trans undated
      · exact undated
    rcases eq_nil_or_concat later with rfl | ⟨rest, last, rfl⟩
    · rw [append_nil] at split
      subst split
      rw [reached.unique run]
      exact not_draining_of_undated moved.placed undated timed calmNext
    · rw [concat_eq_append, ← append_assoc] at split
      exact drained.fresh undatedBefore timed calm earlier rest before
        (append_inj' split rfl).1 reached
  · intro panicked
    rcases dated with ⟨_, calmNext⟩ | ⟨undated, timeout, timed, _, draining, ends⟩
    · exact absurd panicked calmNext
    · exact ⟨timeout, now, event, timed, begins undated (by simp [timed]) draining,
        checkedAdd_none (ends.mp panicked), by simp, early⟩

end Drain

/-! ## Whole runs -/

section Runs

variable {settings : LoopSettings} {events : List (Nat × RunEvent)} {loop : RunLoop}

structure Held (settings : LoopSettings) (events : List (Nat × RunEvent))
    (loop : RunLoop) : Prop where
  placed : Placed settings loop
  tallied : Tallied settings events loop
  drained : Drained settings events loop

theorem held_start : Held settings [] (runAutomaton settings).initial := by
  refine ⟨rfl, ⟨Nat.zero_le _, rfl, .refl _, ?_, ?_⟩, ?_, ?_, ?_, ?_⟩
  · simp [stopped, signalled, errorsOf]
    rfl
  · cases mode : settings.resilient <;> simp [surfaced, mode] <;> rfl
  · intro date found
    cases found
  · intro _ _ _ earlier later before split run draining
    obtain ⟨rfl, rfl⟩ := append_eq_nil_iff.mp split.symm
    rw [of_runs_nil run] at draining
    rcases draining with ⟨deadline, phase⟩ | phase <;> cases phase
  · intro ended
    cases ended
  · intro panicked
    cases panicked

theorem held_of_runs (run : (runAutomaton settings).Runs events loop) :
    Held settings events loop := by
  refine run.invariant held_start ?_
  rintro past ⟨now, event⟩ before next earlier taken held
  have reached := earlier.concat taken
  rcases step_cases held.placed taken with
    ⟨early, changed, effect, moved⟩ | ⟨rfl, date, phase, passed, rfl⟩
  · exact ⟨moved.placed, (held.tallied.effect effect).onward moved,
      held.drained.onward (not_panicked_of_step taken) effect early moved reached⟩
  · have placed := held.placed
    unfold Placed at placed
    rw [phase] at placed
    obtain ⟨down, dated, _⟩ := placed
    have tallied := @Tallied.effect settings past .deadline before before now held.tallied .deadline
    refine ⟨down, ⟨tallied.bounded, tallied.spawned, tallied.tasks,
      tallied.shuttingDown, tallied.firstErr⟩, ?_, ?_, ?_, ?_⟩
    · intro other found
      obtain ⟨timeout, began, timed, drain, same⟩ := held.drained.fixed other found
      exact ⟨timeout, began, timed, drain.concat _, same⟩
    · intro undated
      cases (dated date rfl).symm.trans undated
    · intro _
      exact .inr ⟨date, now, dated date rfl, by simp, passed⟩
    · intro panicked
      cases panicked

theorem stopped_append (first second : List (Nat × RunEvent))
    (seen : stopped settings first = true) :
    stopped settings (first ++ second) = true := by
  induction second using List.reverseRecOn with
  | nil =>
    rw [append_nil]
    exact seen
  | append_singleton past event ih =>
    rw [← append_assoc, stopped_concat, ih]
    rfl

theorem stopped_iff : stopped settings events = true ↔ signalled events = true ∨
      settings.resilient = false ∧ errorsOf events ≠ [] := by
  simp [stopped]

theorem reserves_nothing (run : (runAutomaton settings).Runs events loop)
    {first second : List (Nat × RunEvent)} (split : events = first ++ second)
    (seen : stopped settings first = true) :
    ∀ event ∈ second, event.2.reserves = false := by
  intro event member
  obtain ⟨early, late, rfl⟩ := append_of_mem member
  have whole : events = ((first ++ early) ++ [event]) ++ late := by
    rw [split]
    simp
  rw [whole] at run
  obtain ⟨after, reached⟩ := runs_of_append run
  obtain ⟨before, earlier, taken⟩ := of_runs_concat reached
  have held := held_of_runs earlier
  obtain ⟨now, event⟩ := event
  rcases step_cases held.placed taken with
    ⟨_, changed, effect, moved⟩ | ⟨rfl, _⟩
  · cases reserves : event.reserves with
    | false => rfl
    | true =>
      have up := effect.up_of_reserves reserves
      rw [held.tallied.shuttingDown, stopped_append first early seen] at up
      cases up
  · rfl

/-- The loop has returned, or it has panicked. -/
def RunLoop.Over (loop : RunLoop) : Prop :=
  loop.phase = .returned ∨ loop.phase = .panicked

/-- The safety of a run of the loop. -/
structure RunSafety (settings : LoopSettings)
    (events : List (Nat × RunEvent)) (loop : RunLoop) : Prop where
  bounded : loop.inFlight.length ≤ max settings.concurrency 1
  /-- Every task that was spawned is in flight or has been joined. -/
  tasks : (loop.inFlight ++ joinedIn events).Perm (List.range (spawnedIn events))
  closed : ∀ first second, events = first ++ second → (signalled first = true ∨
      settings.resilient = false ∧ errorsOf first ≠ []) →
    loop.phase ≠ .reserving ∧ ∀ event ∈ second, event.2.reserves = false
  complete : loop.Over → settings.shutdownTimeout = none → loop.inFlight = []
  abandoned : loop.Over → loop.inFlight ≠ [] →
    ∃ timeout began now, settings.shutdownTimeout = some timeout ∧
      DrainBegan settings events began ∧
      events.getLast? = some (now, .deadline) ∧ began + timeout.asNanos ≤ now
  surfaced : loop.phase = .returned → settings.resilient = false →
    loop.result = match (errorsOf events).head? with
      | some error => .error error
      | none => .ok ()

theorem DrainBegan.unique {began other : Nat} (drain : DrainBegan settings events began)
    (drain' : DrainBegan settings events other) : began = other := by
  obtain ⟨first, event, rest, draining, split, before, run, reached⟩ := drain
  obtain ⟨first', event', rest', draining', split', before', run', reached'⟩ := drain'
  rw [split] at split'
  rcases append_eq_append_iff.mp split' with ⟨more, rfl, tail⟩ | ⟨more, rfl, tail⟩
  · cases more with
    | nil =>
      cases tail
      rfl
    | cons entry more =>
      cases tail
      exact absurd reached (before' (first ++ [(began, event)]) more draining (by simp) run)
  · cases more with
    | nil =>
      cases tail
      rfl
    | cons entry more =>
      cases tail
      exact absurd reached' (before (first' ++ [(other, event')]) more draining' (by simp) run')

/-- A drain whose deadline cannot be computed is the end of the run. -/
theorem panicked_of_overflow (run : (runAutomaton settings).Runs events loop) {timeout : Duration}
    {began : Nat} (timed : settings.shutdownTimeout = some timeout)
    (drain : DrainBegan settings events began) (large : instantEnd ≤ began + timeout.asNanos) :
    loop.phase = .panicked := by
  obtain ⟨first, event, rest, draining, split, before, reached, begun⟩ := drain
  obtain ⟨placed, _, drained⟩ := held_of_runs reached
  have here : DrainBegan settings (first ++ [(began, event)]) began :=
    ⟨first, event, [], draining, rfl, before, reached, begun⟩
  have phase : draining.phase = .panicked := by
    rcases begun with ⟨deadline, phase⟩ | panicked
    · unfold Placed at placed
      rw [phase] at placed
      cases deadline with
      | none => cases timed.symm.trans (placed.2.2 rfl)
      | some date =>
        obtain ⟨timeout', began', timed', drain', rfl, fits⟩ :=
          drained.fixed date (placed.2.1 date rfl)
        cases timed.symm.trans timed'
        cases here.unique drain'
        omega
    · exact panicked
  cases rest with
  | nil =>
    rw [split] at run
    rw [run.unique reached]
    exact phase
  | cons entry rest =>
    have whole : events = ((first ++ [(began, event)]) ++ [entry]) ++ rest := by simp [split]
    rw [whole] at run
    obtain ⟨after, later⟩ := runs_of_append run
    obtain ⟨last, earlier, taken⟩ := of_runs_concat later
    rw [← earlier.unique reached] at phase
    exact absurd phase (not_panicked_of_step taken)

/-- **`Worker::run` is safe exactly when the deadline of its drain can be
computed**, whatever the settings and the events, in every state it reaches. -/
theorem run_safe_iff (settings : LoopSettings) (events : List (Nat × RunEvent)) (loop : RunLoop)
    (run : (runAutomaton settings).Runs events loop) :
    RunSafety settings events loop ↔ ∀ timeout began, settings.shutdownTimeout = some timeout →
      DrainBegan settings events began → began + timeout.asNanos < instantEnd := by
  obtain ⟨placed, tallied, drained⟩ := held_of_runs run
  constructor
  · intro safe timeout began timed drain
    by_contra large
    have panicked := panicked_of_overflow run timed drain (Nat.le_of_not_lt large)
    obtain ⟨_, _, event, _, _, _, last, early⟩ := drained.overflow panicked
    unfold Placed at placed
    rw [panicked] at placed
    obtain ⟨_, _, now, _, _, expired, _⟩ := safe.abandoned (.inr panicked) placed.2
    rw [last] at expired
    cases expired
    cases early
  · intro representable
    have returned : loop.Over → loop.phase = .returned := by
      rintro (ended | panicked)
      · exact ended
      · obtain ⟨timeout, began, _, timed, drain, large, _⟩ := drained.overflow panicked
        exact absurd (representable timeout began timed drain) (Nat.not_lt_of_le large)
    refine ⟨tallied.bounded, ?_, ?_, ?_, ?_, ?_⟩
    · rw [← tallied.spawned]
      exact tallied.tasks
    · intro first second split seen
      have early := stopped_iff.mpr seen
      refine ⟨?_, reserves_nothing run split early⟩
      intro phase
      unfold Placed at placed
      rw [phase] at placed
      have up := placed.1
      rw [tallied.shuttingDown, split, stopped_append first second early] at up
      cases up
    · intro ended untimed
      rcases drained.left (returned ended) with empty | ⟨date, now, dated, _⟩
      · exact empty
      · obtain ⟨timeout, began, timed, _⟩ := drained.fixed date dated
        rw [untimed] at timed
        cases timed
    · intro ended some
      rcases drained.left (returned ended) with empty | ⟨date, now, dated, last, passed⟩
      · exact absurd empty some
      · obtain ⟨timeout, began, timed, drain, rfl, _⟩ := drained.fixed date dated
        exact ⟨timeout, began, now, timed, drain, last, passed⟩
    · intro _ mode
      rw [RunLoop.result, tallied.firstErr, surfaced, mode]
      rfl

/-- A reserved job. -/
def greeting : Reservation :=
  ⟨⟨⟨⟨1⟩⟩, ⟨"default"⟩, "greet", [], 0, 3, 0, none⟩, ⟨⟨2⟩⟩, 30⟩

/-- One slot, fail-fast. -/
def failFast (timeout : Duration) : LoopSettings :=
  ⟨1, false, .fromNanos 1, .fromNanos 1, some timeout⟩

/-- The shutdown signal comes while the job runs. -/
def stoppedEvents : List (Nat × RunEvent) :=
  [(0, .poll false), (1, .reserved (.ok (some greeting))), (3, .shutdown)]

/-- The job outlives the signal by more than ten nanoseconds. -/
theorem stuck_abandoned : let settings := failFast (.fromNanos 10)
    let events := stoppedEvents ++ [(14, .deadline)]
    let loop : RunLoop := ⟨.returned, [0], 1, true, none, 0, some 13⟩
    (runAutomaton settings).Runs events loop ∧ RunSafety settings events loop := by
  intro settings events loop
  refine ⟨rfl, (run_safe_iff settings events loop rfl).mpr ?_⟩
  rintro timeout began timed ⟨first, event, rest, _, split, _⟩
  cases timed
  have early : ∀ entry ∈ events, entry.1 ≤ 14 := by decide
  have bound := early (began, event) (by rw [split]; simp)
  have enough : 14 + (Duration.fromNanos 10).asNanos < instantEnd := by decide
  exact Nat.lt_of_le_of_lt (Nat.add_le_add_right bound _) enough

/-- `Duration::MAX` from now is no `Instant`: the job is aborted at once. -/
theorem overflow_abandons : let settings := failFast ⟨durationMax, Nat.le_refl _⟩
    let loop : RunLoop := ⟨.panicked, [0], 1, true, none, 0, none⟩
    (runAutomaton settings).Runs stoppedEvents loop ∧
      ¬ RunSafety settings stoppedEvents loop := by
  intro settings loop
  refine ⟨rfl, fun safe => ?_⟩
  obtain ⟨_, _, _, _, _, last, _⟩ := safe.abandoned (.inr rfl) (by decide)
  cases last

/-! ## Resilient mode -/

theorem sinceSignal_split (seen : signalled events = true) :
    ∃ before signal after, events = before ++ signal :: after ∧
      signal.2.signals = true ∧ sinceSignal events = signal :: after := by
  induction events with
  | nil => cases seen
  | cons event rest ih =>
    cases signals : event.2.signals with
    | true => exact ⟨[], event, rest, rfl, signals, by
        simp [sinceSignal, signals]⟩
    | false =>
      have later : signalled rest = true := by
        simpa [signalled, signals] using seen
      obtain ⟨before, signal, after, rfl, found, since⟩ := ih later
      refine ⟨event :: before, signal, after, rfl, found, ?_⟩
      refine Eq.trans ?_ since
      simp [sinceSignal, signals]

theorem errors_since_signal (run : (runAutomaton settings).Runs events loop)
    (seen : signalled events = true) :
    errorsOf (sinceSignal events) = [] ↔ ∀ time task result,
      (time, .joined task result) ∈ sinceSignal events → classifyJoin result = none := by
  obtain ⟨before, signal, after, split, signals, since⟩ := sinceSignal_split seen
  have closed : ∀ event ∈ after, event.2.reserves = false := by
    refine reserves_nothing run (by rw [split]; simp)
      (stopped_iff.mpr (.inl ?_) : stopped settings (before ++ [signal]) = _)
    rw [signalled_concat, signals, Bool.or_true]
  rw [since, errorsOf, filterMap_eq_nil_iff]
  constructor
  · intro quiet time task result member
    exact quiet (time, .joined task result) member
  · rintro quiet ⟨time, event⟩ member
    rcases mem_cons.mp member with rfl | later
    · exact error_of_signals signals
    · have asked := closed _ later
      cases event with
      | poll | shutdown | tick | deadline => rfl
      | reserved answer => cases asked
      | joined task result => exact quiet time task result member

/-- **Resilient mode returns only after the shutdown signal, with `Ok`
exactly when no join after the signal brought an error.** -/
theorem resilient_result (settings : LoopSettings) (events : List (Nat × RunEvent)) (loop : RunLoop)
    (resilient : settings.resilient = true)
    (run : (runAutomaton settings).Runs events loop)
    (ended : loop.phase = .returned) :
    signalled events = true ∧ (loop.result = .ok () ↔ ∀ time task result,
        (time, .joined task result) ∈ sinceSignal events → classifyJoin result = none) := by
  obtain ⟨placed, tallied, _⟩ := held_of_runs run
  have down : loop.shuttingDown = true := by
    unfold Placed at placed
    rw [ended] at placed
    exact placed
  have seen : signalled events = true := by
    rw [tallied.shuttingDown] at down
    simpa [stopped, resilient] using down
  refine ⟨seen, ?_⟩
  rw [← errors_since_signal run seen]
  have kept : loop.firstErr = (errorsOf (sinceSignal events)).head? := by
    rw [tallied.firstErr, Worklane.Facade.surfaced, resilient]
    rfl
  rw [RunLoop.result, kept]
  cases errorsOf (sinceSignal events) with
  | nil => simp
  | cons error rest => simp

def resilientSettings : LoopSettings := ⟨1, true, .fromNanos 1, .fromNanos 1, none⟩

/-- The job is resolved after the shutdown signal. -/
def lateEvents (result : JoinResult) : List (Nat × RunEvent) :=
  [(0, .poll false), (1, .reserved (.ok (some greeting))), (3, .shutdown), (4, .joined 0 result)]

def lateLoop (firstErr : Option Failure) : RunLoop :=
  ⟨.returned, [], 1, true, firstErr, 0, none⟩

/-- The broker refuses the resolution while the worker drains, and resilient
mode returns its error. -/
theorem late_error_surfaces : resilientSettings.resilient = true ∧
      (runAutomaton resilientSettings).Runs
        (lateEvents (.failed (.spi (.broker "connection refused"))))
        (lateLoop (some (.spi (.broker "connection refused")))) ∧
      (lateLoop (some (.spi (.broker "connection refused")))).result =
        .error (.spi (.broker "connection refused")) :=
  ⟨rfl, rfl, rfl⟩

theorem late_finish_resilient : (lateLoop none).result = .ok () ∧
      signalled (lateEvents .finished) = true ∧
      ((lateLoop none).result = .ok () ↔ ∀ time task result,
        (time, .joined task result) ∈ sinceSignal (lateEvents .finished) →
          classifyJoin result = none) :=
  ⟨rfl, resilient_result resilientSettings (lateEvents .finished) (lateLoop none) rfl rfl rfl⟩

end Runs

end Worklane.Facade
