import Worklane.Core.Backoff
import Worklane.Facade.Effects
import Worklane.Lib.Automaton
import Mathlib.Data.List.TakeWhile

/-!
# `Worker::run`

The loop of a worker as an automaton.  Its states are the points where the
source waits; between two of them it runs on its own.  An event is what it
waits for: the readiness of the shutdown future, an answer of `reserve`, a
finished task, an elapsed timer.  Every event carries the clock reading of the
code that follows it.

Tasks are numbered in the order they are spawned.
-/

namespace Worklane.Facade

open List
open Lib (Automaton)

/-! ## The loop -/

/-- The settings of a `Worker` that its loop reads. -/
structure LoopSettings where
  concurrency : Nat
  resilient : Bool
  pollInterval : Duration
  idleBackoffCap : Duration
  shutdownTimeout : Option Duration
  deriving DecidableEq

/-- `self.concurrency.max(1)`. -/
def LoopSettings.slots (settings : LoopSettings) : Nat :=
  max settings.concurrency 1

/-- An `Instant` counts its seconds in an `i64`; this is the first nanosecond
that it cannot show. -/
def instantEnd : Nat := 2 ^ 63 * 10 ^ 9

/-- `Instant::checked_add`. -/
def checkedAdd (now : Nat) (wait : Duration) : Option Nat :=
  if now + wait.asNanos < instantEnd then some (now + wait.asNanos) else none

/-- The instant `tokio::time::sleep` waits for: thirty years from now when the
sum cannot be shown. -/
def sleepEnd (now : Nat) (wait : Duration) : Nat :=
  (checkedAdd now wait).getD (now + 30 * 365 * 86400 * 10 ^ 9)

/-- `Result<Result<()>, JoinError>`. -/
inductive JoinResult where
  | finished
  | failed (error : Failure)
  | panicked
  | cancelled
  deriving DecidableEq, Repr

/-- `classify_join`. -/
def classifyJoin : JoinResult → Option Failure
  | .finished => none
  | .failed error => some error
  | .panicked => some (.handler "worker task panicked")
  | .cancelled => none

/-- Where the loop waits. -/
inductive RunPhase where
  /-- At the poll of the shutdown future. -/
  | checking
  | reserving
  /-- Nothing in flight, until this instant. -/
  | idling (wake : Nat)
  /-- For a task, until this deadline if there is one. -/
  | draining (deadline : Option Nat)
  /-- For a task, with spare capacity until this instant. -/
  | running (wake : Option Nat)
  | returned
  /-- The deadline of the drain could not be computed.  The future unwinds, and
  the tasks still in flight are aborted with their set. -/
  | panicked
  deriving DecidableEq, Repr

/-- The variables of `run`. -/
structure RunLoop where
  phase : RunPhase
  inFlight : List Nat
  spawned : Nat
  shuttingDown : Bool
  firstErr : Option Failure
  emptyPolls : UInt32
  drainDeadline : Option Nat
  deriving DecidableEq, Repr

inductive RunEvent where
  | poll (ready : Bool)
  | reserved (answer : Except Failure (Option Reservation))
  | shutdown
  | tick
  | joined (task : Nat) (result : JoinResult)
  | deadline

/-- `get_or_insert`. -/
def RunLoop.noteError (error : Failure) (loop : RunLoop) : RunLoop :=
  { loop with firstErr := some (loop.firstErr.getD error) }

/-- `record_error`. -/
def RunLoop.recordError (settings : LoopSettings) (error : Failure) (loop : RunLoop) : RunLoop :=
  if settings.resilient then
    loop
  else
    { loop.noteError error with shuttingDown := true }

def RunLoop.spawn (loop : RunLoop) : RunLoop :=
  { loop with
    emptyPolls := 0
    inFlight := loop.inFlight ++ [loop.spawned]
    spawned := loop.spawned + 1 }

/-- `join_next` took this task out of the set. -/
def RunLoop.join (task : Nat) (loop : RunLoop) : RunLoop :=
  { loop with inFlight := loop.inFlight.erase task }

/-- `empty_polls.saturating_add(1)`. -/
def RunLoop.polledEmpty (loop : RunLoop) : RunLoop :=
  { loop with emptyPolls := .ofNat (saturatingSucc loop.emptyPolls.toNat) }

/-- What follows the fill loop, up to where the source waits. -/
def RunLoop.settle (settings : LoopSettings) (now : Nat) (loop : RunLoop) :
    RunLoop :=
  let wake := sleepEnd now
    (idleWait settings.pollInterval settings.idleBackoffCap loop.emptyPolls)
  if loop.inFlight.isEmpty then
    if loop.shuttingDown then
      { loop with phase := .returned }
    else
      { loop with phase := .idling wake }
  else if loop.shuttingDown then
    match settings.shutdownTimeout with
    | some timeout =>
      -- `Instant::now() + timeout` panics where `checked_add` finds no sum.
      match loop.drainDeadline.or (checkedAdd now timeout) with
      | some deadline =>
        { loop with
          drainDeadline := some deadline
          phase := .draining (some deadline) }
      | none => { loop with phase := .panicked }
    | none => { loop with phase := .draining none }
  else
    let spare := loop.inFlight.length < settings.slots
    { loop with phase := .running (if spare then some wake else none) }

/-- The test of the fill loop. -/
def RunLoop.fill (settings : LoopSettings) (now : Nat) (loop : RunLoop) :
    RunLoop :=
  if !loop.shuttingDown && loop.inFlight.length < settings.slots then
    { loop with phase := .reserving }
  else
    loop.settle settings now

/-- The top of the outer loop. -/
def RunLoop.again (settings : LoopSettings) (now : Nat) (loop : RunLoop) :
    RunLoop :=
  if !loop.shuttingDown then
    { loop with phase := .checking }
  else
    loop.fill settings now

def RunLoop.step (settings : LoopSettings) (loop : RunLoop) : Nat × RunEvent → Option RunLoop
  | (now, event) =>
    match loop.phase, event with
    | .checking, .poll ready =>
      some (RunLoop.fill settings now { loop with shuttingDown := ready })
    | .reserving, .reserved (.ok (some _)) =>
      some (loop.spawn.fill settings now)
    | .reserving, .reserved (.ok none) => some (loop.settle settings now)
    | .reserving, .reserved (.error error) =>
      some ((loop.recordError settings error).settle settings now)
    | .idling _, .shutdown =>
      some (RunLoop.again settings now { loop with shuttingDown := true })
    | .idling wake, .tick =>
      if wake ≤ now then
        some (loop.polledEmpty.again settings now)
      else
        none
    | .draining _, .joined task result =>
      if task ∈ loop.inFlight then
        match classifyJoin result with
        | some error =>
          some (((loop.join task).noteError error).again settings now)
        | none => some ((loop.join task).again settings now)
      else
        none
    | .draining (some deadline), .deadline =>
      if deadline ≤ now then
        some { loop with phase := .returned }
      else
        none
    | .running _, .shutdown =>
      some (RunLoop.again settings now { loop with shuttingDown := true })
    | .running _, .joined task result =>
      if task ∈ loop.inFlight then
        match classifyJoin result with
        | some error =>
          some (((loop.join task).recordError settings error).again settings now)
        | none => some ((loop.join task).again settings now)
      else
        none
    | .running (some wake), .tick =>
      if wake ≤ now then
        some (loop.polledEmpty.again settings now)
      else
        none
    | _, _ => none

def runAutomaton (settings : LoopSettings) : Automaton RunLoop (Nat × RunEvent) where
  initial := RunLoop.again settings 0 ⟨.checking, [], 0, false, none, 0, none⟩
  step := RunLoop.step settings

/-- What `run` returns. -/
def RunLoop.result (loop : RunLoop) : Except Failure Unit :=
  match loop.firstErr with
  | some error => .error error
  | none => .ok ()

/-! ## What the events of a run say -/

/-- The loop sees the shutdown signal. -/
def RunEvent.signals : RunEvent → Bool
  | .poll ready => ready
  | .shutdown => true
  | _ => false

/-- The error of a reserve or of a join. -/
def RunEvent.error : RunEvent → Option Failure
  | .reserved (.error error) => some error
  | .joined _ result => classifyJoin result
  | _ => none

def RunEvent.reserves : RunEvent → Bool
  | .reserved _ => true
  | _ => false

def RunEvent.spawns : RunEvent → Bool
  | .reserved (.ok (some _)) => true
  | _ => false

def RunEvent.task : RunEvent → Option Nat
  | .joined task _ => some task
  | _ => none

/-- The drain deadline has passed. -/
def RunEvent.expires : RunEvent → Bool
  | .deadline => true
  | _ => false

section Readings

variable (events : List (Nat × RunEvent))

def signalled : Bool :=
  events.any fun event => event.2.signals

def errorsOf : List Failure :=
  events.filterMap fun event => event.2.error

def spawnedIn : Nat :=
  events.countP fun event => event.2.spawns

def joinedIn : List Nat :=
  events.filterMap fun event => event.2.task

/-- From the event that brought the shutdown signal on. -/
def sinceSignal : List (Nat × RunEvent) :=
  events.dropWhile fun event => !event.2.signals

end Readings

section Concat

variable (past : List (Nat × RunEvent)) (event : Nat × RunEvent)

@[simp]
theorem signalled_concat : signalled (past ++ [event]) = (signalled past || event.2.signals) := by
  simp [signalled]

@[simp]
theorem errorsOf_concat : errorsOf (past ++ [event]) = errorsOf past ++ event.2.error.toList := by
  cases found : event.2.error <;> simp [errorsOf, found]

@[simp]
theorem spawnedIn_concat : spawnedIn (past ++ [event]) =
      spawnedIn past + if event.2.spawns then 1 else 0 := by
  simp [spawnedIn, countP_append, countP_cons]

@[simp]
theorem joinedIn_concat : joinedIn (past ++ [event]) = joinedIn past ++ event.2.task.toList := by
  cases found : event.2.task <;> simp [joinedIn, found]

theorem sinceSignal_later (seen : signalled past = true) :
    sinceSignal (past ++ [event]) = sinceSignal past ++ [event] := by
  have some : ¬ ∀ entry ∈ past, (!entry.2.signals) = true := by
    intro quiet
    obtain ⟨entry, member, signals⟩ := any_eq_true.mp seen
    have silent := quiet entry member
    rw [signals] at silent
    cases silent
  rw [sinceSignal, dropWhile_append, if_neg]
  · rfl
  · intro gone
    exact some (dropWhile_eq_nil_iff.mp (isEmpty_iff.mp gone))

theorem sinceSignal_early (unseen : signalled past = false) :
    sinceSignal (past ++ [event]) = sinceSignal [event] := by
  have all : ∀ entry ∈ past, (!entry.2.signals) = true := by
    intro entry member
    have silent := any_eq_false.mp unseen entry member
    simpa using silent
  rw [sinceSignal, dropWhile_append, if_pos]
  · rfl
  · exact isEmpty_iff.mpr (dropWhile_eq_nil_iff.mpr all)

end Concat

/-! ## One step -/

section Steps

variable {settings : LoopSettings} {now : Nat} {loop : RunLoop}

/-- What holds of the variables where the loop waits. -/
def Placed (settings : LoopSettings) (loop : RunLoop) : Prop :=
  match loop.phase with
  | .checking => loop.shuttingDown = false
  | .reserving =>
    loop.shuttingDown = false ∧ loop.inFlight.length < settings.slots
  | .idling _ => loop.shuttingDown = false
  | .draining deadline =>
    loop.shuttingDown = true ∧ (∀ date, deadline = some date → loop.drainDeadline = some date) ∧
      (deadline = none → settings.shutdownTimeout = none)
  | .running _ => loop.shuttingDown = false
  | .returned => loop.shuttingDown = true
  | .panicked => loop.shuttingDown = true ∧ loop.inFlight ≠ []

/-- The loop is where it waits for its last tasks, or panicked there. -/
def RunLoop.Draining (loop : RunLoop) : Prop :=
  (∃ deadline, loop.phase = .draining deadline) ∨ loop.phase = .panicked

/-- What the loop does on its own until it waits: it starts no task, ends
none, and sets a deadline at most once. -/
structure Onward (settings : LoopSettings) (now : Nat) (loop next : RunLoop) : Prop where
  inFlight : next.inFlight = loop.inFlight
  spawned : next.spawned = loop.spawned
  shuttingDown : next.shuttingDown = loop.shuttingDown
  firstErr : next.firstErr = loop.firstErr
  placed : Placed settings next
  ended : next.phase = .returned → next.inFlight = []
  dated : next.drainDeadline = loop.drainDeadline ∧ next.phase ≠ .panicked ∨
    loop.drainDeadline = none ∧ ∃ timeout, settings.shutdownTimeout = some timeout ∧
      next.drainDeadline = checkedAdd now timeout ∧ next.Draining ∧
      (next.phase = .panicked ↔ checkedAdd now timeout = none)

theorem onward_settle : Onward settings now loop (loop.settle settings now) := by
  obtain ⟨phase, inFlight, spawned, shuttingDown, firstErr, emptyPolls, drainDeadline⟩ := loop
  unfold RunLoop.settle
  cases inFlight with
  | nil =>
    cases shuttingDown with
    | false => exact ⟨rfl, rfl, rfl, rfl, rfl, by simp, .inl (by simp)⟩
    | true => exact ⟨rfl, rfl, rfl, rfl, rfl, fun _ => rfl, .inl (by simp)⟩
  | cons task rest =>
    cases shuttingDown with
    | false => exact ⟨rfl, rfl, rfl, rfl, rfl, by simp, .inl (by simp)⟩
    | true =>
      cases bound : settings.shutdownTimeout with
      | none =>
        exact ⟨rfl, rfl, rfl, rfl, ⟨rfl, by simp, fun _ => bound⟩, by simp, .inl (by simp)⟩
      | some timeout =>
        cases drainDeadline with
        | some date =>
          exact ⟨rfl, rfl, rfl, rfl, ⟨rfl, fun _ found => found, by simp⟩, by simp, .inl (by simp)⟩
        | none =>
          cases sum : checkedAdd now timeout with
          | some date =>
            refine ⟨by simp [sum], by simp [sum], by simp [sum], by simp [sum], ?_,
              by simp [sum], ?_⟩
            · simp [Placed, sum]
            · exact .inr ⟨rfl, timeout, bound, by simp [sum], .inl ⟨some date, by simp [sum]⟩,
                by simp [sum]⟩
          | none =>
            refine ⟨by simp [sum], by simp [sum], by simp [sum], by simp [sum], ?_,
              by simp [sum], ?_⟩
            · simp [Placed, sum]
            · exact .inr ⟨rfl, timeout, bound, by simp [sum], .inr (by simp [sum]), by simp [sum]⟩

theorem onward_fill : Onward settings now loop (loop.fill settings now) := by
  unfold RunLoop.fill
  split
  · rename_i free
    simp only [Bool.and_eq_true, Bool.not_eq_true', decide_eq_true_eq] at free
    exact ⟨rfl, rfl, rfl, rfl, free, by simp, .inl (by simp)⟩
  · exact onward_settle

theorem onward_again : Onward settings now loop (loop.again settings now) := by
  unfold RunLoop.again
  split
  · rename_i up
    simp only [Bool.not_eq_true'] at up
    exact ⟨rfl, rfl, rfl, rfl, up, by simp, .inl (by simp)⟩
  · exact onward_fill

/-- What an event does to the variables. -/
inductive Effect (settings : LoopSettings) (loop : RunLoop) : RunEvent → RunLoop → Prop
  | poll (ready : Bool) (up : loop.shuttingDown = false) :
      Effect settings loop (.poll ready) { loop with shuttingDown := ready }
  | found (reservation : Reservation) (up : loop.shuttingDown = false)
      (free : loop.inFlight.length < settings.slots) :
      Effect settings loop (.reserved (.ok (some reservation))) loop.spawn
  | empty (up : loop.shuttingDown = false) : Effect settings loop (.reserved (.ok none)) loop
  | refused (error : Failure) (up : loop.shuttingDown = false) :
      Effect settings loop (.reserved (.error error)) (loop.recordError settings error)
  | shutdown (up : loop.shuttingDown = false) :
      Effect settings loop .shutdown { loop with shuttingDown := true }
  | tick (up : loop.shuttingDown = false) : Effect settings loop .tick loop.polledEmpty
  | joined {task : Nat} {result : JoinResult} (member : task ∈ loop.inFlight)
      (quiet : classifyJoin result = none) :
      Effect settings loop (.joined task result) (loop.join task)
  | failed {task : Nat} {result : JoinResult} {error : Failure} (member : task ∈ loop.inFlight)
      (failure : classifyJoin result = some error)
      (up : loop.shuttingDown = false) :
      Effect settings loop (.joined task result) ((loop.join task).recordError settings error)
  | drained {task : Nat} {result : JoinResult} {error : Failure} (member : task ∈ loop.inFlight)
      (failure : classifyJoin result = some error)
      (down : loop.shuttingDown = true) :
      Effect settings loop (.joined task result) ((loop.join task).noteError error)
  | deadline : Effect settings loop .deadline loop

/-- A step is the effect of its event and what the loop then does on its own,
or the deadline ends the run. -/
theorem step_cases {event : RunEvent} {next : RunLoop} (placed : Placed settings loop)
    (taken : loop.step settings (now, event) = some next) :
    (event.expires = false ∧
      ∃ changed, Effect settings loop event changed ∧ Onward settings now changed next) ∨
    (event = .deadline ∧ ∃ date, loop.phase = .draining (some date) ∧
      date ≤ now ∧ next = { loop with phase := .returned }) := by
  simp only [RunLoop.step] at taken
  unfold Placed at placed
  split at taken
  · rename_i ready phase
    rw [phase] at placed
    cases taken
    exact .inl ⟨rfl, _, .poll ready placed, onward_fill⟩
  · rename_i reservation phase
    rw [phase] at placed
    cases taken
    exact .inl ⟨rfl, _, .found reservation placed.1 placed.2, onward_fill⟩
  · rename_i phase
    rw [phase] at placed
    cases taken
    exact .inl ⟨rfl, _, .empty placed.1, onward_settle⟩
  · rename_i error phase
    rw [phase] at placed
    cases taken
    exact .inl ⟨rfl, _, .refused error placed.1, onward_settle⟩
  · rename_i phase
    rw [phase] at placed
    cases taken
    exact .inl ⟨rfl, _, .shutdown placed, onward_again⟩
  · rename_i phase
    rw [phase] at placed
    split at taken
    · cases taken
      exact .inl ⟨rfl, _, .tick placed, onward_again⟩
    · cases taken
  · rename_i task result phase
    rw [phase] at placed
    split at taken
    · rename_i member
      split at taken
      · rename_i error failure
        cases taken
        exact .inl ⟨rfl, _, .drained member failure placed.1, onward_again⟩
      · rename_i quiet
        cases taken
        exact .inl ⟨rfl, _, .joined member quiet, onward_again⟩
    · cases taken
  · rename_i date phase
    split at taken
    · rename_i reached
      cases taken
      exact .inr ⟨rfl, date, phase, reached, rfl⟩
    · cases taken
  · rename_i phase
    rw [phase] at placed
    cases taken
    exact .inl ⟨rfl, _, .shutdown placed, onward_again⟩
  · rename_i task result phase
    rw [phase] at placed
    split at taken
    · rename_i member
      split at taken
      · rename_i error failure
        cases taken
        exact .inl ⟨rfl, _, .failed member failure placed, onward_again⟩
      · rename_i quiet
        cases taken
        exact .inl ⟨rfl, _, .joined member quiet, onward_again⟩
    · cases taken
  · rename_i phase
    rw [phase] at placed
    split at taken
    · cases taken
      exact .inl ⟨rfl, _, .tick placed, onward_again⟩
    · cases taken
  · cases taken

end Steps

end Worklane.Facade
