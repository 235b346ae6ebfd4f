import Mathlib
import Worklane.Core.Spi
import Worklane.Lib.Automaton

/-!
# `Scheduler::run`

The daemon of `worklane-scheduler`, as an automaton whose events are what it
awaits: clock readings, the end of a sleep, the answer of the store and the
shutdown signal.  Instants are nanoseconds since the epoch.  The log keeps
every occurrence the scheduler attempts, with the readings around it.
-/

namespace Worklane.Scheduler

/-- A parsed cron expression in its timezone: its occurrences, and the iterator
that returns the least one strictly after its argument. -/
structure Cron where
  occurrence : Nat → Int
  increasing : StrictMono occurrence
  after : Int → Int
  least : ∀ time, IsLeast {other ∈ Set.range occurrence | time < other} (after time)

def Cron.times (cron : Cron) : Set Int := Set.range cron.occurrence

structure ScheduleEntry where
  id : String
  cron : Cron
  lane : Lane
  kind : String
  payload : List UInt8
  maxAttempts : Nat
  dedup : Bool

/-- `Scheduler`; without a hook, `preDispatch` is the identity. -/
structure Settings where
  entries : List ScheduleEntry
  resilient : Bool
  preDispatch : NewJob → NewJob

/-- What `fire` asks of `enqueue_scheduled`. -/
structure Request where
  scheduleId : String
  timestamp : Int
  job : NewJob
  deriving DecidableEq

/-- A call of `fire`: the entry and the loop pass it is made for, the reading
of that pass, and the reading once it has completed. -/
structure Attempt where
  entry : Nat
  pass : Nat
  now : Int
  occurrence : Int
  request : Request
  after : Option Int
  deriving DecidableEq

inductive Phase where
  /-- Before the first reading. -/
  | starting
  /-- Without entries there is nothing to do but wait for the shutdown. -/
  | idle
  /-- At the top of the loop, before the reading that gives the wait. -/
  | waiting
  | sleeping (wait : Nat)
  | woken
  /-- An entry is due and about to be fired. -/
  | due (now : Int) (index : Nat)
  | firing (now : Int) (index : Nat)
  /-- The fire has completed; its cursor is advanced at the next reading. -/
  | fired (now : Int) (index : Nat)
  | ended (result : Except Error Unit)

inductive Event where
  | clock (time : Int)
  /-- A reading out of range. -/
  | clockFailed
  | slept
  | shutdown
  /-- `fire` is called; `NewJob::new` draws the id. -/
  | dispatch (id : JobId)
  /-- `enqueue_scheduled` answers. -/
  | answered (result : Except Error Bool)

structure State where
  phase : Phase
  cursors : Nat → Int
  pass : Nat
  /-- The last reading. -/
  last : Option Int
  completed : List Attempt
  /-- The fire in progress. -/
  pending : Option Attempt

/-- Every attempt so far. -/
def State.log (state : State) : List Attempt := state.completed ++ state.pending.toList

/-- The attempts of an entry. -/
def attemptsOf (index : Nat) (log : List Attempt) : List Attempt :=
  log.filter fun attempt => attempt.entry = index

def clockText : String := "clock time is out of range for scheduling"

/-- One millisecond. -/
def minWait : Nat := 10 ^ 6

section Run

variable (settings : Settings)

/-- The request of `fire`; `timestamp` is in whole seconds. -/
def Settings.request (entry : ScheduleEntry) (occurrence : Int) (id : JobId) : Request :=
  let timestamp := occurrence / 10 ^ 9
  let job : NewJob :=
    { id := id
      lane := entry.lane
      kind := entry.kind
      payload := entry.payload
      maxAttempts := entry.maxAttempts
      delay := 0
      uniqueKey := if entry.dedup then some s!"{entry.id}:{timestamp}" else none
      priority := 0
      traceContext := none }
  ⟨entry.id, timestamp, settings.preDispatch job⟩

/-- `next_after` for the entry at an index. -/
def Settings.nextAfter (index : Nat) (time : Int) : Int :=
  match settings.entries[index]? with
  | some entry => entry.cron.after time
  | none => time

/-- The `for` loop over the entries from `index` on, up to the next one that
is due. -/
def Settings.scan (cursors : Nat → Int) (now : Int) (index : Nat) : Phase :=
  match (List.range' index (settings.entries.length - index)).find? fun i => cursors i ≤ now with
  | some next => .due now next
  | none => .waiting

/-- The time until the earliest cursor, but at least `minWait`. -/
def Settings.wait (cursors : Nat → Int) (now : Int) : Nat :=
  match ((List.range settings.entries.length).map cursors).min? with
  | some earliest => max (earliest - now).toNat minWait
  | none => minWait

/-- What a reading does.  Readings never go back. -/
def Settings.read (state : State) (time : Int) : Option State :=
  if state.last.any (time < ·) then
    none
  else
    let state := { state with last := some time }
    match state.phase with
    | .starting =>
      some { state with phase := .waiting, cursors := fun i => settings.nextAfter i time }
    | .waiting => some { state with phase := .sleeping (settings.wait state.cursors time) }
    | .woken =>
      some
        { state with
          phase := settings.scan state.cursors time 0
          pass := state.pass + 1 }
    | .fired now index =>
      let cursors := Function.update state.cursors index (settings.nextAfter index time)
      some
        { state with
          phase := settings.scan cursors now (index + 1)
          cursors := cursors
          completed := state.completed ++
            state.pending.toList.map fun attempt => { attempt with after := some time }
          pending := none }
    | _ => none

/-- The body of `run` from one await point to the next. -/
def Settings.step (state : State) : Event → Option State
  | .clock time => settings.read state time
  | .clockFailed =>
    match state.phase with
    | .starting | .waiting | .woken | .fired _ _ =>
      some { state with phase := .ended (.error (.broker clockText)) }
    | _ => none
  | .slept =>
    match state.phase with
    | .sleeping _ => some { state with phase := .woken }
    | _ => none
  | .shutdown =>
    match state.phase with
    | .idle | .sleeping _ => some { state with phase := .ended (.ok ()) }
    | _ => none
  | .dispatch id =>
    match state.phase with
    | .due now index =>
      match settings.entries[index]? with
      | some entry =>
        let occurrence := state.cursors index
        some
          { state with
            phase := .firing now index
            pending := some ⟨index, state.pass, now, occurrence,
              settings.request entry occurrence id, none⟩ }
      | none => none
    | _ => none
  | .answered result =>
    match state.phase with
    | .firing now index =>
      match result with
      | .ok _ => some { state with phase := .fired now index }
      | .error failure =>
        if settings.resilient then
          some { state with phase := .fired now index }
        else
          some { state with phase := .ended (.error failure) }
    | _ => none

/-- Without entries `run` reads no clock. -/
def Settings.initial : State :=
  ⟨if settings.entries.isEmpty then .idle else .starting, fun _ => 0, 0, none, [], none⟩

/-- `Scheduler::run`. -/
def automaton : Lib.Automaton State Event := ⟨settings.initial, settings.step⟩

end Run

end Worklane.Scheduler
