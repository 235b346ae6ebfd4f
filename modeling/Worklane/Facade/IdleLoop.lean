import Worklane.Facade.LoopSafety
import Worklane.Memory.Sweep

/-!
# `Worker::run_until_idle` on the in-memory broker

The fill-and-drain loop as an automaton, together with the broker it drains.
Between the events of the loop, the tasks in flight make any calls they like;
nobody else calls the broker.
-/

namespace Worklane.Facade

open List
open Lib (Automaton)
open Lib.Automaton
open Memory

/-! ## The loop -/

/-- Where the loop waits. -/
inductive IdlePhase where
  | reserving
  | joining
  | returned
  deriving DecidableEq, Repr

/-- The variables of `run_until_idle`. -/
structure IdleLoop where
  phase : IdlePhase
  inFlight : List Nat
  spawned : Nat
  firstErr : Option Failure
  stopReserving : Bool
  deriving DecidableEq, Repr

/-- An error stops the reserving. -/
def IdleLoop.noteError (error : Failure) (loop : IdleLoop) : IdleLoop :=
  { loop with
    firstErr := some (loop.firstErr.getD error)
    stopReserving := true }

def IdleLoop.spawn (loop : IdleLoop) : IdleLoop :=
  { loop with
    inFlight := loop.inFlight ++ [loop.spawned]
    spawned := loop.spawned + 1 }

def IdleLoop.join (task : Nat) (loop : IdleLoop) : IdleLoop :=
  { loop with inFlight := loop.inFlight.erase task }

/-- What follows the fill loop. -/
def IdleLoop.settle (loop : IdleLoop) : IdleLoop :=
  if loop.inFlight.isEmpty then
    { loop with phase := .returned }
  else
    { loop with phase := .joining }

/-- The test of the fill loop. -/
def IdleLoop.fill (settings : LoopSettings) (loop : IdleLoop) : IdleLoop :=
  if !loop.stopReserving && loop.inFlight.length < settings.slots then
    { loop with phase := .reserving }
  else
    loop.settle

/-- An answer of `reserve`. -/
def IdleLoop.answered (settings : LoopSettings) (loop : IdleLoop) :
    Except Failure (Option Reservation) → IdleLoop
  | .ok (some _) => loop.spawn.fill settings
  | .ok none => loop.settle
  | .error error => (loop.noteError error).settle

/-- A finished task. -/
def IdleLoop.joined (settings : LoopSettings) (loop : IdleLoop) (task : Nat)
    (result : JoinResult) : IdleLoop :=
  match classifyJoin result with
  | some error => ((loop.join task).noteError error).fill settings
  | none => (loop.join task).fill settings

/-- What `run_until_idle` returns. -/
def IdleLoop.result (loop : IdleLoop) : Except Failure Unit :=
  match loop.firstErr with
  | some error => .error error
  | none => .ok ()

/-! ## The loop and its broker -/

structure IdleSystem where
  loop : IdleLoop
  broker : Inner

inductive IdleEvent where
  /-- The loop reserves. -/
  | reserve (now : Nat) (mint : ReservationReceipt)
  /-- A task in flight calls the broker. -/
  | call (task : Nat) (input : Input)
  | joined (task : Nat) (result : JoinResult)

/-- The answer of `reserve` as the loop reads it. -/
def reservedOf : Reply → Except Failure (Option Reservation)
  | .ok (.reserved reservation) => .ok reservation
  | .ok _ => .ok none
  | .error error => .error (.spi error)

section System

variable (settings : LoopSettings) (config : Config) (lane : Lane)

def IdleSystem.step (system : IdleSystem) : IdleEvent → Option IdleSystem
  | .reserve now mint =>
    if system.loop.phase = .reserving then
      let outcome := Memory.reserve releaseLease config system.broker now mint lane
      some ⟨system.loop.answered settings (reservedOf outcome.reply), outcome.inner⟩
    else
      none
  | .call task input =>
    if task ∈ system.loop.inFlight then
      some { system with
        broker := (perform releaseLease config system.broker input).inner }
    else
      none
  | .joined task result =>
    if system.loop.phase = .joining ∧ task ∈ system.loop.inFlight then
      some { system with loop := system.loop.joined settings task result }
    else
      none

def idleAutomaton (broker : Inner) : Automaton IdleSystem IdleEvent where
  initial := ⟨IdleLoop.fill settings ⟨.reserving, [], 0, none, false⟩, broker⟩
  step := IdleSystem.step settings config lane

end System

def IdleEvent.task : IdleEvent → Option Nat
  | .joined task _ => some task
  | _ => none

/-- The tasks joined so far. -/
def tasksJoined (events : List IdleEvent) : List Nat :=
  events.filterMap IdleEvent.task

@[simp]
theorem tasksJoined_concat (past : List IdleEvent) (event : IdleEvent) :
    tasksJoined (past ++ [event]) = tasksJoined past ++ event.task.toList := by
  cases found : event.task <;> simp [tasksJoined, found]

/-! ## Its invariant -/

/-- What holds of the variables where the loop waits. -/
structure IdleLoop.Placed (loop : IdleLoop) : Prop where
  reserving : loop.phase = .reserving → loop.firstErr = none
  joining : loop.phase = .joining → loop.inFlight ≠ []
  returned : loop.phase = .returned → loop.inFlight = []
  stopped : loop.stopReserving = loop.firstErr.isSome

/-- Every task that was spawned is in flight or has been joined. -/
def IdleLoop.Tallied (joined : List Nat) (loop : IdleLoop) : Prop :=
  (loop.inFlight ++ joined).Perm (List.range loop.spawned)

section Loop

variable {settings : LoopSettings} {loop : IdleLoop} {joined : List Nat}

theorem placed_settle (stopped : loop.stopReserving = loop.firstErr.isSome) :
    loop.settle.Placed := by
  unfold IdleLoop.settle
  split
  · rename_i empty
    exact ⟨fun phase => (by cases phase), fun phase => (by cases phase),
      fun _ => isEmpty_iff.mp empty, stopped⟩
  · rename_i some
    exact ⟨fun phase => (by cases phase),
      fun _ empty => some (isEmpty_iff.mpr empty),
      fun phase => (by cases phase), stopped⟩

theorem placed_fill (stopped : loop.stopReserving = loop.firstErr.isSome) :
    (loop.fill settings).Placed := by
  unfold IdleLoop.fill
  split
  · rename_i free
    simp only [Bool.and_eq_true, Bool.not_eq_true', decide_eq_true_eq,
      stopped, Option.isSome_eq_false_iff, Option.isNone_iff_eq_none]
      at free
    exact ⟨fun _ => free.1, fun phase => (by cases phase),
      fun phase => (by cases phase), stopped⟩
  · exact placed_settle stopped

theorem tallied_settle (tallied : loop.Tallied joined) :
    loop.settle.Tallied joined := by
  unfold IdleLoop.settle
  split <;> exact tallied

theorem tallied_fill (tallied : loop.Tallied joined) : (loop.fill settings).Tallied joined := by
  unfold IdleLoop.fill
  split
  · exact tallied
  · exact tallied_settle tallied

theorem placed_answered (placed : loop.Placed) (answer : Except Failure (Option Reservation)) :
    (loop.answered settings answer).Placed := by
  match answer with
  | .ok (some _) => exact placed_fill placed.stopped
  | .ok none => exact placed_settle placed.stopped
  | .error _ => exact placed_settle rfl

theorem tallied_answered (tallied : loop.Tallied joined)
    (answer : Except Failure (Option Reservation)) :
    (loop.answered settings answer).Tallied joined := by
  match answer with
  | .ok (some _) =>
    refine tallied_fill ?_
    simp only [IdleLoop.Tallied, IdleLoop.spawn, range_succ, append_assoc]
    refine (perm_append_comm.append_left _).trans ?_
    rw [← append_assoc]
    exact tallied.append_right _
  | .ok none => exact tallied_settle tallied
  | .error _ => exact tallied_settle tallied

theorem placed_joined (placed : loop.Placed) (task : Nat)
    (result : JoinResult) : (loop.joined settings task result).Placed := by
  unfold IdleLoop.joined
  split
  · exact placed_fill rfl
  · exact placed_fill placed.stopped

theorem tallied_joined (tallied : loop.Tallied joined) {task : Nat}
    (member : task ∈ loop.inFlight) (result : JoinResult) :
    (loop.joined settings task result).Tallied (joined ++ [task]) := by
  unfold IdleLoop.joined
  split
  · exact tallied_fill ((perm_join member).trans tallied)
  · exact tallied_fill ((perm_join member).trans tallied)

theorem firstErr_settle : loop.settle.firstErr = loop.firstErr := by
  unfold IdleLoop.settle
  split <;> rfl

theorem firstErr_fill : (loop.fill settings).firstErr = loop.firstErr := by
  unfold IdleLoop.fill
  split
  · rfl
  · exact firstErr_settle

/-- With nothing in flight there is a free slot, so the fill loop returns only
after an error. -/
theorem stopped_of_fill (ended : (loop.fill settings).phase = .returned) :
    loop.stopReserving = true := by
  by_contra going
  rw [Bool.not_eq_true] at going
  unfold IdleLoop.fill at ended
  split at ended
  · cases ended
  · rename_i full
    unfold IdleLoop.settle at ended
    split at ended
    · rename_i empty
      have none : loop.inFlight = [] := isEmpty_iff.mp empty
      refine full ?_
      simp [going, none, LoopSettings.slots]
    · cases ended

end Loop

/-! ## Its runs -/

section Runs

variable {settings : LoopSettings} {config : Config} {lane : Lane}
  {broker : Inner} {events : List IdleEvent} {system : IdleSystem}

theorem idle_held (run : (idleAutomaton settings config lane broker).Runs events system) :
    system.loop.Placed ∧ system.loop.Tallied (tasksJoined events) := by
  refine @Runs.invariant _ _ _ events system (fun events system => system.loop.Placed ∧
      system.loop.Tallied (tasksJoined events)) ?_ ?_ run
  · exact ⟨placed_fill rfl, tallied_fill (.refl _)⟩
  · rintro past event before next _ taken ⟨placed, tallied⟩
    rw [tasksJoined_concat]
    simp only [idleAutomaton, IdleSystem.step] at taken
    split at taken
    · split at taken
      · cases taken
        rw [IdleEvent.task, Option.toList_none, append_nil]
        · exact ⟨placed_answered placed _, tallied_answered tallied _⟩
        · nofun
      · cases taken
    · split at taken
      · cases taken
        rw [IdleEvent.task, Option.toList_none, append_nil]
        · exact ⟨placed, tallied⟩
        · nofun
      · cases taken
    · rename_i task result
      split at taken
      · rename_i allowed
        cases taken
        exact ⟨placed_joined placed _ _, tallied_joined tallied allowed.2 _⟩
      · cases taken

theorem returned_by_reserve {before : IdleSystem} {event : IdleEvent} (placed : before.loop.Placed)
    (taken : before.step settings config lane event = some system)
    (ended : system.loop.phase = .returned)
    (fine : system.loop.firstErr = none) :
    ∃ now mint, event = .reserve now mint ∧
      (Memory.reserve releaseLease config before.broker now mint
        lane).reply = .ok (.reserved none) ∧
      system.broker = (Memory.reserve releaseLease config before.broker now mint lane).inner := by
  have going : ∀ {stop : Bool} {error : Option Failure},
      stop = error.isSome → error = none → ¬ stop = true := by
    rintro stop error rfl rfl
    exact Bool.false_ne_true
  cases event with
  | reserve now mint =>
    simp only [IdleSystem.step] at taken
    split at taken
    · cases taken
      refine ⟨now, mint, rfl, ?_, rfl⟩
      obtain ⟨_, reply⟩ := reserve_ranked config before.broker now mint lane
      simp only [reply, reservedOf] at ended fine ⊢
      cases handed : (nextInOrder (overBound config) maxDeadLetterSweep
          (laneOrder before.broker lane now)).map (handOut config mint) with
      | none => rfl
      | some reservation =>
        rw [handed] at ended fine
        have error : before.loop.spawn.firstErr = none := firstErr_fill.symm.trans fine
        exact absurd (stopped_of_fill ended) (going placed.stopped error)
    · cases taken
  | call task input =>
    simp only [IdleSystem.step] at taken
    split at taken
    · rename_i member
      cases taken
      rw [placed.returned ended] at member
      cases member
    · cases taken
  | joined task result =>
    simp only [IdleSystem.step] at taken
    split at taken
    · cases taken
      simp only [IdleLoop.joined] at ended fine
      split at ended
      · rename_i error failure
        simp only [failure] at fine
        cases firstErr_fill.symm.trans fine
      · rename_i quiet
        simp only [quiet] at fine
        have error : (before.loop.join task).firstErr = none := firstErr_fill.symm.trans fine
        exact absurd (stopped_of_fill ended) (going placed.stopped error)
    · cases taken

/-- **What `run_until_idle` has reached when it returns `Ok`**, from every
broker state and under every configuration: it reserved last of all and has
joined every task, and the lane then holds no visible job exactly when that
reserve's sweep did not fall short. -/
theorem idle_reached (settings : LoopSettings) (config : Config)
    (lane : Lane) (broker : Inner) (events : List IdleEvent)
    (system : IdleSystem)
    (run : (idleAutomaton settings config lane broker).Runs events system)
    (ended : system.loop.phase = .returned)
    (fine : system.loop.result = .ok ()) :
    system.loop.inFlight = [] ∧ (tasksJoined events).Perm (List.range system.loop.spawned) ∧
      ∃ past before now mint, events = past ++ [.reserve now mint] ∧
        (idleAutomaton settings config lane broker).Runs past before ∧
        ((∀ stored ∈ system.broker.jobs, ¬ Available lane now stored) ↔
          ¬ SweepFallsShort config before.broker lane now) ∧
        ((∀ stored ∈ before.broker.jobs, ¬ Available lane now stored) ↔ leading (overBound config)
            (laneOrder before.broker lane now) = []) := by
  obtain ⟨placed, tallied⟩ := idle_held run
  have empty := placed.returned ended
  have quiet : system.loop.firstErr = none := by
    unfold IdleLoop.result at fine
    split at fine
    · cases fine
    · assumption
  refine ⟨empty, ?_, ?_⟩
  · rw [IdleLoop.Tallied, empty, nil_append] at tallied
    exact tallied
  · rcases eq_nil_or_concat events with rfl | ⟨past, event, rfl⟩
    · rw [of_runs_nil run] at ended
      cases stopped_of_fill ended
    · rw [concat_eq_append] at run ⊢
      obtain ⟨before, earlier, taken⟩ := of_runs_concat run
      obtain ⟨now, mint, rfl, reply, after⟩ :=
        returned_by_reserve (idle_held earlier).1 taken ended quiet
      obtain ⟨left, found⟩ := reserve_empty reply
      refine ⟨past, before, now, mint, rfl, earlier, ?_, found⟩
      rw [after]
      exact left

theorem idle_at_once {now : Nat} {mint : ReservationReceipt}
    (empty : (Memory.reserve releaseLease config broker now mint
      lane).reply = .ok (.reserved none)) :
    (idleAutomaton settings config lane broker).Runs [.reserve now mint]
      ⟨⟨.returned, [], 0, none, false⟩, (Memory.reserve releaseLease config
        broker now mint lane).inner⟩ := by
  have start : IdleLoop.fill settings ⟨.reserving, [], 0, none, false⟩ =
      ⟨.reserving, [], 0, none, false⟩ := by
    simp [IdleLoop.fill, LoopSettings.slots]
  simp only [Lib.Automaton.Runs, foldlM_cons, foldlM_nil, idleAutomaton, start,
    IdleSystem.step, if_true, empty]
  rfl

/-- One healthy job behind as many over-delivered ones as a sweep takes. -/
def backlog : Inner :=
  { Inner.empty with
    jobs := (List.range 129).map fun place =>
      ⟨⟨⟨⟨place⟩⟩, ⟨"mail"⟩, "send", [], 0, 3, 0, none⟩, 0, none, none, none,
        if place < 128 then 1 else 0⟩ }

def sweepConfig : Config := ⟨30, ⟨none, none⟩, some 1⟩

def backlogAfter : Inner :=
  (Memory.reserve releaseLease sweepConfig backlog 5 ⟨⟨9⟩⟩ ⟨"mail"⟩).inner

/-- The only reserve stops at the end of its sweep, and the call returns `Ok`
with a healthy job visible on the lane. -/
theorem backlog_left : (idleAutomaton (failFast (.fromNanos 10)) sweepConfig ⟨"mail"⟩ backlog).Runs
        [.reserve 5 ⟨⟨9⟩⟩] ⟨⟨.returned, [], 0, none, false⟩, backlogAfter⟩ ∧
      ∃ stored ∈ backlogAfter.jobs, stored.deliveries = 0 ∧ Available ⟨"mail"⟩ 5 stored := by
  have outcome : ((Memory.reserve releaseLease sweepConfig backlog 5 ⟨⟨9⟩⟩
      ⟨"mail"⟩).reply, backlogAfter.jobs) = (.ok (.reserved none),
        [⟨⟨⟨⟨128⟩⟩, ⟨"mail"⟩, "send", [], 0, 3, 0, none⟩, 0, none, none, none, 0⟩]) := by
    decide +kernel
  obtain ⟨empty, left⟩ := Prod.mk.inj outcome
  refine ⟨idle_at_once empty, ?_⟩
  rw [left]
  exact ⟨_, mem_singleton_self _, rfl, rfl, Nat.zero_le _, nofun⟩

/-- One over-delivered job. -/
def poison : Inner :=
  { Inner.empty with
    jobs := [⟨⟨⟨⟨1⟩⟩, ⟨"mail"⟩, "send", [], 0, 3, 0, none⟩, 0, none, none, none, 1⟩] }

/-- The sweep takes it, and the lane is idle. -/
theorem poison_idle : (Memory.reserve releaseLease sweepConfig poison 5 ⟨⟨9⟩⟩
      ⟨"mail"⟩).reply = .ok (.reserved none) ∧
    ∀ stored ∈ (Memory.reserve releaseLease sweepConfig poison 5 ⟨⟨9⟩⟩
      ⟨"mail"⟩).inner.jobs, ¬ Available ⟨"mail"⟩ 5 stored := by
  have empty : (Memory.reserve releaseLease sweepConfig poison 5 ⟨⟨9⟩⟩
      ⟨"mail"⟩).reply = .ok (.reserved none) := by
    decide +kernel
  obtain ⟨_, _, past, before, now, mint, events, earlier, idle, _⟩ :=
    idle_reached (failFast (.fromNanos 10)) sweepConfig ⟨"mail"⟩ poison
      [.reserve 5 ⟨⟨9⟩⟩] _ (idle_at_once empty) rfl rfl
  refine ⟨empty, ?_⟩
  cases past with
  | nil =>
    cases events
    rw [of_runs_nil earlier] at idle
    exact idle.mpr (by decide +kernel)
  | cons event rest => simp at events

end Runs

end Worklane.Facade
