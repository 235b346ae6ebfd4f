import Mathlib.Data.List.Forall2
import Mathlib.Data.List.Induction
import Mathlib.Tactic.Common

/-!
# Deterministic machines and their runs

A machine reads one input at a time, moves to the next state and answers.
A run is described by the list of inputs it has read, so a property of whole
runs is proved by adding one input at the end: the hypotheses on the inputs
(freshness, clocks that never decrease, ...) are inherited by every prefix.
-/

namespace Lib

open List

universe u v w

/-- An initial state and a total step function that also answers. -/
structure Machine (State : Type u) (Input : Type v) (Reply : Type w) where
  initial : State
  step : State → Input → State × Reply

namespace Machine

variable {State : Type u} {Input : Type v} {Reply : Type w}
variable (machine : Machine State Input Reply)

/-- The state after reading `inputs` from `state`. -/
def runFrom (state : State) (inputs : List Input) : State :=
  inputs.foldl (fun current input => (machine.step current input).1) state

/-- The state after reading `inputs` from the initial state. -/
def run (inputs : List Input) : State :=
  machine.runFrom machine.initial inputs

/-- Inputs paired with their answers, from `state`. -/
def traceFrom : State → List Input → List (Input × Reply)
  | _, [] => []
  | state, input :: rest =>
    (input, (machine.step state input).2) :: traceFrom (machine.step state input).1 rest

/-- Inputs paired with their answers, from the initial state. -/
def trace (inputs : List Input) : List (Input × Reply) :=
  machine.traceFrom machine.initial inputs

/-- The inputs of a run with the state each one was read in. -/
def stepsFrom : State → List Input → List (State × Input)
  | _, [] => []
  | state, input :: rest =>
    (state, input) :: stepsFrom (machine.step state input).1 rest

def steps (inputs : List Input) : List (State × Input) :=
  machine.stepsFrom machine.initial inputs

/-- The answers along a run. -/
def replies (inputs : List Input) : List Reply :=
  (machine.trace inputs).map Prod.snd

@[simp]
theorem run_nil : machine.run [] = machine.initial := rfl

@[simp]
theorem run_concat (inputs : List Input) (input : Input) : machine.run (inputs ++ [input]) =
      (machine.step (machine.run inputs) input).1 := by
  simp [run, runFrom]

theorem traceFrom_append (state : State) (first second : List Input) :
    machine.traceFrom state (first ++ second) = machine.traceFrom state first ++
        machine.traceFrom (machine.runFrom state first) second := by
  induction first generalizing state with
  | nil => rfl
  | cons input rest ih =>
    simp only [cons_append, traceFrom, runFrom, foldl_cons]
    rw [ih]
    rfl

theorem stepsFrom_append (state : State) (first second : List Input) :
    machine.stepsFrom state (first ++ second) = machine.stepsFrom state first ++
        machine.stepsFrom (machine.runFrom state first) second := by
  induction first generalizing state with
  | nil => rfl
  | cons input rest ih =>
    simp only [cons_append, stepsFrom, runFrom, foldl_cons]
    rw [ih]
    rfl

theorem steps_append (first second : List Input) : machine.steps (first ++ second) =
      machine.steps first ++ machine.stepsFrom (machine.run first) second :=
  machine.stepsFrom_append machine.initial first second

@[simp]
theorem steps_concat (inputs : List Input) (input : Input) : machine.steps (inputs ++ [input]) =
      machine.steps inputs ++ [(machine.run inputs, input)] := by
  simp [steps, stepsFrom_append, run, stepsFrom]

@[simp]
theorem trace_concat (inputs : List Input) (input : Input) : machine.trace (inputs ++ [input]) =
      machine.trace inputs ++ [(input, (machine.step (machine.run inputs) input).2)] := by
  simp [trace, traceFrom_append, run, traceFrom]

theorem trace_inputs (inputs : List Input) : (machine.trace inputs).map Prod.fst = inputs := by
  induction inputs using List.reverseRecOn with
  | nil => rfl
  | append_singleton past input ih =>
    rw [trace_concat, map_append, ih]
    rfl

@[simp]
theorem replies_concat (inputs : List Input) (input : Input) : machine.replies (inputs ++ [input]) =
      machine.replies inputs ++ [(machine.step (machine.run inputs) input).2] := by
  simp [replies]

/-- A condition on input lists that every prefix inherits. -/
def PrefixClosed (admissible : List Input → Prop) : Prop :=
  ∀ past input, admissible (past ++ [input]) → admissible past

/-- The invariant rule for runs.  The invariant may speak about the inputs
read so far, and each step may use that they were admissible. -/
theorem run_invariant {admissible : List Input → Prop} {invariant : List Input → State → Prop}
    (closed : PrefixClosed admissible)
    (start : invariant [] machine.initial)
    (preserved : ∀ past input, admissible (past ++ [input]) → invariant past (machine.run past) →
      invariant (past ++ [input]) (machine.step (machine.run past) input).1)
    (inputs : List Input) (allowed : admissible inputs) :
    invariant inputs (machine.run inputs) := by
  induction inputs using List.reverseRecOn with
  | nil => exact start
  | append_singleton past input ih =>
    rw [run_concat]
    exact preserved past input allowed (ih (closed past input allowed))

/-- The simulation rule.  If related states that runs lead to answer related
inputs with related replies and stay related, whole runs answer with related
replies. -/
theorem replies_of_simulation {State' : Type u} {Input' : Type v} {Reply' : Type w}
    (other : Machine State' Input' Reply')
    {admissible : List Input → Prop}
    (translate : Input → Input')
    (related : List Input → State → State' → Prop)
    (agree : Input → Reply → Reply' → Prop)
    (closed : PrefixClosed admissible)
    (start : related [] machine.initial other.initial)
    (simulated : ∀ past input, admissible (past ++ [input]) →
      related past (machine.run past) (other.run (past.map translate)) →
      related (past ++ [input]) (machine.step (machine.run past) input).1
        (other.step (other.run (past.map translate)) (translate input)).1 ∧
      agree input (machine.step (machine.run past) input).2
        (other.step (other.run (past.map translate)) (translate input)).2)
    (inputs : List Input) (allowed : admissible inputs) :
    related inputs (machine.run inputs) (other.run (inputs.map translate)) ∧
      List.Forall₂ (fun entry reply => agree entry.1 entry.2 reply)
        (machine.trace inputs) (other.replies (inputs.map translate)) := by
  induction inputs using List.reverseRecOn with
  | nil => exact ⟨start, List.Forall₂.nil⟩
  | append_singleton past input ih =>
    obtain ⟨held, agreed⟩ := ih (closed past input allowed)
    obtain ⟨next, answer⟩ := simulated past input allowed held
    simp only [map_append, map_cons, map_nil, run_concat, trace_concat, replies_concat]
    exact ⟨next, rel_append agreed (List.Forall₂.cons answer List.Forall₂.nil)⟩

end Machine

end Lib
