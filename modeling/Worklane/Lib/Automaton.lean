import Mathlib.Data.List.Induction
import Mathlib.Tactic.Common

/-!
# Automata that react to events

An automaton moves only on the events its state expects.  A run is the list of
the events it has taken, so a property of whole runs is proved by adding one
event at the end.
-/

namespace Lib

universe u v

/-- An initial state and the move each expected event makes. -/
structure Automaton (State : Type u) (Event : Type v) where
  initial : State
  step : State → Event → Option State

namespace Automaton

variable {State : Type u} {Event : Type v}
variable (automaton : Automaton State Event)

/-- The events lead from the initial state to this one. -/
def Runs (events : List Event) (state : State) : Prop :=
  events.foldlM automaton.step automaton.initial = some state

variable {automaton} {past events : List Event} {event : Event} {state : State}

theorem of_runs_nil (run : automaton.Runs [] state) : state = automaton.initial :=
  (Option.some.inj run).symm

theorem Runs.concat {before : State} (run : automaton.Runs past before)
    (taken : automaton.step before event = some state) :
    automaton.Runs (past ++ [event]) state := by
  simp only [Runs, List.foldlM_append] at run ⊢
  rw [run]
  simpa using taken

theorem of_runs_concat (run : automaton.Runs (past ++ [event]) state) :
    ∃ before, automaton.Runs past before ∧ automaton.step before event = some state := by
  simp only [Runs, List.foldlM_append, Option.bind_eq_bind, Option.bind_eq_some_iff] at run
  obtain ⟨before, earlier, later⟩ := run
  exact ⟨before, earlier, by simpa using later⟩

theorem runs_of_append {later : List Event} (run : automaton.Runs (past ++ later) state) :
    ∃ before, automaton.Runs past before := by
  simp only [Runs, List.foldlM_append, Option.bind_eq_bind, Option.bind_eq_some_iff] at run
  obtain ⟨before, earlier, _⟩ := run
  exact ⟨before, earlier⟩

theorem Runs.unique {other : State} (run : automaton.Runs events state)
    (same : automaton.Runs events other) : state = other :=
  Option.some.inj (run.symm.trans same)

/-- The invariant rule.  The invariant may speak about the events so far. -/
theorem Runs.invariant {invariant : List Event → State → Prop}
    (start : invariant [] automaton.initial)
    (preserved : ∀ past event before next, automaton.Runs past before →
      automaton.step before event = some next → invariant past before →
      invariant (past ++ [event]) next)
    (run : automaton.Runs events state) : invariant events state := by
  induction events using List.reverseRecOn generalizing state with
  | nil =>
    rw [of_runs_nil run]
    exact start
  | append_singleton past event ih =>
    obtain ⟨before, earlier, taken⟩ := of_runs_concat run
    exact preserved past event before state earlier taken (ih earlier)

end Automaton

end Lib
