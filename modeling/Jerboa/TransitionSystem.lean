import Mathlib.Logic.Basic
import Mathlib.Data.List.Basic

/-!
# Labelled transition systems

A system is a set of initial states together with a partial step function on
labels: a label carries every choice the environment makes at a step, so the
step itself is a function and a finite run can be evaluated.
-/

/-- Initial states and a partial, label-driven step. -/
structure TransitionSystem (State Label : Type*) where
  initial : State → Prop
  step : State → Label → Option State

namespace TransitionSystem

variable {State Label : Type*}

/-- States reached from an initial one by steps that all meet `allowed`, a
condition on the state before the step and on its label. -/
inductive ReachableUnder (system : TransitionSystem State Label)
    (allowed : State → Label → Prop) : State → Prop
  | start {state : State} (first : system.initial state) :
      ReachableUnder system allowed state
  | next {state target : State} {label : Label}
      (previous : ReachableUnder system allowed state)
      (permitted : allowed state label)
      (stepped : system.step state label = some target) :
      ReachableUnder system allowed target

def Reachable (system : TransitionSystem State Label) : State → Prop :=
  system.ReachableUnder fun _ _ => True

variable {system : TransitionSystem State Label} {state target : State}

theorem Reachable.start (first : system.initial state) : system.Reachable state :=
  ReachableUnder.start first

theorem Reachable.next {label : Label}
    (previous : system.Reachable state)
    (stepped : system.step state label = some target) :
    system.Reachable target :=
  ReachableUnder.next previous trivial stepped

theorem ReachableUnder.mono {strong weak : State → Label → Prop}
    (implies : ∀ state label, strong state label → weak state label)
    (reached : system.ReachableUnder strong state) :
    system.ReachableUnder weak state := by
  induction reached with
  | start first => exact .start first
  | next previous permitted stepped ih =>
    exact .next ih (implies _ _ permitted) stepped

variable {allowed : State → Label → Prop}

theorem ReachableUnder.of_initial {system wider : TransitionSystem State Label}
    (initial : ∀ state, system.initial state → wider.initial state)
    (step : system.step = wider.step)
    (reached : system.ReachableUnder allowed state) : wider.ReachableUnder allowed state := by
  induction reached with
  | start first => exact .start (initial _ first)
  | next previous permitted stepped ih => exact .next ih permitted (step ▸ stepped)

/-- The invariant rule: what holds initially and is kept by every permitted
step from a reachable state holds in every state reached. -/
theorem ReachableUnder.invariant {property : State → Prop}
    (holdsInitially : ∀ state, system.initial state → property state)
    (preserved : ∀ state label target,
      system.ReachableUnder allowed state → property state →
        allowed state label → system.step state label = some target →
          property target)
    {state : State} (reached : system.ReachableUnder allowed state) :
    property state := by
  induction reached with
  | start first => exact holdsInitially _ first
  | next previous permitted stepped ih =>
    exact preserved _ _ _ previous ih permitted stepped

theorem Reachable.invariant {property : State → Prop}
    (holdsInitially : ∀ state, system.initial state → property state)
    (preserved : ∀ state label target, property state →
      system.step state label = some target → property target)
    {state : State} (reached : system.Reachable state) :
    property state :=
  ReachableUnder.invariant holdsInitially
    (fun state label target _ held _ stepped =>
      preserved state label target held stepped) reached

/-- Execute a list of labels; `none` when one of them is not enabled. -/
def run (system : TransitionSystem State Label) :
    State → List Label → Option State
  | state, [] => some state
  | state, label :: labels =>
    (system.step state label).bind fun target => system.run target labels

@[simp]
theorem run_nil (system : TransitionSystem State Label) (state : State) :
    system.run state [] = some state :=
  rfl

theorem run_cons (system : TransitionSystem State Label) (state : State)
    (label : Label) (labels : List Label) :
    system.run state (label :: labels) =
      (system.step state label).bind fun target => system.run target labels :=
  rfl

/-- Execute a list of labels, all of whose steps meet `allowed`. -/
def runUnder (system : TransitionSystem State Label) (allowed : State → Label → Prop)
    [∀ state label, Decidable (allowed state label)] : State → List Label → Option State
  | state, [] => some state
  | state, label :: labels =>
    if allowed state label then
      (system.step state label).bind fun target => system.runUnder allowed target labels
    else none

theorem ReachableUnder.run [∀ state label, Decidable (allowed state label)] {labels : List Label}
    (reached : system.ReachableUnder allowed state)
    (ran : system.runUnder allowed state labels = some target) :
    system.ReachableUnder allowed target := by
  induction labels generalizing state with
  | nil =>
    obtain rfl : state = target := Option.some.inj ran
    exact reached
  | cons label labels ih =>
    simp only [runUnder] at ran
    split at ran
    · rename_i permitted
      obtain ⟨middle, stepped, rest⟩ := Option.bind_eq_some_iff.mp ran
      exact ih (reached.next permitted stepped) rest
    · simp at ran

theorem Reachable.run {labels : List Label}
    (reached : system.Reachable state)
    (ran : system.run state labels = some target) :
    system.Reachable target := by
  induction labels generalizing state with
  | nil =>
    have same : state = target := by simpa using ran
    exact same ▸ reached
  | cons label labels ih =>
    rw [run_cons, Option.bind_eq_some_iff] at ran
    obtain ⟨middle, stepped, rest⟩ := ran
    exact ih (reached.next stepped) rest

end TransitionSystem
