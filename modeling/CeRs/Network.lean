import CeRs.Transition
import Mathlib.Algebra.BigOperators.Group.Finset.Piecewise
import Mathlib.Algebra.Order.BigOperators.Group.Finset
import Mathlib.Data.Fintype.Basic

/-!
# Networks of components

Components that are labelled transition functions, and a network of them.  Each
component sees a label of the network as one of its own or not at all, and all
that see it perform it at once.  The run of a network is, at each component, a
run of that component alone.
-/

namespace CeRs.Network

open Transition

section Component

variable {State Label Entry : Type*}

/-- A component that does not see the label stays as it is. -/
def perform (step : State → Label → Option State) (state : State) :
    Option Label → Option State
  | some label => step state label
  | none => some state

theorem execute_toList (step : State → Label → Option State) (state : State)
    (seen : Option Label) :
    execute step state seen.toList = perform step state seen := by
  cases seen with
  | none => rfl
  | some label => simp [perform]

/-- What a component emits for a label of the network. -/
def emission (emits : State → Label → List Entry) (state : State) :
    Option Label → List Entry
  | some label => emits state label
  | none => []

theorem emitted_toList (step : State → Label → Option State)
    (emits : State → Label → List Entry) (state : State) (seen : Option Label) :
    emitted step emits state seen.toList = emission emits state seen := by
  cases seen with
  | none => rfl
  | some label =>
      have start : execute step state [] = some state := rfl
      exact emitted_concat start

theorem emission_eq_nil {emits : State → Label → List Entry} {state : State}
    {seen : Option Label} (silent : ∀ label ∈ seen, emits state label = []) :
    emission emits state seen = [] := by
  cases seen with
  | none => rfl
  | some label => exact silent label rfl

end Component

variable {Index NetLabel Entry : Type*} [Fintype Index] {State Label : Index → Type*}
  (step : ∀ index, State index → Label index → Option (State index))
  (view : (∀ index, State index) → NetLabel → ∀ index, Option (Label index))

/-- Every component performs what it sees of the label, and none of them refuses. -/
def netStep (states : ∀ index, State index) (label : NetLabel) :
    Option (∀ index, State index) :=
  if ∀ index, (perform (step index) (states index) (view states label index)).isSome then
    some fun index =>
      (perform (step index) (states index) (view states label index)).getD (states index)
  else none

/-- The labels that a component performs during a run of the network. -/
def viewed (index : Index) (states : ∀ index, State index) (trace : List NetLabel) :
    List (Label index) :=
  emitted (netStep step view) (fun states label => (view states label index).toList)
    states trace

variable {step view} {states next final : ∀ index, State index} {label : NetLabel}
  {trace : List NetLabel}

theorem netStep_eq_some_iff :
    netStep step view states label = some next ↔
      ∀ index, perform (step index) (states index) (view states label index) =
        some (next index) := by
  rw [netStep]
  constructor
  · intro stepped index
    split at stepped
    case isTrue enabled =>
        rw [← Option.some.inj stepped]
        obtain ⟨after, performed⟩ := Option.isSome_iff_exists.mp (enabled index)
        simp [performed]
    case isFalse => simp at stepped
  · intro performed
    rw [if_pos fun index => by simp [performed index]]
    congr 1
    funext index
    simp [performed index]

theorem viewed_concat {start : ∀ index, State index} (index : Index)
    (reached : execute (netStep step view) start trace = some states) :
    viewed step view index start (trace ++ [label]) =
      viewed step view index start trace ++ (view states label index).toList :=
  emitted_concat reached

/-- A run of the network is a run of each of its components. -/
theorem execute_viewed {start : ∀ index, State index} (index : Index)
    (reached : execute (netStep step view) start trace = some final) :
    execute (step index) (start index) (viewed step view index start trace) =
      some (final index) := by
  refine (invariant_of_execute
    (fun trace states => execute (netStep step view) start trace = some states ∧
      execute (step index) (start index) (viewed step view index start trace) =
        some (states index)) ⟨rfl, rfl⟩ ?_ reached).2
  rintro trace states label next ⟨before, component⟩ stepped
  refine ⟨execute_concat_eq_some.mpr ⟨states, before, stepped⟩, ?_⟩
  rw [viewed_concat index before]
  refine execute_append_eq_some.mpr ⟨states index, component, ?_⟩
  rw [execute_toList]
  exact netStep_eq_some_iff.mp stepped index

/-- What a component has emitted grows by what it emits for its view of the label. -/
theorem emitted_viewed_concat {start : ∀ index, State index} (index : Index)
    {emits : State index → Label index → List Entry}
    (reached : execute (netStep step view) start trace = some states) :
    emitted (step index) emits (start index)
        (viewed step view index start (trace ++ [label])) =
      emitted (step index) emits (start index) (viewed step view index start trace) ++
        emission emits (states index) (view states label index) := by
  rw [viewed_concat index reached, emitted_append _ (execute_viewed index reached),
    emitted_toList]

end CeRs.Network
