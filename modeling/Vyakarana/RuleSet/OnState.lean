import Vyakarana.Rule
import Vyakarana.RuleSet

/-!
# Window rules on states

A stage that works on one term at a time applies a rule set to the window around it and puts the
outcomes back.
-/

namespace Vyakarana.RuleSet

/-- Apply the set at a position of a state. -/
def applyAt (set : RuleSet) (s : State) (i : Nat) : List State :=
  match Window.at? s i with
  | none => [s]
  | some w => (set.apply w).map fun w' => s.replace i w'.cur

/-- What is reported when the set is applied at a position. -/
def remarksAt (set : RuleSet) (s : State) (i : Nat) : List Remark :=
  match Window.at? s i with
  | none => []
  | some w => set.remarks w

/-- Apply the set at each of the positions, one after the other, on every branch. -/
def applyEach (set : RuleSet) : List State → List Nat → List State
  | states, [] => states
  | states, i :: rest => applyEach set (states.flatMap (set.applyAt · i)) rest

/-- What is reported on the way. -/
def remarksEach (set : RuleSet) : List State → List Nat → List Remark
  | _, [] => []
  | states, i :: rest =>
    states.flatMap (set.remarksAt · i) ++ remarksEach set (states.flatMap (set.applyAt · i)) rest

end Vyakarana.RuleSet
