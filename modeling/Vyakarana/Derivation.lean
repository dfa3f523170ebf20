import Vyakarana.Pipeline

/-!
# Derivations

The states that a pipeline reaches from a start form a tree. The search walks it depth first, in
the order in which the stages yield, and stops at two limits: on the states expanded and on the
derivations found.

## Shape

The search keeps the branches that are still to be walked on a stack. Its record is the list of
its visits, in order; the derivations, the counts and the reports are read off that record.
-/

namespace Vyakarana

/-- The limits of a search. -/
structure Limits where
  /-- States expanded before the search stops. -/
  maxSteps : Nat := 10000
  /-- Derivations found before the search stops. -/
  maxResults : Nat := 64
deriving DecidableEq, Repr

/-- A stage that fired, and the state that it led to. -/
structure Step where
  stage : String
  state : State
deriving DecidableEq

/-- A state that no stage advances, and how it was reached. -/
structure Derivation where
  state : State
  history : List Step
deriving DecidableEq

/-- The result of a search. It is truncated if a limit left some branch unexplored. -/
structure Outcome where
  derivations : List Derivation
  expansions : Nat
  truncated : Bool
deriving DecidableEq

namespace Search

/-- A state on the stack, with the steps that led to it, the latest first. -/
structure Branch where
  state : State
  path : List Step := []
deriving DecidableEq

/-- A branch that was expanded, and the stage that fired on it, if one did. -/
structure Visit where
  branch : Branch
  fired : Option Pipeline.Firing
deriving DecidableEq

/-- Why a search ended. -/
inductive Ending where
  /-- Every branch was walked. -/
  | exhausted
  | stepLimit
  | resultLimit
deriving DecidableEq, Repr

/-- The record of a search. -/
structure Trail where
  visits : List Visit
  ending : Ending
deriving DecidableEq

/-- The record with one more visit before it. -/
def Trail.after (t : Trail) (v : Visit) : Trail := { t with visits := v :: t.visits }

/-- The branches that a firing opens, in order. -/
def Branch.extend (b : Branch) (f : Pipeline.Firing) : List Branch :=
  f.successors.map fun s => ⟨s, ⟨f.stage, s⟩ :: b.path⟩

/-- Walk the branches of a stack. At most `steps` of them are expanded; `found` derivations were
found before. -/
def walk (p : Pipeline) (maxResults : Nat) : (steps found : Nat) → List Branch → Trail
  | _, _, [] => ⟨[], .exhausted⟩
  | 0, _, _ :: _ => ⟨[], .stepLimit⟩
  | steps + 1, found, b :: rest =>
    match Pipeline.fire? p.stages b.state with
    | some f => (walk p maxResults steps found (b.extend f ++ rest)).after ⟨b, some f⟩
    | none =>
      if maxResults ≤ found + 1 then
        ⟨[⟨b, none⟩], if rest.isEmpty then .exhausted else .resultLimit⟩
      else (walk p maxResults steps (found + 1) rest).after ⟨b, none⟩

/-! ## Reading the record -/

/-- The derivation that a visit ends. -/
def Visit.derivation? (v : Visit) : Option Derivation :=
  match v.fired with
  | some _ => none
  | none => some ⟨v.branch.state, v.branch.path.reverse⟩

/-- What a visit reports. -/
def Visit.events (p : Pipeline) (v : Visit) : List Event :=
  (Pipeline.remarks p.stages v.branch.state).map .remark ++
    [match v.fired with
      | some f => .stageFired f.stage f.successors.length
      | none => .finished v.branch.state.text v.branch.path.length]

/-- The result that a record shows. -/
def Trail.outcome (t : Trail) : Outcome :=
  { derivations := t.visits.filterMap Visit.derivation?
    expansions := t.visits.length
    truncated := t.ending != .exhausted }

/-- What is reported when a search ends. -/
def Ending.events (limits : Limits) : Ending → List Event
  | exhausted => []
  | stepLimit => [.stepLimit limits.maxSteps]
  | resultLimit => [.resultLimit limits.maxResults]

end Search

namespace Pipeline

/-- Walk the whole tree of a start state, within limits. -/
def search (p : Pipeline) (limits : Limits) (start : State) : Search.Trail :=
  Search.walk p limits.maxResults limits.maxSteps 0 [⟨start, []⟩]

/-- Find the derivations from a start state. -/
def derive (p : Pipeline) (limits : Limits) (start : State) : Outcome :=
  (p.search limits start).outcome

/-- What is reported while the derivations from a start state are found. -/
def events (p : Pipeline) (limits : Limits) (start : State) : List Event :=
  let trail := p.search limits start
  .started start.text :: (trail.visits.flatMap (·.events p) ++ trail.ending.events limits)

end Pipeline

end Vyakarana
