import Vyakarana.Event
import Vyakarana.State

/-!
# Rules on states

A rule maps a state to its successors; without successors it does not apply. Gates put around a
rule make it depend on the operations recorded in the state.

## Order of gates

Gates nest. The outermost looks at the state first, and a `once` gate records its operation
before anything inside it sees the state.
-/

namespace Vyakarana

/-- A rule, possibly behind gates. -/
inductive Rule where
  /-- What the rule does to a state, and what it reports about it. -/
  | plain (name : String) (body : State → List State) (remarks : State → List Remark)
  /-- At most once in a derivation: closed if `op` is recorded, else `op` is recorded first. -/
  | once (inner : Rule) (op : Operation)
  /-- Open only if `op` is recorded. It need only have been attempted. -/
  | require (inner : Rule) (op : Operation)

namespace Rule

/-- The name shown in histories and reports. -/
def name : Rule → String
  | plain name _ _ => name
  | once inner _ => inner.name
  | require inner _ => inner.name

/-- The successors of a state. -/
def apply : Rule → State → List State
  | plain _ body _, s => body s
  | once inner op, s => if s.hasOp op then [] else inner.apply (s.addOp op)
  | require inner op, s => if s.hasOp op then inner.apply s else []

/-- What the rule reports when it is applied to a state. -/
def remarks : Rule → State → List Remark
  | plain _ _ remarks, s => remarks s
  | once inner op, s => if s.hasOp op then [] else inner.remarks (s.addOp op)
  | require inner op, s => if s.hasOp op then inner.remarks s else []

/-- The operations that must be recorded, innermost gate first. -/
def requires : Rule → List Operation
  | plain .. => []
  | once inner _ => inner.requires
  | require inner op => inner.requires ++ [op]

/-- The operations that the rule records, innermost gate first. -/
def produces : Rule → List Operation
  | plain .. => []
  | once inner op => inner.produces ++ [op]
  | require inner _ => inner.produces

/-- A rule that reports nothing. -/
def silent (name : String) (body : State → List State) : Rule := plain name body fun _ => []

end Rule

/-- A gate by itself. -/
inductive Gate where
  | once (op : Operation)
  | require (op : Operation)
deriving DecidableEq, Repr

/-- Put a gate around a rule. -/
def Gate.around (g : Gate) (r : Rule) : Rule :=
  match g with
  | once op => r.once op
  | require op => r.require op

/-- Put gates around a rule, the first of the list innermost. -/
def Rule.behind (r : Rule) (gates : List Gate) : Rule := gates.foldl (fun r g => g.around r) r

end Vyakarana
