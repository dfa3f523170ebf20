import Vyakarana.Rule

/-!
# Pipelines

A pipeline is an ordered list of stages. A step runs them in order and keeps what the first one
yields that yields anything.
-/

namespace Vyakarana

/-- Stages in the order in which they are tried. -/
structure Pipeline where
  stages : List Rule

namespace Pipeline

/-! ## Assembly -/

/-- Why stages cannot work together. -/
inductive Fault where
  /-- A stage waits for an operation that no stage records. -/
  | unknownDependency (stage : String) (op : Operation)
  /-- A stage records an operation that was recorded before it. -/
  | duplicateStage (stage : String) (op : Operation)
deriving DecidableEq, Repr

/-- The wording of the error. -/
def Fault.message : Fault → String
  | unknownDependency stage op =>
    "stage " ++ stage ++ " requires `" ++ Vocabulary.spelling op ++ "`, which no stage produces"
  | duplicateStage stage op =>
    "stage " ++ stage ++ " produces `" ++ Vocabulary.spelling op ++
      "`, which another stage already produces"

/-- Every operation that some stage records, with the name of the stage, in order. -/
def recorded (stages : List Rule) : List (String × Operation) :=
  stages.flatMap fun r => r.produces.map (r.name, ·)

/-- The first operation that was recorded before. -/
def repeatedOp? (seen : List Operation) : List (String × Operation) → Option Fault
  | [] => none
  | (stage, op) :: rest =>
    if seen.contains op then some (.duplicateStage stage op) else repeatedOp? (op :: seen) rest

/-- The first operation that a stage waits for and none of `known` is. -/
def missingOp? (known : List Operation) (stages : List Rule) : Option Fault :=
  (stages.flatMap fun r => r.requires.map (r.name, ·)).findSome? fun (stage, op) =>
    if known.contains op then none else some (.unknownDependency stage op)

/-- Put stages together: no operation may be recorded twice, and every operation that is waited
for must be recorded by some stage. -/
def build (stages : List Rule) : Except Fault Pipeline :=
  match repeatedOp? [] (recorded stages) with
  | some fault => .error fault
  | none =>
    match missingOp? ((recorded stages).map Prod.snd) stages with
    | some fault => .error fault
    | none => .ok ⟨stages⟩

/-! ## Steps -/

/-- A stage that yielded, with the states it yielded. -/
structure Firing where
  stage : String
  successors : List State
deriving DecidableEq

/-- The first of the stages that yields anything. -/
def fire? : List Rule → State → Option Firing
  | [], _ => none
  | r :: rules, s =>
    match r.apply s with
    | [] => fire? rules s
    | successors => some ⟨r.name, successors⟩

/-- The successors of a state, each with the name of the stage. None if no stage applies. -/
def step (p : Pipeline) (s : State) : List (String × State) :=
  match fire? p.stages s with
  | some f => f.successors.map (f.stage, ·)
  | none => []

/-- What the stages report that are tried on a state. -/
def remarks : List Rule → State → List Remark
  | [], _ => []
  | r :: rules, s =>
    match r.apply s with
    | [] => r.remarks s ++ remarks rules s
    | _ => r.remarks s

end Pipeline

end Vyakarana
