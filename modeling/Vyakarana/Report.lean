import Vyakarana.Derivation
import Vyakarana.Json

/-!
# Reports

What is told about one search, as text or as JSON.
-/

namespace Vyakarana

/-- A step of a derivation, as reported. -/
structure ReportStep where
  stage : String
  /-- The terms of the state, joined. -/
  state : Text
deriving DecidableEq, Repr

/-- A derivation, as reported. -/
structure ReportResult where
  surface : Text
  /-- The values of the terms that have sounds. -/
  terms : List Text
  /-- Every step, if they were asked for. -/
  steps : List ReportStep := []
deriving DecidableEq, Repr

/-- A search, as reported. -/
structure Report where
  dhatu : Text
  suffix : Text
  lakshana : List Text
  results : List ReportResult
  expansions : Nat
  truncated : Bool
deriving DecidableEq, Repr

namespace ReportStep

/-- Report a step. -/
def ofStep (s : Step) : ReportStep := ⟨s.stage, s.state.text⟩

/-- The stage in twelve columns, then the state. -/
def line (s : ReportStep) : Text :=
  "     ".toList ++ s.stage.toList ++ List.replicate (12 - s.stage.length) ' ' ++ ' ' :: s.state ++
    ['\n']

/-- The step as JSON. -/
def json (s : ReportStep) : JsonValue :=
  .object [("stage", .string s.stage.toList), ("state", .string s.state)]

end ReportStep

namespace ReportResult

/-- Report a derivation, with its steps if they are asked for. -/
def ofDerivation (withSteps : Bool) (d : Derivation) : ReportResult where
  surface := d.state.surface
  terms := d.state.visibleValues
  steps := if withSteps then d.history.map .ofStep else []

/-- The surface and the terms under a number, then the steps. -/
def lines (number : Nat) (r : ReportResult) : Text :=
  Nat.toDigits 10 number ++ ". ".toList ++ r.surface ++ " (".toList ++ State.joinPlus r.terms ++
    ")\n".toList ++ r.steps.flatMap ReportStep.line

/-- Steps are left out if there are none. -/
def json (r : ReportResult) : JsonValue :=
  .object ([("surface", .string r.surface), ("terms", .array (r.terms.map .string))] ++
    if r.steps.isEmpty then [] else [("steps", .array (r.steps.map ReportStep.json))])

end ReportResult

namespace Report

/-- Report a search. -/
def ofOutcome (dhatu suffix : Text) (lakshana : List Text) (withSteps : Bool) (o : Outcome) :
    Report where
  dhatu
  suffix
  lakshana
  results := o.derivations.map (.ofDerivation withSteps)
  expansions := o.expansions
  truncated := o.truncated

/-- The results, numbered from one. -/
def resultLines (results : List ReportResult) : Text :=
  (results.zipIdx 1).flatMap fun r => r.1.lines r.2

/-- The report as text. -/
def text (r : Report) : Text :=
  r.dhatu ++ " + ".toList ++ r.suffix ++ " (".toList ++ ", ".toList.intercalate r.lakshana ++
    ")\n".toList ++
    (if r.results.isEmpty then "no derivations\n".toList else resultLines r.results) ++
    if r.truncated then
      "truncated after ".toList ++ Nat.toDigits 10 r.expansions ++
        " expansions; raise the limits to see every result\n".toList
    else []

/-- The report as JSON. -/
def json (r : Report) : JsonValue :=
  .object [("dhatu", .string r.dhatu), ("suffix", .string r.suffix),
    ("lakshana", .array (r.lakshana.map .string)),
    ("results", .array (r.results.map ReportResult.json)),
    ("expansions", .number r.expansions), ("truncated", .boolean r.truncated)]

end Report

end Vyakarana
