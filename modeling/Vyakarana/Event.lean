import Vyakarana.Text.Blank

/-!
# What a derivation reports

While a derivation runs it reports what it does, each report at a level. Reports never influence
the result.
-/

namespace Vyakarana

/-- How important a report is. -/
inductive Level where
  | error | warn | info | debug | trace
deriving DecidableEq, Repr

/-- What a rule reports about itself. -/
inductive Remark where
  /-- A root was reduplicated. -/
  | reduplicated (dhatu abhyasa : Text)
  /-- A stem was strengthened or weakened. -/
  | stemChanged (before after : Text)
  /-- A window rule changed a term, or offered to. -/
  | windowRule (rule : String) (term : Text) (outcomes : Nat)
deriving DecidableEq, Repr

/-- What a search reports. -/
inductive Event where
  /-- The search starts. -/
  | started (start : Text)
  | remark (remark : Remark)
  /-- A stage yielded successors. -/
  | stageFired (stage : String) (successors : Nat)
  /-- A state was reached that no stage advances. -/
  | finished (result : Text) (steps : Nat)
  /-- The limit on expansions stopped the search. -/
  | stepLimit (maxSteps : Nat)
  /-- The limit on results stopped the search. -/
  | resultLimit (maxResults : Nat)
deriving DecidableEq, Repr

namespace Remark

/-- A window rule is the finest detail there is. -/
def level : Remark → Level
  | reduplicated .. | stemChanged .. => .debug
  | windowRule .. => .trace

/-- The wording of a remark. -/
def message : Remark → String
  | reduplicated .. => "reduplicated"
  | stemChanged .. => "anga substitution"
  | windowRule .. => "window rule applied"

/-- The names and the texts of the recorded values. -/
def fields : Remark → List (String × Text)
  | reduplicated dhatu abhyasa => [("dhatu", dhatu), ("abhyasa", abhyasa)]
  | stemChanged before after => [("from", before), ("to", after)]
  | windowRule rule term outcomes =>
    [("rule", rule.toList), ("term", term), ("outcomes", Nat.toDigits 10 outcomes)]

end Remark

namespace Event

/-- Limits are warnings; a remark has a level of its own. -/
def level : Event → Level
  | started _ => .info
  | remark r => r.level
  | stageFired .. | finished .. => .debug
  | stepLimit _ | resultLimit _ => .warn

/-- The name of the span that an event opens. Everything after it happens within. -/
def span? : Event → Option String
  | started _ => some "derive"
  | _ => none

/-- The wording of a report. -/
def message : Event → String
  | started _ => "derive"
  | remark r => r.message
  | stageFired .. => "stage fired"
  | finished .. => "derivation finished"
  | stepLimit _ => "step limit reached, returning partial results"
  | resultLimit _ => "result limit reached"

/-- The names and the texts of the recorded values. -/
def fields : Event → List (String × Text)
  | started start => [("start", start)]
  | remark r => r.fields
  | stageFired stage successors =>
    [("stage", stage.toList), ("successors", Nat.toDigits 10 successors)]
  | finished result steps => [("result", result), ("steps", Nat.toDigits 10 steps)]
  | stepLimit maxSteps => [("max_steps", Nat.toDigits 10 maxSteps)]
  | resultLimit maxResults => [("max_results", Nat.toDigits 10 maxResults)]

end Event

end Vyakarana
