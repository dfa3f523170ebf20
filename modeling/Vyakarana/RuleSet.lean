import Vyakarana.Event
import Vyakarana.Vocabulary
import Vyakarana.Window

/-!
# Rule sets

A rule set registers window rules in order. The place of a rule in the order gives it its
identity, and when several rules apply to a window, the one registered last is the most specific
and is tried first.

## Identities

Declined rules are recorded by identity, so two sets that work on the same terms must not share
one. A set built after another continues its numbering.
-/

namespace Vyakarana

/-- Window rules in the order of registration, numbered from `firstId`. -/
structure RuleSet where
  rules : List WindowRule
  firstId : RuleId := 0

namespace RuleSet

/-! ## What can be wrong with rule sets -/

/-- Why rule sets cannot be used. -/
inductive Fault where
  /-- A name was registered twice. -/
  | duplicateRule (name : String)
  /-- Two sets share the identities from `low` up to but not including `high`. -/
  | overlappingIds (first second : String) (low high : RuleId)
deriving DecidableEq, Repr

/-- The wording of the error. -/
def Fault.message : Fault → String
  | duplicateRule name => "window rule registered twice: " ++ name
  | overlappingIds first second low high =>
    "rule sets " ++ first ++ " and " ++ second ++ " share rule identities " ++
      toString low ++ ".." ++ toString high

/-! ## Registration -/

/-- The first name that is one of `seen` or of the names before it. -/
def repeatedName? (seen : List String) : List String → Option String
  | [] => none
  | name :: names => if seen.contains name then some name else repeatedName? (name :: seen) names

/-- The rules with consecutive identities. -/
def number : RuleId → List WindowRule → List WindowRule
  | _, [] => []
  | id, r :: rules => { r with id } :: number (id + 1) rules

/-- Register rules, with identities from `firstId` on. -/
def build (rules : List WindowRule) (firstId : RuleId := 0) : Except Fault RuleSet :=
  match repeatedName? [] (rules.map WindowRule.name) with
  | some name => .error (.duplicateRule name)
  | none => .ok ⟨number firstId rules, firstId⟩

/-- The identity after the last. -/
def nextId (set : RuleSet) : RuleId := set.firstId + set.rules.length

/-- Register rules whose identities continue after those of `set`. -/
def buildAfter (set : RuleSet) (rules : List WindowRule) : Except Fault RuleSet :=
  build rules set.nextId

/-- The shared identities of two sets, as a range, if there are any. -/
def overlap? (a b : RuleSet) : Option (RuleId × RuleId) :=
  let low := max a.firstId b.firstId
  let high := min a.nextId b.nextId
  if low < high then some (low, high) else none

/-- The first of the later sets that shares identities with `a`. -/
def overlapWith? (label : String) (a : RuleSet) : List (String × RuleSet) → Option Fault
  | [] => none
  | (other, b) :: rest =>
    match a.overlap? b with
    | some (low, high) => some (.overlappingIds label other low high)
    | none => overlapWith? label a rest

/-- Refuse sets that share identities; the first such pair is reported. -/
def ensureDisjoint : List (String × RuleSet) → Except Fault Unit
  | [] => .ok ()
  | (label, a) :: rest =>
    match overlapWith? label a rest with
    | some fault => .error fault
    | none => ensureDisjoint rest

/-! ## Application -/

/-- What a rule makes of a window, if it applies and some outcome differs from the window. -/
def changes? (w : Window) (r : WindowRule) : Option (WindowRule × List Window) :=
  if r.appliesTo w && (r.apply w).any (· != w) then some (r, r.apply w) else none

/-- The most specific rule that changes the window, with its outcomes. -/
def winner? (set : RuleSet) (w : Window) : Option (WindowRule × List Window) :=
  set.rules.reverse.findSome? (changes? w)

/-- The outcomes of the most specific rule that changes the window. If none does, the window
passes through. -/
def apply (set : RuleSet) (w : Window) : List Window :=
  match set.winner? w with
  | some (_, windows) => windows
  | none => [w]

/-- What is reported when the set is applied to a window. -/
def remarks (set : RuleSet) (w : Window) : List Remark :=
  match set.winner? w with
  | some (r, windows) => [.windowRule r.name w.cur.value windows.length]
  | none => []

end RuleSet

end Vyakarana
