import Vyakarana.Derivation
import Vyakarana.Gana

/-!
# Configuration

The limits of a search and the root lists. A configuration is acceptable when its limits are
positive and its lists name no blank root.
-/

namespace Vyakarana

/-- The settings of a grammar. -/
structure Config where
  limits : Limits := {}
  gana : Gana := {}
deriving DecidableEq, Repr

namespace Config

/-- Why a configuration is not acceptable. -/
inductive Fault where
  | noSteps
  | noResults
  /-- The list with this name has a blank entry. -/
  | blankEntry (list : String)
deriving DecidableEq, Repr

/-- The wording of the error. -/
def Fault.message (f : Fault) : String :=
  "invalid config: " ++
    match f with
    | noSteps => "limits.max_steps must be positive"
    | noResults => "limits.max_results must be positive"
    | blankEntry list => "gana." ++ list ++ " contains an empty entry"

/-- A list has a blank entry. -/
def hasBlank (list : List Text) : Bool := list.any (·.trim.isEmpty)

/-- Check a configuration. The limits come first, then the lists in order. -/
def validate (c : Config) : Except Fault Unit :=
  if c.limits.maxSteps = 0 then .error .noSteps
  else if c.limits.maxResults = 0 then .error .noResults
  else if hasBlank c.gana.vac then .error (.blankEntry "vac")
  else if hasBlank c.gana.grah then .error (.blankEntry "grah")
  else if hasBlank c.gana.phan then .error (.blankEntry "phan")
  else .ok ()

end Config

end Vyakarana
