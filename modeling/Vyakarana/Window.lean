import Vyakarana.State

/-!
# Window rules

A window shows a term between its neighbours. A window rule looks at all three and decides what
becomes of the middle one: nothing, a substitution, or a substitution that may be declined.
-/

namespace Vyakarana

/-- A term between its neighbours. Rules change only `cur`. -/
structure Window where
  left : Option Term
  cur : Term
  right : Option Term
deriving DecidableEq

namespace Window

/-- The window with another term in the middle. -/
def withCur (w : Window) (cur : Term) : Window := { w with cur }

/-- The window around a position, with neighbours looked up past empty terms. -/
def at? (s : State) (i : Nat) : Option Window :=
  (s.get? i).map fun cur => ⟨(s.prev? i).map Prod.fst, cur, (s.next? i).map Prod.fst⟩

end Window

/-! ## Contexts -/

/-- A condition on one place of a window. An absent neighbour is `none`. -/
abbrev Context := Option Term → Bool

namespace Context

/-- A term is there and has the category. -/
def hasTag (tag : Tag) : Context := fun t => t.any (·.hasTag tag)

/-- A term is there and has one of the lakṣaṇas. -/
def anyLakshana (ls : List Lakshana) : Context := fun t => t.any (·.anyLakshana ls)

/-- A term is there and has one of the markers. -/
def anyMarker (markers : List Marker) : Context := fun t => t.any (·.anyMarker markers)

/-- A term is there and begins with a sound of the class. -/
def startsWith (cls : SoundClass) : Context := fun t => t.any (·.startsWith cls)

/-- A term is there and ends in a sound of the class. -/
def endsIn (cls : SoundClass) : Context := fun t => t.any (·.endsIn cls)

/-- The value as taught is one of these. -/
def cleanIn (values : List Text) : Context := fun t => t.any fun t => values.contains t.clean

/-- The condition fails. So an absent term satisfies the negation of what asks for a term. -/
def not (c : Context) : Context := fun t => !c t

/-- Both conditions hold. -/
def and (c d : Context) : Context := fun t => c t && d t

end Context

/-! ## Decisions -/

/-- What takes the place of a term. -/
inductive Substitution where
  /-- An upadeśa, placed by its markers. -/
  | upadesha (u : Upadesha)
  /-- Any term made from the present one and its right neighbour. -/
  | operator (f : Term → Option Term → Term)

namespace Substitution

/-- An augment as a substitution. -/
def agama (raw : Text) : Substitution := .upadesha (.agama raw)

/-- A substitute as a substitution. -/
def adesha (raw : Text) : Substitution := .upadesha (.adesha raw)

/-- Carry out a substitution. -/
def apply (sub : Substitution) (cur : Term) (right : Option Term) : Term :=
  match sub with
  | upadesha u => cur.tasya u
  | operator f => f cur right

end Substitution

/-- What a window rule decides about a window. -/
inductive Decision where
  | unchanged
  | substitute (sub : Substitution)
  /-- The substitution may be declined; both outcomes are produced. -/
  | optional (sub : Substitution)

/-! ## Rules -/

/-- A rule on windows. A context that is not given always holds. -/
structure WindowRule where
  name : String
  left : Option Context := none
  cur : Option Context := none
  right : Option Context := none
  decide : Window → Decision
  /-- Given by the rule set that registers the rule. -/
  id : RuleId := 0

namespace WindowRule

/-- A condition that may be missing. -/
def holds (c : Option Context) (t : Option Term) : Bool := c.all fun c => c t

/-- Every context of the rule holds. -/
def appliesTo (r : WindowRule) (w : Window) : Bool :=
  holds r.left w.left && holds r.cur (some w.cur) && holds r.right w.right

/-- The windows that a decision makes of a window. For an optional substitution the declined
window comes first, with the rule's identity on the term; it is the only one if the rule was
already declined there or the substitution would leave the value as it is. -/
def outcomes (id : RuleId) (w : Window) : Decision → List Window
  | .unchanged => [w]
  | .substitute sub => [w.withCur (sub.apply w.cur w.right)]
  | .optional sub =>
    let declined := w.withCur (w.cur.decline id)
    let accepted := sub.apply w.cur w.right
    if w.cur.isDeclined id || accepted.value == w.cur.value then [declined]
    else [declined, w.withCur accepted]

/-- The successors of a window. One that the rule does not apply to passes through. -/
def apply (r : WindowRule) (w : Window) : List Window :=
  if r.appliesTo w then outcomes r.id w (r.decide w) else [w]

end WindowRule

end Vyakarana
