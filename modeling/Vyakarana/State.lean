import Vyakarana.Term

/-!
# Derivation states

A state is a sequence of terms and the set of the operations already attempted on it. A term that
has lost its sounds stays in the sequence, but neighbours are looked up past it and it is not
shown.
-/

namespace Vyakarana

/-- The terms of a derivation at one moment, and the operations attempted so far. -/
structure State where
  terms : List Term
  ops : OrderedSet Operation := ∅
deriving DecidableEq

namespace State

/-- The state of some terms on which nothing was attempted. -/
def ofTerms (terms : List Term) : State := { terms }

/-- The number of terms, empty ones included. -/
def size (s : State) : Nat := s.terms.length

/-- The term at a position. -/
def get? (s : State) (i : Nat) : Option Term := s.terms[i]?

/-- The operation was attempted. -/
def hasOp (s : State) (op : Operation) : Bool := decide (op ∈ s.ops)

/-- Record an operation. -/
def addOp (s : State) (op : Operation) : State := { s with ops := s.ops.insert op }

/-! ## Finding terms

A found term comes with its position. -/

/-- The first term with a category. -/
def find? (s : State) (tag : Tag) : Option (Term × Nat) :=
  s.terms.zipIdx.find? fun placed => placed.1.hasTag tag

/-- Every term with a category, from left to right. -/
def findAll (s : State) (tag : Tag) : List (Term × Nat) :=
  s.terms.zipIdx.filter fun placed => placed.1.hasTag tag

/-- The first term after position `i` that has sounds. -/
def next? (s : State) (i : Nat) : Option (Term × Nat) :=
  (s.terms.zipIdx.drop (i + 1)).find? fun placed => !placed.1.isEmpty

/-- The last term before position `i` that has sounds. -/
def prev? (s : State) (i : Nat) : Option (Term × Nat) :=
  (s.terms.zipIdx.take i).reverse.find? fun placed => !placed.1.isEmpty

/-! ## Editing -/

/-- The state with another term at a position. Beyond the last term nothing changes. -/
def replace (s : State) (i : Nat) (t : Term) : State := { s with terms := s.terms.set i t }

/-- The state with a term put before position `i`, or after the last term if there are fewer. -/
def insert (s : State) (i : Nat) (t : Term) : State :=
  { s with terms := s.terms.take i ++ t :: s.terms.drop i }

/-! ## Showing -/

/-- The values of all terms, run together. -/
def surface (s : State) : Text := s.terms.flatMap Term.value

/-- The values of the terms that have sounds. -/
def visibleValues (s : State) : List Text := (s.terms.filter (!·.isEmpty)).map Term.value

/-- Texts with ` + ` between them. -/
def joinPlus (ts : List Text) : Text := [' ', '+', ' '].intercalate ts

/-- The terms that have sounds, with ` + ` between them. -/
def text (s : State) : Text := joinPlus s.visibleValues

end State

end Vyakarana
