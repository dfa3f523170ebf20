import Vyakarana.Text.Blank

/-!
# Values of a TOML document

A document is a table. What may later be added to a table depends on how it came about, so each
table remembers that. When a table may be extended is as in the third-party `toml` library, which
reads the documents.

## Extension

* A header `[a]` may open a table that only exists because of its subtables, and no other.
* A dotted key `a.b = …` may extend a table that came about by dotted keys or by subtables.
* An inline table is complete as written.
-/

namespace Vyakarana.Toml

/-- A key, without its quotes. -/
abbrev Key := Text

/-- How a table came about. -/
inductive Origin where
  /-- By a header of its own. -/
  | header
  /-- By the header of a subtable. -/
  | implied
  /-- By a dotted key. -/
  | dotted
  /-- By an inline table. -/
  | inline
deriving DecidableEq, Repr

/-- A value. Floats and date-times are kept as written. -/
inductive Value where
  | string (t : Text)
  | integer (n : Int)
  | float (written : Text)
  | boolean (b : Bool)
  | dateTime (written : Text)
  | array (items : List Value)
  | table (origin : Origin) (entries : List (Key × Value))
  /-- An array of tables made by headers, in order. -/
  | tables (elements : List (List (Key × Value)))
deriving Repr, Inhabited

/-- The entries of a table, in the order of their first mention. -/
abbrev Entries := List (Key × Value)

namespace Entries

/-- The value of a key. -/
def get? (es : Entries) (k : Key) : Option Value :=
  (es.find? fun e => e.1 == k).map Prod.snd

/-- Change the value of a key where it stands, or put it at the end. -/
def put (es : Entries) (k : Key) (v : Value) : Entries :=
  match es with
  | [] => [(k, v)]
  | (j, w) :: rest => if j == k then (j, v) :: rest else (j, w) :: put rest k v

/-! ## Definitions -/

/-- Give a dotted key its value. The key must be new, and every table on its way extensible by
dotted keys. -/
def define (es : Entries) : List Key → Value → Option Entries
  | [], _ => none
  | [k], v =>
    match es.get? k with
    | none => some (es.put k v)
    | some _ => none
  | k :: path, v =>
    match es.get? k with
    | none => (define [] path v).map fun sub => es.put k (.table .dotted sub)
    | some (.table .dotted sub) =>
      (define sub path v).map fun sub => es.put k (.table .dotted sub)
    | some (.table .implied sub) =>
      (define sub path v).map fun sub => es.put k (.table .implied sub)
    | some _ => none

/-- Carry out a change where a header path ends: `leaf` on the last key, in the table that the
keys before it lead to. Missing tables on the way are implied, and of an array of tables the last
one is meant. -/
def atHeader (leaf : Entries → Key → Option Entries) (es : Entries) : List Key → Option Entries
  | [] => none
  | [k] => leaf es k
  | k :: path =>
    match es.get? k with
    | none => (atHeader leaf [] path).map fun sub => es.put k (.table .implied sub)
    | some (.table .inline _) => none
    | some (.table origin sub) =>
      (atHeader leaf sub path).map fun sub => es.put k (.table origin sub)
    | some (.tables elements) =>
      match elements.getLast? with
      | none => none
      | some sub =>
        (atHeader leaf sub path).map fun sub => es.put k (.tables (elements.dropLast ++ [sub]))
    | some _ => none

/-- Open the table of a header `[k]`. -/
def openTable (es : Entries) (k : Key) : Option Entries :=
  match es.get? k with
  | none => some (es.put k (.table .header []))
  | some (.table .implied sub) => some (es.put k (.table .header sub))
  | some _ => none

/-- Add a table for a header `[[k]]`. -/
def addElement (es : Entries) (k : Key) : Option Entries :=
  match es.get? k with
  | none => some (es.put k (.tables [[]]))
  | some (.tables elements) => some (es.put k (.tables (elements ++ [[]])))
  | some _ => none

/-- Give a dotted key its value in the table that was opened last at a key. -/
def defineIn (path : List Key) (v : Value) (es : Entries) (k : Key) : Option Entries :=
  match es.get? k with
  | some (.table origin sub) => (define sub path v).map fun sub => es.put k (.table origin sub)
  | some (.tables elements) =>
    match elements.getLast? with
    | none => none
    | some sub =>
      (define sub path v).map fun sub => es.put k (.tables (elements.dropLast ++ [sub]))
  | _ => none

end Entries

/-! ## Statements -/

/-- A line of a document. -/
inductive Statement where
  /-- A header `[path]`. -/
  | header (path : List Key)
  /-- A header `[[path]]`. -/
  | element (path : List Key)
  /-- A dotted key and its value. -/
  | entry (path : List Key) (v : Value)
deriving Repr, Inhabited

/-- Carry out statements on a document of which the table at `current` is open; the empty path is
the document itself. -/
def build (es : Entries) (current : List Key) : List Statement → Option Entries
  | [] => some es
  | .header path :: rest =>
    match es.atHeader Entries.openTable path with
    | some es => build es path rest
    | none => none
  | .element path :: rest =>
    match es.atHeader Entries.addElement path with
    | some es => build es path rest
    | none => none
  | .entry path v :: rest =>
    match current with
    | [] =>
      match es.define path v with
      | some es => build es current rest
      | none => none
    | _ =>
      match es.atHeader (Entries.defineIn path v) current with
      | some es => build es current rest
      | none => none

end Vyakarana.Toml
