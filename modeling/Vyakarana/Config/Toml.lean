import Vyakarana.Config
import Vyakarana.Toml.Reader

/-!
# Configurations as TOML

A configuration is written as two tables, `limits` and `gana`. When one is read, whatever is
missing takes its default, and whatever is not known is refused.

A table may also be given as an array, which lists its values in order; missing ones at the end
take their defaults, and further ones are passed over. That, and the layout in which a configuration
is written, are the ways of the third-party `serde` and `toml` libraries.
-/

namespace Vyakarana.Config

open Toml (Key Value Entries)

/-! ## Reading -/

/-- The largest limit. -/
def maxLimit : Nat := 0xFFFFFFFFFFFFFFFF

/-- A limit: an integer that is not negative and not too large. -/
def limitOf? : Value → Option Nat
  | .integer n => if 0 ≤ n ∧ n ≤ maxLimit then some n.toNat else none
  | _ => none

/-- The text of a string. -/
def stringOf? : Value → Option Text
  | .string t => some t
  | _ => none

/-- A list of roots: an array of strings. -/
def rootsOf? : Value → Option (List Text)
  | .array items => items.mapM stringOf?
  | _ => none

/-- Set a limit by its key. -/
def setLimit (l : Limits) (k : Key) (v : Value) : Option Limits :=
  if k == "max_steps".toList then (limitOf? v).map fun n => { l with maxSteps := n }
  else if k == "max_results".toList then (limitOf? v).map fun n => { l with maxResults := n }
  else none

/-- Set a list of roots by its key. -/
def setRoots (g : Gana) (k : Key) (v : Value) : Option Gana :=
  if k == "vac".toList then (rootsOf? v).map fun roots => { g with vac := roots }
  else if k == "grah".toList then (rootsOf? v).map fun roots => { g with grah := roots }
  else if k == "phan".toList then (rootsOf? v).map fun roots => { g with phan := roots }
  else none

/-- Set each of the keys in turn. -/
def setAll {α : Type} (set : α → Key → Value → Option α) (a : α) (es : Entries) : Option α :=
  es.foldlM (fun a e => set a e.1 e.2) a

/-- The entries that a table has, or that an array lists for the keys in order. -/
def entriesOf? (keys : List Key) : Value → Option Entries
  | .table _ es => some es
  | .array items => some (keys.zip items)
  | _ => none

/-- The keys of the limits, in order. -/
def limitKeys : List Key := ["max_steps", "max_results"].map String.toList

/-- The keys of the lists, in order. -/
def ganaKeys : List Key := ["vac", "grah", "phan"].map String.toList

/-- Set one of the two tables. -/
def setTable (c : Config) (k : Key) (v : Value) : Option Config :=
  if k == "limits".toList then
    ((entriesOf? limitKeys v).bind (setAll setLimit {})).map fun l => { c with limits := l }
  else if k == "gana".toList then
    ((entriesOf? ganaKeys v).bind (setAll setRoots {})).map fun g => { c with gana := g }
  else none

/-- The configuration that a document describes. It need not be acceptable. -/
def ofToml? (t : Text) : Option Config := (Toml.read? t).bind (setAll setTable {})

/-! ## Writing -/

/-- One of the five settings. -/
inductive Setting where
  | maxSteps | maxResults | vac | grah | phan
deriving DecidableEq, Repr

/-- The key of a setting within its table. -/
def Setting.key : Setting → Key
  | maxSteps => "max_steps".toList
  | maxResults => "max_results".toList
  | vac => "vac".toList
  | grah => "grah".toList
  | phan => "phan".toList

/-- An array of strings: on one line if it has at most one item, else with each on a line of its
own. -/
def writeRoots : List Text → Text
  | [] => ['[', ']']
  | [root] => '[' :: Toml.writeString root ++ [']']
  | roots =>
    ['[', '\n'] ++
      roots.flatMap (fun root => "    ".toList ++ Toml.writeString root ++ [',', '\n']) ++ [']']

/-- The value of a setting, written out. -/
def writeSetting (c : Config) : Setting → Text
  | .maxSteps => Nat.toDigits 10 c.limits.maxSteps
  | .maxResults => Nat.toDigits 10 c.limits.maxResults
  | .vac => writeRoots c.gana.vac
  | .grah => writeRoots c.gana.grah
  | .phan => writeRoots c.gana.phan

/-- The line of a setting. -/
def settingLine (c : Config) (s : Setting) : Text :=
  s.key ++ " = ".toList ++ c.writeSetting s ++ ['\n']

/-- The tables with their settings, in order. -/
def tables : List (Key × List Setting) :=
  [("limits".toList, [.maxSteps, .maxResults]), ("gana".toList, [.vac, .grah, .phan])]

/-- The lines of a table, for the settings that are kept. -/
def writeTable (c : Config) (keep : Setting → Bool) (t : Key × List Setting) : Text :=
  '[' :: t.1 ++ [']', '\n'] ++ (t.2.filter keep).flatMap c.settingLine

/-- The kept settings under the headers of their tables, with an empty line between the tables. -/
def writeKept (c : Config) (keep : Setting → Bool) : Text :=
  ['\n'].intercalate (tables.map (c.writeTable keep))

/-- The whole configuration. -/
def toToml (c : Config) : Text := c.writeKept fun _ => true

end Vyakarana.Config
