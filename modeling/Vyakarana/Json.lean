import Vyakarana.Text.Quoted

/-!
# JSON texts

Values of JSON, as far as reports need them, and their layout over several lines. Layout and escapes
are those of the third-party `serde_json` library, which prints the reports.
-/

namespace Vyakarana

/-- A value. -/
inductive JsonValue where
  | string (t : Text)
  | number (n : Nat)
  | boolean (b : Bool)
  | array (items : List JsonValue)
  | object (members : List (String × JsonValue))
deriving Repr, Inhabited

namespace JsonValue

/-- How a character is written in a string. Only quotes, backslashes and the characters before
the blank are escaped. -/
def stringChar (c : Char) : Text :=
  match c with
  | '"' => ['\\', '"']
  | '\\' => ['\\', '\\']
  | '\x08' => ['\\', 'b']
  | '\t' => ['\\', 't']
  | '\n' => ['\\', 'n']
  | '\x0c' => ['\\', 'f']
  | '\r' => ['\\', 'r']
  | c => if c.toNat < 0x20 then ['\\', 'u'] ++ Text.paddedHex 4 c.toNat else [c]

/-- A string with its quotes. -/
def writeString (t : Text) : Text := ['"'] ++ t.flatMap stringChar ++ ['"']

/-- A new line that begins with two blanks for each level. -/
def newLine (level : Nat) : Text := '\n' :: List.replicate (2 * level) ' '

/-- Items, each on a line of its own, between brackets. Without items the brackets are empty. -/
def bracketed (opening closing : Char) (level : Nat) (items : List Text) : Text :=
  match items with
  | [] => [opening, closing]
  | items =>
    opening :: newLine (level + 1) ++ (',' :: newLine (level + 1)).intercalate items ++
      newLine level ++ [closing]

mutual

/-- Lay a value out, with two blanks for each level of nesting. -/
def layout (level : Nat) : JsonValue → Text
  | string t => writeString t
  | number n => Nat.toDigits 10 n
  | boolean b => (if b then "true" else "false").toList
  | array items => bracketed '[' ']' level (layoutItems (level + 1) items)
  | object members => bracketed '\x7b' '\x7d' level (layoutMembers (level + 1) members)

/-- Lay each item out. -/
def layoutItems (level : Nat) : List JsonValue → List Text
  | [] => []
  | v :: rest => layout level v :: layoutItems level rest

/-- Lay each member out after its name. -/
def layoutMembers (level : Nat) : List (String × JsonValue) → List Text
  | [] => []
  | (name, v) :: rest =>
    (writeString name.toList ++ [':', ' '] ++ layout level v) :: layoutMembers level rest

end

/-- The text of a value over several lines. -/
def pretty (v : JsonValue) : Text := layout 0 v

end JsonValue

end Vyakarana
