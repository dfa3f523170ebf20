/-!
# White space

The characters with the Unicode property `White_Space`. Zero-width characters and the
information separators are not among them.
-/

namespace Vyakarana

/-- A text is the list of its characters. -/
abbrev Text := List Char

namespace Text

/-- The character has the property `White_Space`. -/
def isBlank (c : Char) : Bool :=
  let n := c.toNat
  (0x09 ≤ n && n ≤ 0x0D) || n == 0x20 || n == 0x85 || n == 0xA0 || n == 0x1680 ||
    (0x2000 ≤ n && n ≤ 0x200A) || n == 0x2028 || n == 0x2029 || n == 0x202F || n == 0x205F ||
    n == 0x3000

/-- The text without the white space at both its ends. -/
def trim (t : Text) : Text :=
  ((t.dropWhile isBlank).reverse.dropWhile isBlank).reverse

/-- The text begins inside a word. -/
def beginsWord : Text → Bool
  | [] => false
  | c :: _ => !isBlank c

/-- Put `c` at the front of the first word. -/
def extendWord (c : Char) : List Text → List Text
  | [] => [[c]]
  | w :: ws => (c :: w) :: ws

/-- The maximal runs of characters that are not white space. -/
def words : Text → List Text
  | [] => []
  | c :: rest =>
    if isBlank c then words rest
    else if beginsWord rest then extendWord c (words rest)
    else [c] :: words rest

example : words " i  u ".toList = ["i".toList, "u".toList] := by decide

example : trim " li~w\n".toList = "li~w".toList := by decide

end Text

end Vyakarana
