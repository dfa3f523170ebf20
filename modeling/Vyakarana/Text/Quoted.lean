import Vyakarana.Text.Blank
import Vyakarana.Text.Unprintable

/-!
# Quoted text

A text in double quotes, as error messages show it: what could not be read off the page is
written as an escape.
-/

namespace Vyakarana.Text

/-- The digit of value `d < 16`, in lower case. -/
def hexDigit (d : Nat) : Char :=
  if d < 10 then Char.ofNat (0x30 + d) else Char.ofNat (0x61 + d - 10)

/-- The least hexadecimal digits of `n`, in lower case. -/
def hex (n : Nat) : Text :=
  if n < 16 then [hexDigit n] else hex (n / 16) ++ [hexDigit (n % 16)]

/-- The last `width` hexadecimal digits of `n`. -/
def paddedHex : (width : Nat) → (n : Nat) → Text
  | 0, _ => []
  | width + 1, n => paddedHex width (n / 16) ++ [hexDigit (n % 16)]

/-- The character is a control character of ASCII. -/
def isAsciiControl (c : Char) : Bool := c.toNat < 0x20 || c.toNat == 0x7F

/-- How one character is written between the quotes. -/
def quotedChar (c : Char) : Text :=
  match c with
  | '"' => ['\\', '"']
  | '\\' => ['\\', '\\']
  | '\n' => ['\\', 'n']
  | '\r' => ['\\', 'r']
  | '\t' => ['\\', 't']
  | '\x00' => ['\\', '0']
  | c =>
    if isAsciiControl c || isUnprintable c then
      ['\\', 'u', '\x7b'] ++ hex c.toNat ++ ['\x7d']
    else [c]

/-- The text in double quotes. -/
def quoted (t : Text) : Text := ['"'] ++ t.flatMap quotedChar ++ ['"']

end Vyakarana.Text
