import Vyakarana.Text.Quoted

/-!
# TOML strings

A string stands in double quotes, where backslash escapes are read, or in single quotes, where
every character stands for itself; three quotes allow line breaks. The escapes that are read, and
the style that is chosen for writing, are those of the third-party `toml` library, through which
configurations are loaded and printed.

## Writing

The plainest style that can hold the text is chosen: double quotes, single quotes, three double
quotes, three single quotes. Only a text that none of these holds without escapes other than
`\t` is written with them.

## Reading

Line ends are a single line feed here; the reader of documents sees to that.
-/

namespace Vyakarana.Toml

/-- The character may stand in a string or a comment as it is: tab, or no control character. -/
def isPlain (c : Char) : Bool := c == '\t' || !Text.isAsciiControl c

/-! ## Reading -/

/-- What a backslash and this letter stand for. -/
def escaped? : Char → Option Char
  | 'b' => some '\x08'
  | 't' => some '\t'
  | 'n' => some '\n'
  | 'f' => some '\x0c'
  | 'r' => some '\r'
  | 'e' => some '\x1b'
  | '"' => some '"'
  | '\\' => some '\\'
  | _ => none

/-- How many hexadecimal digits follow a backslash and this letter. -/
def escapeWidth? : Char → Option Nat
  | 'x' => some 2
  | 'u' => some 4
  | 'U' => some 8
  | _ => none

/-- The value of a hexadecimal digit. -/
def hexValue? (c : Char) : Option Nat :=
  let n := c.toNat
  if 0x30 ≤ n && n ≤ 0x39 then some (n - 0x30)
  else if 0x41 ≤ n && n ≤ 0x46 then some (n - 0x41 + 10)
  else if 0x61 ≤ n && n ≤ 0x66 then some (n - 0x61 + 10)
  else none

/-- The character with a code point, unless that is a surrogate or beyond the last. -/
def charOf? (n : Nat) : Option Char :=
  if n.isValidChar then some (Char.ofNat n) else none

/-- Where the reader of an escaped string is. -/
inductive Scan where
  | plain
  /-- After a backslash. -/
  | escape
  /-- In an escape, with `left` digits to come after `value`. -/
  | hex (left value : Nat)
  /-- After a backslash and blanks, before the line break that they must end in. -/
  | gap
  /-- After an escaped line break, before the first character that is neither blank nor a line
  break. -/
  | trim
deriving DecidableEq, Repr

/-- Put a character in front of what is read after it. -/
def prepend (c : Char) : Option (Text × Text) → Option (Text × Text) :=
  Option.map fun r => (c :: r.1, r.2)

/-- Read in an escaped string up to and including the closing quote. The results are the text and
what follows the string. -/
def readBasic : Scan → Text → Option (Text × Text)
  | .plain, '"' :: rest => some ([], rest)
  | .plain, '\\' :: rest => readBasic .escape rest
  | .plain, c :: rest => if isPlain c then prepend c (readBasic .plain rest) else none
  | .escape, c :: rest =>
    match escaped? c with
    | some d => prepend d (readBasic .plain rest)
    | none =>
      match escapeWidth? c with
      | some width => readBasic (.hex width 0) rest
      | none => none
  | .hex left value, c :: rest =>
    match hexValue? c with
    | none => none
    | some d =>
      if left ≤ 1 then
        match charOf? (value * 16 + d) with
        | some e => prepend e (readBasic .plain rest)
        | none => none
      else readBasic (.hex (left - 1) (value * 16 + d)) rest
  | _, _ => none

/-- Read in an escaped string of several lines, up to and including the three closing quotes. One
or two quotes directly before them belong to the text. -/
def readMultiBasic : Scan → Text → Option (Text × Text)
  | .escape, c :: rest =>
    if c == '\n' then readMultiBasic .trim rest
    else if c == ' ' || c == '\t' then readMultiBasic .gap rest
    else
      match escaped? c with
      | some d => prepend d (readMultiBasic .plain rest)
      | none =>
        match escapeWidth? c with
        | some width => readMultiBasic (.hex width 0) rest
        | none => none
  | .hex left value, c :: rest =>
    match hexValue? c with
    | none => none
    | some d =>
      if left ≤ 1 then
        match charOf? (value * 16 + d) with
        | some e => prepend e (readMultiBasic .plain rest)
        | none => none
      else readMultiBasic (.hex (left - 1) (value * 16 + d)) rest
  | .gap, c :: rest =>
    if c == '\n' then readMultiBasic .trim rest
    else if c == ' ' || c == '\t' then readMultiBasic .gap rest
    else none
  | _, '"' :: '"' :: '"' :: '"' :: '"' :: rest => some (['"', '"'], rest)
  | _, '"' :: '"' :: '"' :: '"' :: rest => some (['"'], rest)
  | _, '"' :: '"' :: '"' :: rest => some ([], rest)
  | _, '\\' :: rest => readMultiBasic .escape rest
  | scan, c :: rest =>
    if scan == .trim && (c == ' ' || c == '\t' || c == '\n') then readMultiBasic .trim rest
    else if c == '\n' || isPlain c then prepend c (readMultiBasic .plain rest)
    else none
  | _, [] => none

/-- Read in a string in single quotes, up to and including the closing one. -/
def readLiteral : Text → Option (Text × Text)
  | [] => none
  | '\'' :: rest => some ([], rest)
  | c :: rest => if isPlain c then prepend c (readLiteral rest) else none

/-- Read in a string in three single quotes, up to and including the closing ones. -/
def readMultiLiteral : Text → Option (Text × Text)
  | '\'' :: '\'' :: '\'' :: '\'' :: '\'' :: rest => some (['\'', '\''], rest)
  | '\'' :: '\'' :: '\'' :: '\'' :: rest => some (['\''], rest)
  | '\'' :: '\'' :: '\'' :: rest => some ([], rest)
  | c :: rest => if c == '\n' || isPlain c then prepend c (readMultiLiteral rest) else none
  | [] => none

/-- What follows a line break directly after the opening quotes. -/
def skipFirstBreak : Text → Text
  | '\n' :: rest => rest
  | t => t

/-- Read a string, from its opening quotes on. -/
def readString : Text → Option (Text × Text)
  | '"' :: '"' :: '"' :: rest => readMultiBasic .plain (skipFirstBreak rest)
  | '"' :: rest => readBasic .plain rest
  | '\'' :: '\'' :: '\'' :: rest => readMultiLiteral (skipFirstBreak rest)
  | '\'' :: rest => readLiteral rest
  | _ => none

/-- Read a string that stays on one line, from its opening quote on. -/
def readLineString : Text → Option (Text × Text)
  | '"' :: rest => readBasic .plain rest
  | '\'' :: rest => readLiteral rest
  | _ => none

/-! ## Writing -/

/-- How a string is quoted. -/
inductive QuoteStyle where
  | basic | literal | multiBasic | multiLiteral
deriving DecidableEq, Repr

/-- The character can only be written as an escape: a control character other than tab and line
feed. -/
def needsEscape (c : Char) : Bool := Text.isAsciiControl c && c != '\t' && c != '\n'

/-- The length of the longest run of the character in a text that follows `run` of them. -/
def longestRun (c : Char) : (run : Nat) → Text → Nat
  | run, [] => run
  | run, d :: rest =>
    if d == c then longestRun c (run + 1) rest else max run (longestRun c 0 rest)

/-- The style in which a text is written. -/
def styleOf (t : Text) : QuoteStyle :=
  let escapes := t.any needsEscape
  let breaks := t.contains '\n'
  let backslash := t.contains '\\'
  if !escapes && !backslash && !t.contains '"' && !breaks then .basic
  else if !escapes && !t.contains '\'' && !breaks then .literal
  else if !escapes && !backslash && longestRun '"' 0 t < 3 then .multiBasic
  else if !escapes && longestRun '\'' 0 t < 3 then .multiLiteral
  else if breaks then .multiBasic
  else .basic

/-- The digit of value `d < 16`, in upper case. -/
def upperHexDigit (d : Nat) : Char :=
  if d < 10 then Char.ofNat (0x30 + d) else Char.ofNat (0x41 + d - 10)

/-- A control character as an escape of four digits. -/
def unicodeEscape (c : Char) : Text :=
  ['\\', 'u', '0', '0', upperHexDigit (c.toNat / 16), upperHexDigit (c.toNat % 16)]

/-- How a character other than a double quote is written where escapes are read. -/
def escapeChar (multi : Bool) (c : Char) : Text :=
  match c with
  | '\x08' => ['\\', 'b']
  | '\t' => ['\\', 't']
  | '\n' => if multi then ['\n'] else ['\\', 'n']
  | '\x0c' => ['\\', 'f']
  | '\r' => ['\\', 'r']
  | '\\' => ['\\', '\\']
  | c => if Text.isAsciiControl c then unicodeEscape c else [c]

/-- Escape a text. Of `quotes` double quotes in a row the last is escaped, and the count begins
anew; `run` is how many stand directly before. Any other escape begins the count anew as well. -/
def escapeText (multi : Bool) (quotes run : Nat) : Text → Text
  | [] => []
  | c :: rest =>
    if c == '"' then
      if quotes ≤ run + 1 then ['\\', '"'] ++ escapeText multi quotes 0 rest
      else '"' :: escapeText multi quotes (run + 1) rest
    else escapeChar multi c ++ escapeText multi quotes 0 rest

/-- A line break after the opening quotes, if the text has one. -/
def openingBreak (t : Text) : Text := if t.contains '\n' then ['\n'] else []

/-- Write a string in a style. -/
def writeAs (style : QuoteStyle) (t : Text) : Text :=
  match style with
  | .basic => ['"'] ++ escapeText false 1 0 t ++ ['"']
  | .literal => ['\''] ++ t ++ ['\'']
  | .multiBasic =>
    ['"', '"', '"'] ++ openingBreak t ++ escapeText true 3 0 t ++ ['"', '"', '"']
  | .multiLiteral => ['\'', '\'', '\''] ++ openingBreak t ++ t ++ ['\'', '\'', '\'']

/-- Write a string in the plainest style that holds it. -/
def writeString (t : Text) : Text := writeAs (styleOf t) t

end Vyakarana.Toml
