import Vyakarana.Toml.Quoting
import Vyakarana.Toml.Scalar

/-!
# Reading TOML

A document is read in two steps: its lines become statements, and the statements are carried out
on an empty table. A text that is no document has no value; what is wrong with it is not told.

What counts as a document follows the third-party `toml` library, through which configurations are
loaded: TOML 1.1 as that library takes it.

## Line ends

A carriage return and line feed count as a line feed. A carriage return by itself is refused,
being a control character.

## Termination

Values nest and lists go on as long as there are characters. Every step uses up at least one, so
the length of the text bounds the steps.
-/

namespace Vyakarana.Toml

/-! ## Blanks and comments -/

/-- A space or a tab. -/
def isGap (c : Char) : Bool := c == ' ' || c == '\t'

/-- The text with every line end a single line feed. -/
def unifyLineEnds : Text → Text
  | [] => []
  | '\r' :: '\n' :: rest => '\n' :: unifyLineEnds rest
  | c :: rest => c :: unifyLineEnds rest

/-- The text without blanks at its beginning. -/
def skipGap (t : Text) : Text := t.dropWhile isGap

/-- The text without blanks, line ends and comments at its beginning. A comment must not hold a
control character. -/
def skipTrivia : (inComment : Bool) → Text → Option Text
  | _, [] => some []
  | true, c :: rest =>
    if c == '\n' then skipTrivia false rest
    else if isPlain c then skipTrivia true rest
    else none
  | false, c :: rest =>
    if c == '#' then skipTrivia true rest
    else if isGap c || c == '\n' then skipTrivia false rest
    else some (c :: rest)

/-- What follows the end of a line, of which only blanks and a comment may be left. -/
def lineEnd (t : Text) : Option Text :=
  match skipGap t with
  | [] => some []
  | '\n' :: rest => some rest
  | '#' :: rest => skipTrivia true rest
  | _ => none

/-! ## Keys -/

/-- The character may stand in a key without quotes. -/
def isBare (c : Char) : Bool :=
  c.isAlphanum || c == '_' || c == '-'

/-- Read a key without dots. -/
def readKey (t : Text) : Option (Key × Text) :=
  match t with
  | '"' :: _ | '\'' :: _ => readLineString t
  | _ =>
    match t.takeWhile isBare with
    | [] => none
    | key => some (key, t.dropWhile isBare)

/-- Read a dotted key. Blanks may stand around its dots and after it. -/
def readPath : (steps : Nat) → Text → Option (List Key × Text)
  | 0, _ => none
  | steps + 1, t =>
    match readKey (skipGap t) with
    | none => none
    | some (key, rest) =>
      match skipGap rest with
      | '.' :: rest =>
        match readPath steps rest with
        | some (path, rest) => some (key :: path, rest)
        | none => none
      | rest => some ([key], rest)

/-! ## Values -/

/-- The character may stand in a value without quotes. -/
def isScalarChar (c : Char) : Bool :=
  c.isAlphanum || c == '_' || c == '-' || c == '+' || c == '.' || c == ':'

/-- Read a value without quotes. A blank may part a date from its time. -/
def readScalar (t : Text) : Option (Value × Text) :=
  let word := t.takeWhile isScalarChar
  let rest := t.dropWhile isScalarChar
  match date? word, rest with
  | some [], ' ' :: d :: more =>
    if d.isDigit then
      (scalar? (word ++ ' ' :: (d :: more).takeWhile isScalarChar)).map
        (·, (d :: more).dropWhile isScalarChar)
    else (scalar? word).map (·, rest)
  | _, _ => (scalar? word).map (·, rest)

mutual

/-- Read a value. -/
def readValue : (steps : Nat) → Text → Option (Value × Text)
  | 0, _ => none
  | steps + 1, t =>
    match t with
    | '"' :: _ | '\'' :: _ => (readString t).map fun r => (.string r.1, r.2)
    | '[' :: rest => (readItems steps rest).map fun r => (.array r.1, r.2)
    | '\x7b' :: rest => (readPairs steps [] rest).map fun r => (.table .inline r.1, r.2)
    | _ => readScalar t

/-- Read the items of an array, up to and including its closing bracket. -/
def readItems : (steps : Nat) → Text → Option (List Value × Text)
  | 0, _ => none
  | steps + 1, t =>
    match skipTrivia false t with
    | none => none
    | some (']' :: rest) => some ([], rest)
    | some t =>
      match readValue steps t with
      | none => none
      | some (v, rest) =>
        match skipTrivia false rest with
        | some (',' :: rest) => (readItems steps rest).map fun r => (v :: r.1, r.2)
        | some (']' :: rest) => some ([v], rest)
        | _ => none

/-- Read the pairs of an inline table, up to and including its closing brace. -/
def readPairs : (steps : Nat) → Entries → Text → Option (Entries × Text)
  | 0, _, _ => none
  | steps + 1, es, t =>
    match skipTrivia false t with
    | none => none
    | some ('\x7d' :: rest) => some (es, rest)
    | some t =>
      match readPath steps t with
      | some (path, '=' :: rest) =>
        match readValue steps (skipGap rest) with
        | none => none
        | some (v, rest) =>
          match es.define path v, skipTrivia false rest with
          | some es, some (',' :: rest) => readPairs steps es rest
          | some es, some ('\x7d' :: rest) => some (es, rest)
          | _, _ => none
      | _ => none

end

/-! ## Documents -/

/-- Read one statement, up to and including the end of its line. -/
def readStatement (steps : Nat) (t : Text) : Option (Statement × Text) :=
  match t with
  | '[' :: '[' :: rest =>
    match readPath steps rest with
    | some (path, ']' :: ']' :: rest) => (lineEnd rest).map (.element path, ·)
    | _ => none
  | '[' :: rest =>
    match readPath steps rest with
    | some (path, ']' :: rest) => (lineEnd rest).map (.header path, ·)
    | _ => none
  | _ =>
    match readPath steps t with
    | some (path, '=' :: rest) =>
      match readValue steps (skipGap rest) with
      | some (v, rest) => (lineEnd rest).map (.entry path v, ·)
      | none => none
    | _ => none

/-- Read statements to the end of the text. -/
def readStatements : (steps : Nat) → Text → Option (List Statement)
  | 0, _ => none
  | steps + 1, t =>
    match skipTrivia false t with
    | none => none
    | some [] => some []
    | some t =>
      match readStatement steps t with
      | some (s, rest) => (readStatements steps rest).map (s :: ·)
      | none => none

/-- The text without a byte order mark at its beginning. -/
def skipMark : Text → Text
  | '\ufeff' :: rest => rest
  | t => t

/-- Read a document. -/
def read? (t : Text) : Option Entries :=
  let t := unifyLineEnds (skipMark t)
  (readStatements (t.length + 1) t).bind (build [] [])

example : (read? "# nothing\n".toList).map List.length = some 0 := by decide

end Vyakarana.Toml
