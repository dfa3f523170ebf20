import Vyakarana.Toml.Value

/-!
# Unquoted values

Booleans, integers, floats and date-times are written without quotes. Each is recognised from
the whole of its letters, as the third-party `toml` library does.
-/

namespace Vyakarana.Toml

/-! ## Digits -/

/-- The value of a digit in a base up to sixteen. -/
def digit? (base : Nat) (c : Char) : Option Nat :=
  let n := c.toNat
  let d :=
    if 0x30 ≤ n && n ≤ 0x39 then n - 0x30
    else if 0x41 ≤ n && n ≤ 0x46 then n - 0x41 + 10
    else if 0x61 ≤ n && n ≤ 0x66 then n - 0x61 + 10
    else base
  if d < base then some d else none

/-- Digits after others of value `acc`. An underscore may stand between two digits. -/
def moreDigits? (base acc : Nat) : Text → Option Nat
  | [] => some acc
  | '_' :: c :: rest =>
    match digit? base c with
    | some d => moreDigits? base (acc * base + d) rest
    | none => none
  | c :: rest =>
    match digit? base c with
    | some d => moreDigits? base (acc * base + d) rest
    | none => none

/-- The value of one or more digits. -/
def digits? (base : Nat) : Text → Option Nat
  | [] => none
  | c :: rest =>
    match digit? base c with
    | some d => moreDigits? base d rest
    | none => none

/-- A decimal number without superfluous zeros in front. -/
def decimal? (t : Text) : Option Nat :=
  match t with
  | '0' :: _ :: _ => none
  | _ => digits? 10 t

/-- The letters after a sign, and whether the sign is a minus. -/
def splitSign : Text → Bool × Text
  | '+' :: rest => (false, rest)
  | '-' :: rest => (true, rest)
  | t => (false, t)

/-! ## Numbers -/

/-- An integer: decimal with an optional sign, or unsigned after `0x`, `0o` or `0b`. -/
def integer? : Text → Option Int
  | '0' :: 'x' :: rest => (digits? 16 rest).map Int.ofNat
  | '0' :: 'o' :: rest => (digits? 8 rest).map Int.ofNat
  | '0' :: 'b' :: rest => (digits? 2 rest).map Int.ofNat
  | t =>
    let (minus, rest) := splitSign t
    (decimal? rest).map fun n => if minus then -Int.ofNat n else Int.ofNat n

/-- The letters before and after the first that satisfies `p`. -/
def splitAtFirst (p : Char → Bool) (t : Text) : Text × Option Text :=
  (t.takeWhile (!p ·),
    match t.dropWhile (!p ·) with
    | [] => none
    | _ :: rest => some rest)

/-- The letters are a float: a decimal number with a fraction, an exponent or both, or one of
`inf` and `nan`, with an optional sign. -/
def isFloat (t : Text) : Bool :=
  let body := (splitSign t).2
  if body == "inf".toList || body == "nan".toList then true
  else
    let (mantissa, exponent) := splitAtFirst (fun c => c == 'e' || c == 'E') body
    let (whole, fraction) := splitAtFirst (· == '.') mantissa
    (decimal? whole).isSome &&
      fraction.all (fun f => (digits? 10 f).isSome) &&
      exponent.all (fun e => (digits? 10 (splitSign e).2).isSome) &&
      (fraction.isSome || exponent.isSome)

/-! ## Dates and times -/

/-- A number of exactly two decimal digits. -/
def twoDigits? (a b : Char) : Option Nat :=
  match digit? 10 a, digit? 10 b with
  | some m, some n => some (10 * m + n)
  | _, _ => none

/-- The days of a month. -/
def daysIn (year month : Nat) : Nat :=
  if month == 2 then
    if year % 4 == 0 && (year % 100 != 0 || year % 400 == 0) then 29 else 28
  else if [4, 6, 9, 11].contains month then 30
  else 31

/-- Read a date `YYYY-MM-DD`. The result is what follows it. -/
def date? : Text → Option Text
  | a :: b :: c :: d :: '-' :: e :: f :: '-' :: g :: h :: rest =>
    match twoDigits? a b, twoDigits? c d, twoDigits? e f, twoDigits? g h with
    | some century, some year, some month, some day =>
      if 1 ≤ month && month ≤ 12 && 1 ≤ day && day ≤ daysIn (100 * century + year) month then
        some rest
      else none
    | _, _, _, _ => none
  | _ => none

/-- What follows the digits after a point, of which there is at least one. -/
def fraction? : Text → Option Text
  | '.' :: c :: rest =>
    if c.isDigit then some (rest.dropWhile Char.isDigit) else none
  | '.' :: _ => none
  | t => some t

/-- Read a time `HH:MM`, with optional seconds and their fraction. The result is what follows. -/
def time? : Text → Option Text
  | a :: b :: ':' :: c :: d :: rest =>
    match twoDigits? a b, twoDigits? c d with
    | some hour, some minute =>
      if hour ≤ 23 && minute ≤ 59 then
        match rest with
        | ':' :: e :: f :: rest =>
          match twoDigits? e f with
          | some second => if second ≤ 60 then fraction? rest else none
          | none => none
        | _ => some rest
      else none
    | _, _ => none
  | _ => none

/-- The letters are an offset from universal time. -/
def isOffset : Text → Bool
  | ['Z'] | ['z'] => true
  | [sign, a, b, ':', c, d] =>
    (sign == '+' || sign == '-') && (twoDigits? a b).any (· ≤ 23) && (twoDigits? c d).any (· ≤ 59)
  | _ => false

/-- The letters are a date, a time, or both with an optional offset. -/
def isDateTime (t : Text) : Bool :=
  match date? t with
  | none => time? t == some []
  | some [] => true
  | some (c :: rest) =>
    (c == 'T' || c == 't' || c == ' ') &&
      (time? rest).any fun rest => rest.isEmpty || isOffset rest

/-! ## Recognition -/

/-- The value that letters without quotes write. -/
def scalar? (t : Text) : Option Value :=
  if t == "true".toList then some (.boolean true)
  else if t == "false".toList then some (.boolean false)
  else
    match integer? t with
    | some n => some (.integer n)
    | none =>
      if isFloat t then some (.float t)
      else if isDateTime t then some (.dateTime t)
      else none

end Vyakarana.Toml
