import Vyakarana.Text.Blank

/-!
# The sounds of Sanskrit

The forty-seven sounds that the grammar works on, each named by the single character that writes
it in SLP1, with the articulatory features that the rules look at.

## Homogeneity

Two sounds are homogeneous (savarṇa) when they are equal, or are the short and the long of one
simple vowel; ṛ and ḷ count as one vowel here.
-/

namespace Vyakarana

/-- Place of articulation (sthāna). -/
inductive Place where
  | velar | palatal | retroflex | dental | labial
deriving DecidableEq, Repr

/-- Broad manner of articulation. -/
inductive Manner where
  | vowel | stop | nasal | semivowel | sibilant
deriving DecidableEq, Repr

/-- A sound, named by its SLP1 character. -/
inductive Sound where
  | a | A | i | I | u | U | f | F | x | X | e | E | o | O | k | K | g | G | N | c | C | j | J
  | Y | w | W | q | Q | R | t | T | d | D | n | p | P | b | B | m | y | r | l | v | S | z | s
  | h
deriving DecidableEq, Repr, Inhabited

namespace Sound

/-- Every sound: the vowels, the five stop series, then the remaining consonants. -/
def all : List Sound :=
  [.a, .A, .i, .I, .u, .U, .f, .F, .x, .X, .e, .E, .o, .O, .k, .K, .g, .G, .N, .c, .C, .j, .J,
   .Y, .w, .W, .q, .Q, .R, .t, .T, .d, .D, .n, .p, .P, .b, .B, .m, .y, .r, .l, .v, .S, .z, .s,
   .h]

/-- The SLP1 character of a sound. -/
def toChar : Sound → Char
  | .a => 'a' | .A => 'A' | .i => 'i' | .I => 'I' | .u => 'u' | .U => 'U' | .f => 'f'
  | .F => 'F' | .x => 'x' | .X => 'X' | .e => 'e' | .E => 'E' | .o => 'o' | .O => 'O'
  | .k => 'k' | .K => 'K' | .g => 'g' | .G => 'G' | .N => 'N' | .c => 'c' | .C => 'C'
  | .j => 'j' | .J => 'J' | .Y => 'Y' | .w => 'w' | .W => 'W' | .q => 'q' | .Q => 'Q'
  | .R => 'R' | .t => 't' | .T => 'T' | .d => 'd' | .D => 'D' | .n => 'n' | .p => 'p'
  | .P => 'P' | .b => 'b' | .B => 'B' | .m => 'm' | .y => 'y' | .r => 'r' | .l => 'l'
  | .v => 'v' | .S => 'S' | .z => 'z' | .s => 's' | .h => 'h'

/-- The sound that a character writes. -/
def ofChar? (letter : Char) : Option Sound := all.find? fun σ => σ.toChar == letter

theorem mem_all (σ : Sound) : σ ∈ all := by cases σ <;> decide

theorem ofChar?_toChar (σ : Sound) : ofChar? σ.toChar = some σ := by cases σ <;> rfl

theorem toChar_of_ofChar? {letter : Char} {σ : Sound} (found : ofChar? letter = some σ) :
    σ.toChar = letter := by
  simpa using List.find?_some found

theorem toChar_injective {σ τ : Sound} (same : σ.toChar = τ.toChar) : σ = τ := by
  have back := ofChar?_toChar σ
  rw [same, ofChar?_toChar] at back
  exact (Option.some.inj back).symm

/-! ## Features -/

/-- Place of articulation. -/
def place : Sound → Place
  | a | A | k | K | g | G | N | h => .velar
  | i | I | e | E | c | C | j | J | Y | y | S => .palatal
  | f | F | w | W | q | Q | R | r | z => .retroflex
  | x | X | t | T | d | D | n | l | s => .dental
  | u | U | o | O | p | P | b | B | m | v => .labial

/-- Manner of articulation. The breath `h` goes with the sibilants. -/
def manner : Sound → Manner
  | a | A | i | I | u | U | f | F | x | X | e | E | o | O => .vowel
  | N | Y | R | n | m => .nasal
  | y | r | l | v => .semivowel
  | S | z | s | h => .sibilant
  | _ => .stop

/-- Pronounced with voice. -/
def isVoiced : Sound → Bool
  | k | K | c | C | w | W | t | T | p | P | S | z | s => false
  | _ => true

/-- Pronounced with aspiration. -/
def isAspirated : Sound → Bool
  | K | G | C | J | W | Q | T | D | P | B | h => true
  | _ => false

/-- The sound is a vowel. -/
def isVowel (σ : Sound) : Bool := σ.manner == .vowel

/-- The simple vowel, by its short member, of which a sound is the short or the long. -/
def simpleVowel? : Sound → Option Sound
  | a | A => some .a
  | i | I => some .i
  | u | U => some .u
  | f | F | x | X => some .f
  | _ => none

/-- The two sounds are homogeneous (1.1.9 tulyāsyaprayatnaṃ savarṇam). -/
def isSavarna (σ τ : Sound) : Bool :=
  σ == τ || (σ.simpleVowel?.isSome && σ.simpleVowel? == τ.simpleVowel?)

/-- The short counterpart of a vowel; a diphthong shortens to its second part. -/
def hrasva : Sound → Sound
  | A => .a
  | I | e | E => .i
  | U | o | O => .u
  | F => .f
  | X => .x
  | σ => σ

/-- The long counterpart of a short simple vowel. -/
def dirgha? : Sound → Option Sound
  | a => some .A
  | i => some .I
  | u => some .U
  | f => some .F
  | x => some .X
  | _ => none

/-- The unaspirated counterpart of an aspirated stop. -/
def deaspirate : Sound → Sound
  | K => .k
  | G => .g
  | C => .c
  | J => .j
  | W => .w
  | Q => .q
  | T => .t
  | D => .d
  | P => .p
  | B => .b
  | σ => σ

end Sound

/-- The character writes a vowel. -/
def isVowelChar (c : Char) : Bool := (Sound.ofChar? c).any Sound.isVowel

end Vyakarana
