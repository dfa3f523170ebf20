import Vyakarana.Sound

/-!
# Classes of sounds

A class is a list of sounds without repetition; the order matters, because the nearest member of
a class is the earliest of the best.

## Where classes come from

* a sound and all that is homogeneous with it (1.1.69);
* a stop series (varga): `ku cu wu tu pu`;
* an abbreviation (pratyāhāra) read off the Māheśvara sūtras: `ac`, `hal`, `ik`, `yaR`, …;
* a sound followed by `t`, which names that sound alone.

A specification is a list of such items between white space.
-/

namespace Vyakarana

/-- An ordered class of sounds. -/
structure SoundClass where
  /-- The members, in order. -/
  sounds : List Sound
deriving DecidableEq, Repr

namespace SoundClass

/-! ## Building classes -/

/-- The class without members. -/
def empty : SoundClass := ⟨[]⟩

/-- The class with `σ` added at its end, unless `s` is already in it. -/
def push (cls : SoundClass) (σ : Sound) : SoundClass :=
  if σ ∈ cls.sounds then cls else ⟨cls.sounds ++ [σ]⟩

/-- The class with each of the sounds pushed, in order. -/
def extend (cls : SoundClass) (sounds : List Sound) : SoundClass := sounds.foldl push cls

/-- The members of the first class, then those of the second that are new. -/
def union (a b : SoundClass) : SoundClass := a.extend b.sounds

/-- The class of a list of sounds, each at its first occurrence. -/
def ofSounds (sounds : List Sound) : SoundClass := empty.extend sounds

/-- The class of the sounds that a text writes. Other characters are passed over. -/
def ofText (t : Text) : SoundClass := ofSounds (t.filterMap Sound.ofChar?)

/-- The members written out. -/
def text (cls : SoundClass) : Text := cls.sounds.map Sound.toChar

/-- The character writes a member. -/
def contains (cls : SoundClass) (c : Char) : Bool := cls.sounds.any fun σ => σ.toChar == c

/-- The class of a sound and everything homogeneous with it (1.1.69). -/
def homogeneous (σ : Sound) : SoundClass :=
  match σ.simpleVowel? with
  | some .f => ofSounds [.f, .F, .x, .X]
  | some short => ofSounds (short :: short.dirgha?.toList)
  | none => ofSounds [σ]

/-- The class of the sound that a character writes and everything homogeneous with it. A character
that writes no sound has the empty class. -/
def homogeneousTo (c : Char) : SoundClass :=
  match Sound.ofChar? c with
  | some σ => homogeneous σ
  | none => empty

end SoundClass

/-! ## Stop series -/

/-- The five stop series. -/
inductive Varga where
  | ku | cu | wu | tu | pu
deriving DecidableEq, Repr

namespace Varga

/-- Every series. -/
def all : List Varga := [.ku, .cu, .wu, .tu, .pu]

/-- The name of a series. -/
def name : Varga → String
  | .ku => "ku"
  | .cu => "cu"
  | .wu => "wu"
  | .tu => "tu"
  | .pu => "pu"

/-- The series with a name. -/
def ofName? (t : Text) : Option Varga := all.find? fun v => v.name.toList == t

/-- The class of a series. -/
def sounds : Varga → SoundClass
  | .ku => ⟨[.k, .K, .g, .G, .N]⟩
  | .cu => ⟨[.c, .C, .j, .J, .Y]⟩
  | .wu => ⟨[.w, .W, .q, .Q, .R]⟩
  | .tu => ⟨[.t, .T, .d, .D, .n]⟩
  | .pu => ⟨[.p, .P, .b, .B, .m]⟩

end Varga

/-! ## Abbreviations -/

/-- One of the Māheśvara sūtras: its sounds and the it-letter that closes it. -/
structure SoundSutra where
  sounds : List Sound
  closing : Char

/-- The fourteen Māheśvara sūtras. -/
def maheshvaraSutras : List SoundSutra := [
  ⟨[.a, .i, .u], 'R'⟩,
  ⟨[.f, .x], 'k'⟩,
  ⟨[.e, .o], 'N'⟩,
  ⟨[.E, .O], 'c'⟩,
  ⟨[.h, .y, .v, .r], 'w'⟩,
  ⟨[.l], 'R'⟩,
  ⟨[.Y, .m, .N, .R, .n], 'm'⟩,
  ⟨[.J, .B], 'Y'⟩,
  ⟨[.G, .Q, .D], 'z'⟩,
  ⟨[.j, .b, .g, .q, .d], 'S'⟩,
  ⟨[.K, .P, .C, .W, .T, .c, .w, .t], 'v'⟩,
  ⟨[.k, .p], 'y'⟩,
  ⟨[.S, .z, .s], 'r'⟩,
  ⟨[.h], 'l'⟩]

/-- The sounds of the sūtras from the beginning through the first that `closing` closes. -/
def soundsThrough (closing : Char) : List SoundSutra → List Sound
  | [] => []
  | s :: rest => if s.closing == closing then s.sounds else s.sounds ++ soundsThrough closing rest

/-- The sounds from `first` on, through the first sūtra at or after it that `closing` closes. -/
def soundsBetween (first : Sound) (closing : Char) : List SoundSutra → List Sound
  | [] => []
  | s :: rest =>
    if first ∈ s.sounds then
      soundsThrough closing (⟨s.sounds.dropWhile (· != first), s.closing⟩ :: rest)
    else soundsBetween first closing rest

/-- The abbreviations that the rules use. -/
inductive Pratyahara where
  | ac | hal | ik | yaR | ec | ak | Jal | jaS | car | Kay | Sar
deriving DecidableEq, Repr

namespace Pratyahara

/-- Every abbreviation, in order. -/
def all : List Pratyahara := [.ac, .hal, .ik, .yaR, .ec, .ak, .Jal, .jaS, .car, .Kay, .Sar]

/-- The name of an abbreviation: its first sound and its it-letter, with a vowel between. -/
def name : Pratyahara → String
  | .ac => "ac"
  | .hal => "hal"
  | .ik => "ik"
  | .yaR => "yaR"
  | .ec => "ec"
  | .ak => "ak"
  | .Jal => "Jal"
  | .jaS => "jaS"
  | .car => "car"
  | .Kay => "Kay"
  | .Sar => "Sar"

/-- The abbreviation with a name. -/
def ofName? (t : Text) : Option Pratyahara := all.find? fun p => p.name.toList == t

/-- The sound that an abbreviation starts from. -/
def first : Pratyahara → Sound
  | .ac | .ak => .a
  | .hal => .h
  | .ik => .i
  | .yaR => .y
  | .ec => .e
  | .Jal => .J
  | .jaS => .j
  | .car => .c
  | .Kay => .K
  | .Sar => .S

/-- The it-letter that an abbreviation runs to. -/
def closing : Pratyahara → Char
  | .ac | .ec => 'c'
  | .hal | .Jal => 'l'
  | .ik | .ak => 'k'
  | .yaR => 'R'
  | .jaS => 'S'
  | .car | .Sar => 'r'
  | .Kay => 'y'

/-- The class of an abbreviation. Each short vowel brings its long counterpart
(1.1.69 aṇudit savarṇasya cāpratyayaḥ). -/
def sounds (p : Pratyahara) : SoundClass :=
  .ofSounds ((soundsBetween p.first p.closing maheshvaraSutras).flatMap
    fun σ => σ :: σ.dirgha?.toList)

example : (sounds .yaR).text = "yvrl".toList := by decide

example : (sounds .ik).text = "iIuUfFxX".toList := by decide

example : (sounds .ec).text = "eoEO".toList := by decide

example : (sounds .Sar).text = "Szs".toList := by decide

end Pratyahara

/-! ## Specifications -/

/-- A text that names no class of sounds. -/
structure UnknownSoundClass where
  text : Text
deriving DecidableEq, Repr

/-- The wording of the error. -/
def UnknownSoundClass.message (e : UnknownSoundClass) : String :=
  "unknown sound class: " ++ String.ofList e.text

/-- Read the name of an abbreviation, exactly as it is spelled. -/
def Pratyahara.read (t : Text) : Except UnknownSoundClass Pratyahara :=
  match ofName? t with
  | some p => .ok p
  | none => .error ⟨t⟩

namespace SoundClass

/-- The class that a single sound, or a sound followed by `t`, names. -/
def ofLetters? : Text → Option SoundClass
  | [c] => (Sound.ofChar? c).map homogeneous
  | [c, 't'] => (Sound.ofChar? c).map fun σ => ofSounds [σ]
  | _ => none

/-- The class that one item of a specification names. An abbreviation is recognised first, then
a stop series, then a sound. -/
def ofItem? (item : Text) : Option SoundClass :=
  match Pratyahara.ofName? item with
  | some p => some p.sounds
  | none =>
    match Varga.ofName? item with
    | some v => some v.sounds
    | none => ofLetters? item

/-- The union of the classes that the items name, from left to right. The first item that names
none is the error. -/
def ofItems : SoundClass → List Text → Except UnknownSoundClass SoundClass
  | cls, [] => .ok cls
  | cls, item :: items =>
    match ofItem? item with
    | some c => ofItems (cls.union c) items
    | none => .error ⟨item⟩

/-- Read a specification such as `i u`, `c j`, `ku`, `et` or `yaR`. One whose class comes out
empty is refused as a whole. -/
def read (spec : Text) : Except UnknownSoundClass SoundClass :=
  match ofItems empty spec.words with
  | .error e => .error e
  | .ok cls => if cls.sounds.isEmpty then .error ⟨spec⟩ else .ok cls

/-! ## The nearest member -/

/-- How near `τ` is to `σ`: place of articulation outweighs voice, aspiration and manner
together. -/
def nearness (σ τ : Sound) : Nat :=
  4 * (τ.place == σ.place).toNat + (τ.isVoiced == σ.isVoiced).toNat +
    (τ.isAspirated == σ.isAspirated).toNat + (τ.manner == σ.manner).toNat

/-- The nearer of the best sound so far and `τ`; the best so far stays if they are equal. -/
def nearer (σ : Sound) (best : Option Sound) (τ : Sound) : Option Sound :=
  match best with
  | none => some τ
  | some ρ => if nearness σ ρ < nearness σ τ then some τ else some ρ

/-- The member nearest to `σ`, the earliest of those equally near. -/
def closest (cls : SoundClass) (σ : Sound) : Option Sound := cls.sounds.foldl (nearer σ) none

example : Varga.ku.sounds.closest .h = some .G := by decide

example : (Pratyahara.sounds .ik).closest .r = some .f := by decide

end SoundClass

end Vyakarana
