import Vyakarana.SoundClass
import Vyakarana.Upadesha

/-!
# Terms

A term is one element of a derivation: a root, an ending, a reduplicated syllable. It keeps the
form it was taught in, and its value is what the rules have made of it so far. A term is never
changed; each operation gives a new one.
-/

namespace Vyakarana

/-- The identity of a window rule, by which a term records that the rule was declined. -/
abbrev RuleId := Nat

/-- An element of a derivation. -/
structure Term where
  /-- The taught form as written. -/
  raw : Text
  /-- The value as taught. Substitutions leave it alone. -/
  clean : Text
  /-- The value as it is now. -/
  value : Text
  tags : OrderedSet Tag := ∅
  markers : OrderedSet Marker := ∅
  lakshana : OrderedSet Lakshana := ∅
  /-- The augments put into the term, in the order of insertion. -/
  parts : List Upadesha := []
  /-- The optional rules that were declined on the term. -/
  declined : OrderedSet RuleId := ∅
deriving DecidableEq

namespace Term

/-! ## Building terms -/

/-- A term whose value is the text as given. -/
def plain (value : Text) : Term := { raw := value, clean := value, value }

/-- The term that an upadeśa teaches. -/
def ofUpadesha (u : Upadesha) : Term :=
  { raw := u.raw, clean := u.value, value := u.value, markers := u.markers }

/-- The term with more categories. -/
def withTags (t : Term) (tags : List Tag) : Term := { t with tags := t.tags.insertAll tags }

/-- The term with more markers. -/
def withMarkers (t : Term) (markers : List Marker) : Term :=
  { t with markers := t.markers.insertAll markers }

/-- The term with more lakṣaṇas. -/
def withLakshana (t : Term) (lakshana : List Lakshana) : Term :=
  { t with lakshana := t.lakshana.insertAll lakshana }

/-- The categories of a root: it is also the stem of what follows it. -/
def dhatuTags : List Tag := [.dhatu, .anga]

/-- The categories of a verbal ending (tiṅ). -/
def tinTags : List Tag := [.pratyaya, .vibhakti, .tin]

/-- A root. -/
def dhatu (raw : Text) : Term := (ofUpadesha (.parse raw .dhatu)).withTags dhatuTags

/-- A suffix. -/
def pratyaya (raw : Text) : Term := (ofUpadesha (.parse raw .pratyaya)).withTags [.pratyaya]

/-- A verbal ending. -/
def vibhakti (raw : Text) : Term := (ofUpadesha (.parse raw .vibhakti)).withTags tinTags

/-- A reduplicated syllable. -/
def abhyasa (value : Text) : Term := (plain value).withTags [.abhyasa]

/-! ## What a term carries -/

/-- The term has no sounds left. -/
def isEmpty (t : Term) : Bool := t.value.isEmpty

/-- The term has the category. -/
def hasTag (t : Term) (tag : Tag) : Bool := decide (tag ∈ t.tags)

/-- The term has one of the categories. -/
def anyTag (t : Term) (tags : List Tag) : Bool := tags.any t.hasTag

/-- The term has the marker. -/
def hasMarker (t : Term) (marker : Marker) : Bool := decide (marker ∈ t.markers)

/-- The term has one of the markers. -/
def anyMarker (t : Term) (markers : List Marker) : Bool := markers.any t.hasMarker

/-- The term has the lakṣaṇa. -/
def hasLakshana (t : Term) (l : Lakshana) : Bool := decide (l ∈ t.lakshana)

/-- The term has one of the lakṣaṇas. -/
def anyLakshana (t : Term) (ls : List Lakshana) : Bool := ls.any t.hasLakshana

/-- The augment taught as `raw` was put into the term. -/
def hasAugment (t : Term) (raw : Text) : Bool := t.parts.any fun part => part.raw == raw

/-- The optional rule was declined on the term. -/
def isDeclined (t : Term) (id : RuleId) : Bool := decide (id ∈ t.declined)

/-- Record that the optional rule was declined. -/
def decline (t : Term) (id : RuleId) : Term := { t with declined := t.declined.insert id }

/-! ## The sounds at the ends -/

/-- Final sound. -/
def antya? (t : Term) : Option Char := t.value.getLast?

/-- Initial sound. -/
def adi? (t : Term) : Option Char := t.value.head?

/-- Penultimate sound. -/
def upadha? (t : Term) : Option Char := t.value.dropLast.getLast?

/-- The final sound is in the class. -/
def endsIn (t : Term) (cls : SoundClass) : Bool := t.antya?.any cls.contains

/-- The initial sound is in the class. -/
def startsWith (t : Term) (cls : SoundClass) : Bool := t.adi?.any cls.contains

/-- The term ends in a vowel. -/
def isAc (t : Term) : Bool := t.antya?.any isVowelChar

/-- The first two of the sounds are consonants. -/
def beginsWithCluster : Text → Bool
  | c :: d :: _ => !isVowelChar c && !isVowelChar d
  | _ => false

/-- The term begins with a consonant cluster. -/
def isSamyogadi (t : Term) : Bool := beginsWithCluster t.value

/-- A consonant cluster stands directly before the final sound. -/
def hasSamyogaBeforeFinal (t : Term) : Bool := beginsWithCluster t.value.dropLast.reverse

/-- The number of vowels. -/
def numSyllables (t : Term) : Nat := t.value.countP isVowelChar

/-! ## Replacing single sounds -/

/-- The term with another value. -/
def withValue (t : Term) (value : Text) : Term := { t with value }

/-- Replace the final sound. An empty replacement deletes it. -/
def setAntya (t : Term) (replacement : Text) : Term :=
  if t.value.isEmpty then t else t.withValue (t.value.dropLast ++ replacement)

/-- Replace the initial sound. -/
def setAdi (t : Term) (replacement : Text) : Term :=
  match t.value with
  | [] => t
  | _ :: rest => t.withValue (replacement ++ rest)

/-- Replace the penultimate sound. -/
def setUpadha (t : Term) (replacement : Text) : Term :=
  match t.value.reverse with
  | last :: _ :: before => t.withValue (before.reverse ++ replacement ++ [last])
  | _ => t

/-- Delete the whole value. -/
def lopa (t : Term) : Term := t.withValue []

/-! ## Strengthening -/

/-- The guṇa of a sound that guṇa can meet. -/
def gunaOf : Char → Text
  | 'i' | 'I' => ['e']
  | 'u' | 'U' => ['o']
  | 'f' | 'F' => ['a', 'r']
  | 'x' | 'X' => ['a', 'l']
  | 'A' => ['A']
  | _ => ['a']

/-- The vṛddhi of a vowel. -/
def vrddhiOf : Char → Text
  | 'i' | 'I' | 'e' | 'E' => ['E']
  | 'u' | 'U' | 'o' | 'O' => ['O']
  | 'f' | 'F' => ['A', 'r']
  | 'x' | 'X' => ['A', 'l']
  | _ => ['A']

/-- A short ik vowel. -/
def isLightIk (c : Char) : Bool := ['i', 'u', 'f', 'x'].contains c

/-- Guṇa of a final ik vowel, or of a light penultimate one before a final consonant (7.3.84,
7.3.86). -/
def guna (t : Term) : Term :=
  match t.antya? with
  | none => t
  | some last =>
    if (Pratyahara.sounds .ik).contains last then t.setAntya (gunaOf last)
    else
      match t.upadha? with
      | none => t
      | some upadha =>
        if isLightIk upadha && !isVowelChar last then t.setUpadha (gunaOf upadha) else t

/-- Vṛddhi of a final vowel, or of a penultimate `a` (7.2.115, 7.2.116). -/
def vrddhi (t : Term) : Term :=
  match t.antya? with
  | none => t
  | some last =>
    if isVowelChar last then t.setAntya (vrddhiOf last)
    else if t.upadha? == some 'a' then t.setUpadha ['A']
    else t

/-! ## Samprasāraṇa -/

/-- The ik vowel that takes the place of a semivowel. -/
def vocalised? (c : Char) : Option Char :=
  if (Pratyahara.sounds .yaR).contains c then
    ((Sound.ofChar? c).bind (Pratyahara.sounds .ik).closest).map Sound.toChar
  else none

/-- The sounds with the first semivowel before a vowel turned into its ik vowel, and the vowel
after it merged into that. -/
def vocaliseFirst? : Text → Option Text
  | c :: d :: rest =>
    match vocalised? c, isVowelChar d with
    | some v, true => some (v :: rest)
    | _, _ => (vocaliseFirst? (d :: rest)).map (c :: ·)
  | _ => none

/-- Samprasāraṇa (1.1.45 ig yaṇaḥ samprasāraṇam, 6.1.108 samprasāraṇāc ca). -/
def samprasarana (t : Term) : Term :=
  match vocaliseFirst? t.value with
  | some value => t.withValue value
  | none => t

/-! ## Substitution -/

/-- The sounds before the last one that satisfies `p`, that sound, and the sounds after it. -/
def splitLast (p : Char → Bool) : Text → Option (Text × Char × Text)
  | [] => none
  | c :: rest =>
    match splitLast p rest with
    | some (before, found, after) => some (c :: before, found, after)
    | none => if p c then some ([], c, rest) else none

/-- Replace the last sound that belongs to `target` by the nearest in `result`. Without such a
sound, or without a nearest one, the term stays. -/
def alTasya (t : Term) (target result : SoundClass) : Term :=
  match splitLast target.contains t.value with
  | none => t
  | some (before, found, after) =>
    match (Sound.ofChar? found).bind result.closest with
    | some σ => t.withValue (before ++ σ.toChar :: after)
    | none => t

/-- The value with an augment put after its last vowel, or at its end if it has none. -/
def insertAfterLastVowel (value augment : Text) : Text :=
  match splitLast isVowelChar value with
  | some (before, vowel, after) => before ++ vowel :: (augment ++ after)
  | none => value ++ augment

/-- The term with another value and one more augment. -/
def withPart (t : Term) (value : Text) (u : Upadesha) : Term :=
  { t with value, parts := t.parts ++ [u] }

/-- Substitute with an upadeśa, which is placed by its markers:

* a kit augment goes last and a ṭit augment first (1.1.46 ādyantau ṭakitau);
* a mit augment goes after the last vowel (1.1.47 mid aco 'ntyāt paraḥ);
* a ṅit substitute replaces the final sound (1.1.53 ṅic ca);
* a śit substitute, or one of several sounds, replaces the whole (1.1.55 anekāl śit sarvasya);
* any other replaces the final sound (1.1.52 alo 'ntyasya).

The first of these that applies decides. -/
def tasya (t : Term) (u : Upadesha) : Term :=
  if .kit ∈ u.markers then t.withPart (t.value ++ u.value) u
  else if .wit ∈ u.markers then t.withPart (u.value ++ t.value) u
  else if .mit ∈ u.markers then t.withPart (insertAfterLastVowel t.value u.value) u
  else if .Nit ∈ u.markers then t.setAntya u.value
  else if .Sit ∈ u.markers ∨ 1 < u.value.length then t.withValue u.value
  else t.setAntya u.value

example : (dhatu "BU".toList).guna.value = "Bo".toList := by decide

example : (dhatu "grah".toList).samprasarana.value = "gfh".toList := by decide

example : ((dhatu "SrI".toList).tasya (.adesha "iya~N".toList)).value = "Sriy".toList := by decide

end Term

end Vyakarana
