import Vyakarana.Sound
import Vyakarana.Vocabulary
import Vyakarana.Text.Quoted

/-!
# Upadeśas

An upadeśa is the form in which an element is taught. Some of its letters are not sounds of the
element but marks on it (it-letters); reading an upadeśa separates the two.

## What is it (1.3.2 - 1.3.8)

* a nasalised vowel, written with `~` after it;
* a final consonant, except the t-varga, `s` and `m` of a vibhakti, and except a dhātu written
  without accents and nasals;
* at the beginning of an affix, `z`, a palatal or retroflex stop or nasal, `l`, `S`, or a sound
  of the ku series;
* at the beginning of a dhātu in dhātupāṭha notation, `Yi`, `wu` or `qu`, and at its end `i~r`.

Accent marks (`\` and `^`) are passed over.
-/

namespace Vyakarana

/-- What an upadeśa introduces. It decides which letters can be it. -/
inductive UpadeshaKind where
  | dhatu | pratyaya | vibhakti
  /-- An augment put into a term. -/
  | agama
  /-- A substitute for a term or a part of it. -/
  | adesha
deriving DecidableEq, Repr

/-- A taught form with the value and the markers read off it. -/
structure Upadesha where
  /-- The form as written. -/
  raw : Text
  /-- What is left when the it-letters and accents are taken away. -/
  value : Text
  markers : OrderedSet Marker
deriving DecidableEq

namespace Upadesha

/-! ## The single rules -/

/-- A form that is being read: the letters left and the markers found. -/
structure Reading where
  letters : Text
  markers : OrderedSet Marker
deriving DecidableEq

/-- The character is an accent mark. -/
def isAccent (c : Char) : Bool := c == '\\' || c == '^'

/-- The form has an accent or a nasal, so it is not a bare root. -/
def isNotated (raw : Text) : Bool := raw.any fun c => isAccent c || c == '~'

namespace Reading

/-- A final `i~r` marks a dhātu as irit. -/
def dropIrit (r : Reading) : Reading :=
  match r.letters.reverse with
  | 'r' :: '~' :: 'i' :: rest => ⟨rest.reverse, r.markers.insert .irit⟩
  | _ => r

/-- An initial `Yi`, `wu` or `qu` of a dhātu is it (1.3.5 ādir ñiṭuḍavaḥ). It is not recorded. -/
def dropInitialSyllable (r : Reading) : Reading :=
  match r.letters with
  | 'Y' :: 'i' :: rest => ⟨rest, r.markers⟩
  | 'w' :: 'u' :: rest => ⟨rest, r.markers⟩
  | 'q' :: 'u' :: rest => ⟨rest, r.markers⟩
  | _ => r

/-- A consonant at the end of a form of this kind can be it (1.3.3 halantyam, 1.3.4 na vibhaktau
tusmāḥ). -/
def finalCanBeIt (kind : UpadeshaKind) (notated : Bool) (final : Char) : Bool :=
  !isVowelChar final && final != '~' &&
    match kind with
    | .dhatu => notated
    | .vibhakti => !(['t', 'T', 'd', 'D', 'n', 's', 'm'].contains final)
    | _ => true

/-- The final letter is it if it can be and some marker is named for it. -/
def dropFinal (kind : UpadeshaKind) (notated : Bool) (r : Reading) : Reading :=
  match r.letters.getLast? with
  | none => r
  | some final =>
    if finalCanBeIt kind notated final then
      match Marker.ofLetter? final with
      | some m => ⟨r.letters.dropLast, r.markers.insert m⟩
      | none => r
    else r

/-- Take away every letter with a nasal mark after it, and the mark (1.3.2 upadeśe 'janunāsika
it). Those of `a`, `i` and `u` are recorded. -/
def dropNasals : Text → OrderedSet Marker → Reading
  | [], markers => ⟨[], markers⟩
  | [c], markers => ⟨[c], markers⟩
  | c :: d :: rest, markers =>
    if d == '~' then dropNasals rest (markers.insertAll (Marker.ofNasalVowel? c).toList)
    else
      let r := dropNasals (d :: rest) markers
      ⟨c :: r.letters, r.markers⟩

/-- The letter can be it at the beginning of an affix (1.3.6 - 1.3.8). -/
def initialCanBeIt (initial : Char) : Bool :=
  ['z', 'c', 'C', 'j', 'J', 'Y', 'w', 'W', 'q', 'Q', 'R', 'l', 'S', 'k', 'K', 'g', 'G', 'N'].contains
    initial

/-- The initial letter of an affix is it if it can be, some marker is named for it, and it is not
the only letter. -/
def dropInitial (r : Reading) : Reading :=
  match r.letters with
  | initial :: second :: rest =>
    if initialCanBeIt initial then
      match Marker.ofLetter? initial with
      | some m => ⟨second :: rest, r.markers.insert m⟩
      | none => r
    else r
  | _ => r

end Reading

/-! ## Reading a form -/

/-- What the rules leave of a form and the markers they find in it. -/
def analyse (raw : Text) (kind : UpadeshaKind) : Reading :=
  let notated := isNotated raw
  let plain : Reading := ⟨raw.filter (!isAccent ·), ∅⟩
  let trimmed := if kind == .dhatu && notated then plain.dropIrit.dropInitialSyllable else plain
  let closed := trimmed.dropFinal kind notated
  let voiced := Reading.dropNasals closed.letters closed.markers
  if kind == .pratyaya || kind == .vibhakti then voiced.dropInitial else voiced

/-- Read a form. Every text is a form; an empty value is a zero substitute. -/
def parse (raw : Text) (kind : UpadeshaKind) : Upadesha :=
  let r := analyse raw kind
  ⟨raw, r.letters, r.markers⟩

/-- An augment. -/
def agama (raw : Text) : Upadesha := parse raw .agama

/-- A substitute. -/
def adesha (raw : Text) : Upadesha := parse raw .adesha

/-- A form whose value is no sequence of sounds, or is empty. -/
structure Silent where
  raw : Text
deriving DecidableEq

/-- The wording of the error. -/
def Silent.message (e : Silent) : String :=
  "upadesha has no sounds: " ++ String.ofList e.raw.quoted

/-- Every character of the text writes a sound. -/
def isSounding (t : Text) : Bool := t.all fun c => (Sound.ofChar? c).isSome

/-- Read a form that must have a value, made of sounds only. -/
def parseStrict (raw : Text) (kind : UpadeshaKind) : Except Silent Upadesha :=
  let u := parse raw kind
  if u.value.isEmpty || !isSounding u.value then .error ⟨raw⟩ else .ok u

/-- A strict reading has a value, and nothing but sounds in it. -/
theorem sounds_of_parseStrict {raw : Text} {kind : UpadeshaKind} {u : Upadesha}
    (h : parseStrict raw kind = .ok u) : u.value ≠ [] ∧ isSounding u.value = true := by
  rw [parseStrict] at h
  split at h
  · simp at h
  · next hcond =>
    rw [← Except.ok.inj h]
    simpa using hcond

example : (agama "vu~k".toList).value = "v".toList := by decide

example : (parse "Sap".toList .pratyaya).markers.toList = [.pit, .Sit] := by decide

example : (parse "qukf\\Y".toList .dhatu).value = "kf".toList := by decide

end Upadesha

end Vyakarana
