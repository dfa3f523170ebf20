import Vyakarana.Rule

/-!
# Reduplication (dvirvacana)

Before liṭ and san a root is preceded by a copy of its first syllable, which is then reduced to
the abhyāsa by 7.4.59 - 7.4.73 and 8.4.54.
-/

namespace Vyakarana.Reduplication

/-- A change of sounds, on characters. What writes no sound stays. -/
def onChar (f : Sound → Sound) (c : Char) : Char :=
  match Sound.ofChar? c with
  | some σ => (f σ).toChar
  | none => c

/-- The palatal for a velar or `h` (7.4.62 kuhoś cuḥ). -/
def palatalise : Sound → Sound
  | .k => .c
  | .K => .C
  | .g | .h => .j
  | .G => .J
  | .N => .Y
  | σ => σ

/-- The one consonant that is kept of those before the vowel: of a sibilant and a voiceless stop
the stop (7.4.61 śarpūrvāḥ khayaḥ), else the first (7.4.60 halādiḥ śeṣaḥ). -/
def keptConsonant? : Text → Option Char
  | first :: second :: _ =>
    if (Pratyahara.sounds .Sar).contains first && (Pratyahara.sounds .Kay).contains second then
      some second
    else some first
  | [first] => some first
  | [] => none

/-- The vowel of the copy: short (7.4.59 hrasvaḥ), and `a` for ṛ (7.4.66 ur at). -/
def reduceVowel (σ : Sound) : Sound :=
  match σ.hrasva with
  | .f | .x => .a
  | short => short

/-- The term is the root bhū. -/
def isBhu (t : Term) : Bool := t.clean == ['B', 'U'] && t.hasTag .dhatu

/-- The vowel of the copy of a root, of which bhū has `a` (7.4.73 bhavater aḥ). -/
def copiedVowel (root : Term) (vowel : Char) : Char :=
  if isBhu root then 'a' else onChar reduceVowel vowel

/-- The abhyāsa of a root, made from its first syllable. The consonant is palatalised and then
loses its aspiration (8.4.54 abhyāse car ca). -/
def abhyasaOf (root : Term) : Term :=
  let onset := root.value.takeWhile (!isVowelChar ·)
  let vowel := (root.value.dropWhile (!isVowelChar ·)).head?
  let consonant := (keptConsonant? onset).map fun c =>
    onChar Sound.deaspirate (onChar palatalise c)
  .abhyasa (consonant.toList ++ (vowel.map (copiedVowel root)).toList)

/-- The root to be reduplicated and its position: the first root, if liṭ or san follows
(6.1.8 liṭi dhātor anabhyāsasya, 6.1.9 sanyaṅoḥ), it has sounds, and no abhyāsa stands directly
before it. -/
def target? (s : State) : Option (Term × Nat) :=
  match s.find? .dhatu with
  | none => none
  | some (root, i) =>
    let due := (s.next? i).any fun placed => placed.1.anyLakshana [.liW, .san]
    let done := 0 < i && (s.get? (i - 1)).any (·.hasTag .abhyasa)
    if due && !done && !root.isEmpty then some (root, i) else none

/-- Put the abhyāsa before the root. A state without a root is left to no stage. -/
def body (s : State) : List State :=
  match s.find? .dhatu with
  | none => []
  | some _ =>
    match target? s with
    | some (root, i) => [s.insert i (abhyasaOf root)]
    | none => [s]

/-- What the stage reports. -/
def remarks (s : State) : List Remark :=
  match target? s with
  | some (root, _) => [.reduplicated root.value (abhyasaOf root).value]
  | none => []

/-- The stage `dvirvacana`. -/
def stage : Rule := (Rule.plain "dvirvacana" body remarks).once .dvirvacana

example : (abhyasaOf (.dhatu "sTA".toList)).value = "ta".toList := by decide

example : (abhyasaOf (.dhatu "BU".toList)).value = "ba".toList := by decide

end Vyakarana.Reduplication
