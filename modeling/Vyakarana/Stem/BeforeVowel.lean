import Vyakarana.RuleSet.OnState

/-!
# Rules before a vowel (6.4.77 - 6.4.88)

A stem or an abhyāsa in `i` or `u` changes before a vowel. Later rules are more specific.
-/

namespace Vyakarana.BeforeVowel

/-- The vowels of the i and the u kind. -/
def iOrU : SoundClass := .ofSounds [.i, .I, .u, .U]

/-- The vowels of the i kind. -/
def anyI : SoundClass := .ofSounds [.i, .I]

/-- Iyaṅ for `i`, uvaṅ for `u`. -/
def iyanOrUvan (t : Term) : Substitution :=
  if t.endsIn anyI then .adesha "iya~N".toList else .adesha "uva~N".toList

/-- The right neighbour begins with a vowel. -/
def vowelFollows : Context := .startsWith (Pratyahara.sounds .ac)

/-- The final of the term and the initial of its right neighbour are homogeneous, or one of them
is missing. -/
def meetsSavarna (w : Window) : Bool :=
  match w.cur.antya?, w.right.bind Term.adi? with
  | some final, some initial =>
    match Sound.ofChar? final, Sound.ofChar? initial with
    | some σ, some τ => σ.isSavarna τ
    | _, _ => false
  | _, _ => true

/-- 6.4.77 aci śnudhātubhruvāṃ yvor iyaṅuvaṅau -/
def iyanUvan : WindowRule where
  name := "6.4.77"
  cur := some (.and (.hasTag .dhatu) (.endsIn iOrU))
  right := some vowelFollows
  decide w := .substitute (iyanOrUvan w.cur)

/-- 6.4.78 abhyāsasyāsavarṇe -/
def abhyasaIyanUvan : WindowRule where
  name := "6.4.78"
  cur := some (.and (.hasTag .abhyasa) (.endsIn iOrU))
  right := some vowelFollows
  decide w := if meetsSavarna w then .unchanged else .substitute (iyanOrUvan w.cur)

/-- 6.4.81 iṇo yaṇ -/
def inoYan : WindowRule where
  name := "6.4.81"
  cur := some (.and (.and (.hasTag .dhatu) (.cleanIn [['i']])) (.anyMarker [.Rit]))
  right := some vowelFollows
  decide _ := .substitute (.operator fun cur _ => cur.setAntya ['y'])

/-- The stem has several vowels, its abhyāsa included, and no cluster before its final. -/
def isAnekacAsamyoga (w : Window) : Bool :=
  (1 < w.cur.numSyllables || w.left.any (·.hasTag .abhyasa)) && !w.cur.hasSamyogaBeforeFinal

/-- 6.4.82 er anekāco 'saṃyogapūrvasya -/
def anekacYan : WindowRule where
  name := "6.4.82"
  cur := some (.and (.hasTag .dhatu) (.endsIn anyI))
  right := some vowelFollows
  decide w :=
    if isAnekacAsamyoga w then
      .substitute (.operator fun cur _ => cur.alTasya anyI (Pratyahara.sounds .yaR))
    else .unchanged

/-- The augment vuk. -/
def vuk : Text := "vu~k".toList

/-- 6.4.88 bhuvo vuk luṅliṭoḥ -/
def bhuvoVuk : WindowRule where
  name := "6.4.88"
  cur := some (.and (.hasTag .dhatu) (.cleanIn [['B', 'U']]))
  right := some (.and vowelFollows (.anyLakshana [.luN, .liW]))
  decide w :=
    if w.cur.value != ['B', 'U'] || w.cur.hasAugment vuk then .unchanged
    else .substitute (.agama vuk)

/-- The rules, from the most general. -/
def rules : List WindowRule := [iyanUvan, abhyasaIyanUvan, inoYan, anekacYan, bhuvoVuk]

/-- The terms that the rules are tried on: the first abhyāsa, then the stem. -/
def foci (s : State) (stem : Nat) : List Nat :=
  ((s.find? .abhyasa).map Prod.snd).toList ++ [stem]

/-- Apply the rules to the abhyāsa and then to the stem, unless the stem has no sounds. -/
def body (set : RuleSet) (s : State) : List State :=
  match s.find? .anga with
  | none => []
  | some (stem, j) => if stem.isEmpty then [s] else set.applyEach [s] (foci s j)

/-- What the stage reports. -/
def remarks (set : RuleSet) (s : State) : List Remark :=
  match s.find? .anga with
  | none => []
  | some (stem, j) => if stem.isEmpty then [] else set.remarksEach [s] (foci s j)

/-- The stage `anga_aci`. Strengthening comes before it. -/
def stage (set : RuleSet) : Rule :=
  ((Rule.plain "anga_aci" (body set) (remarks set)).once .angaAci).require .angaAdesha

end Vyakarana.BeforeVowel
