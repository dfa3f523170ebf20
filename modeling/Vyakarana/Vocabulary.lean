import Vyakarana.OrderedSet
import Vyakarana.Text.Blank

/-!
# The closed vocabularies of the grammar

Four vocabularies are fixed once and for all: the categories a term belongs to (saṃjñā), the
it-markers of an upadeśa, the lakṣaṇa that names the origin of an ending, and the operations that
a derivation records as attempted. Every member has one SLP1 spelling.

## Reading

A spelling is read back after the white space around it is removed. What is refused is reported
as it was given, white space included.
-/

namespace Vyakarana

/-- A finite list of spelled words. The order of `all` is the order in which sets are shown. -/
class Vocabulary (α : Type) where
  /-- What a member is called in an error. -/
  kind : String
  /-- Every member, in order. -/
  all : List α
  /-- The SLP1 spelling. -/
  spelling : α → String

/-- A text that spells no member of the vocabulary called `kind`. -/
structure UnknownWord where
  kind : String
  text : Text
deriving DecidableEq, Repr

/-- The wording of the error. -/
def UnknownWord.message (e : UnknownWord) : String :=
  "unknown " ++ e.kind ++ ": " ++ String.ofList e.text

namespace Vocabulary

variable {α : Type} [Vocabulary α]

/-- The member that `text` spells exactly. -/
def ofSpelling? (text : Text) : Option α :=
  (all : List α).find? fun a => (spelling a).toList == text

/-- Read a member, disregarding white space around it. -/
def read (text : Text) : Except UnknownWord α :=
  match (ofSpelling? text.trim : Option α) with
  | some a => .ok a
  | none => .error ⟨kind α, text⟩

/-- The place of a member in `all`. -/
def index [DecidableEq α] (a : α) : Nat := (all : List α).idxOf a

end Vocabulary

/-! ## Categories -/

/-- Grammatical category (saṃjñā) of a term. -/
inductive Tag where
  | anga | dhatu
  /-- The reduplicated syllable copied from a dhātu. -/
  | abhyasa
  | pratyaya | sarvadhatuka | ardhadhatuka | tin | vibhakti | krt
deriving DecidableEq, Repr, Inhabited

instance : Ranked Tag where
  rank := Tag.ctorIdx
  rank_injective {a b} h := by rw [← Tag.ofNat_ctorIdx a, h, Tag.ofNat_ctorIdx]

instance : Vocabulary Tag where
  kind := "tag"
  all := [.anga, .dhatu, .abhyasa, .pratyaya, .sarvadhatuka, .ardhadhatuka, .tin, .vibhakti, .krt]
  spelling
    | .anga => "anga"
    | .dhatu => "dhatu"
    | .abhyasa => "abhyasa"
    | .pratyaya => "pratyaya"
    | .sarvadhatuka => "sarvadhatuka"
    | .ardhadhatuka => "ardhadhatuka"
    | .tin => "tin"
    | .vibhakti => "vibhakti"
    | .krt => "krt"

/-! ## It-markers -/

/-- It-marker of an upadeśa, named for the letter that marks it (kit, ṅit, ñit, …). -/
inductive Marker where
  | kit | Nit | Yit | Rit | wit | pit | mit | Sit | zit | cit | lit | adit | idit | udit | irit
deriving DecidableEq, Repr, Inhabited

instance : Ranked Marker where
  rank := Marker.ctorIdx
  rank_injective {a b} h := by rw [← Marker.ofNat_ctorIdx a, h, Marker.ofNat_ctorIdx]

instance : Vocabulary Marker where
  kind := "marker"
  all := [.kit, .Nit, .Yit, .Rit, .wit, .pit, .mit, .Sit, .zit, .cit, .lit, .adit, .idit, .udit,
    .irit]
  spelling
    | .kit => "k"
    | .Nit => "N"
    | .Yit => "Y"
    | .Rit => "R"
    | .wit => "w"
    | .pit => "p"
    | .mit => "m"
    | .Sit => "S"
    | .zit => "z"
    | .cit => "c"
    | .lit => "l"
    | .adit => "a~"
    | .idit => "i~"
    | .udit => "u~"
    | .irit => "ir"

/-- The marker that a single it-letter stands for. -/
def Marker.ofLetter? : Char → Option Marker
  | 'k' => some .kit
  | 'N' => some .Nit
  | 'Y' => some .Yit
  | 'R' => some .Rit
  | 'w' => some .wit
  | 'p' => some .pit
  | 'm' => some .mit
  | 'S' => some .Sit
  | 'z' => some .zit
  | 'c' => some .cit
  | 'l' => some .lit
  | _ => none

/-- The marker that a nasalised vowel stands for. -/
def Marker.ofNasalVowel? : Char → Option Marker
  | 'a' => some .adit
  | 'i' => some .idit
  | 'u' => some .udit
  | _ => none

/-! ## Lakṣaṇas -/

/-- The lakāra or other origin that produced an ending. -/
inductive Lakshana where
  | laW | liW | luW | lfW | leW | loW | laN | liN | luN | lfN | san | caN | iw
deriving DecidableEq, Repr, Inhabited

instance : Ranked Lakshana where
  rank := Lakshana.ctorIdx
  rank_injective {a b} h := by rw [← Lakshana.ofNat_ctorIdx a, h, Lakshana.ofNat_ctorIdx]

instance : Vocabulary Lakshana where
  kind := "lakshana"
  all := [.laW, .liW, .luW, .lfW, .leW, .loW, .laN, .liN, .luN, .lfN, .san, .caN, .iw]
  spelling
    | .laW => "la~w"
    | .liW => "li~w"
    | .luW => "lu~w"
    | .lfW => "lf~w"
    | .leW => "le~w"
    | .loW => "lo~w"
    | .laN => "la~N"
    | .liN => "li~N"
    | .luN => "lu~N"
    | .lfN => "lf~N"
    | .san => "san"
    | .caN => "caN"
    | .iw => "iw"

/-! ## Operations -/

/-- An operation that a derivation records as attempted. -/
inductive Operation where
  /-- Reduplication. -/
  | dvirvacana
  /-- Strengthening of the stem. -/
  | angaAdesha
  /-- Guṇa of a stem in ṛ. -/
  | rt
  /-- The rules before a vowel. -/
  | angaAci
  /-- Loss of a vowel and the e-substitution. -/
  | acAdesha
  /-- Substitution by the ku series. -/
  | angaKu
deriving DecidableEq, Repr, Inhabited

instance : Ranked Operation where
  rank := Operation.ctorIdx
  rank_injective {a b} h := by rw [← Operation.ofNat_ctorIdx a, h, Operation.ofNat_ctorIdx]

instance : Vocabulary Operation where
  kind := "operation"
  all := [.dvirvacana, .angaAdesha, .rt, .angaAci, .acAdesha, .angaKu]
  spelling
    | .dvirvacana => "dvirvacana"
    | .angaAdesha => "anga_adesha"
    | .rt => "rt"
    | .angaAci => "anga_aci"
    | .acAdesha => "ac_adesha"
    | .angaKu => "anga_ku"

end Vyakarana
