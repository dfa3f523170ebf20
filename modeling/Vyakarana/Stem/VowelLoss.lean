import Vyakarana.Rule
import Vyakarana.Stem.LitE

/-!
# Loss of vowels in the stem

A stem loses its final `A` or its penultimate `a` before certain endings; otherwise the
e-substitution of liṭ has its turn.
-/

namespace Vyakarana.VowelLoss

/-- The roots of 6.4.98 gamahanajanakhanaghasāṃ lopaḥ kṅityanaṅi. -/
def gamAdi : List Text := ["gam", "han", "jan", "Kan", "Gas"].map String.toList

/-- The ending begins with the augment iṭ. -/
def isSet (tin : Term) : Bool :=
  (tin.parts.head?.any fun part => part.raw == "iw".toList) || tin.hasLakshana .iw

/-- What the first stem loses before the last term. -/
def lossIn (gana : Gana) (s : State) (stem : Term) (i : Nat) (tin : Term) : List State :=
  if stem.antya? == some 'A' && (isSet tin || tin.hasMarker .kit) then
    -- 6.4.64 āto lopa iṭi ca
    [s.replace i (stem.setAntya [])]
  else if gamAdi.contains stem.value && tin.anyMarker [.kit, .Nit] then
    [s.replace i (stem.setUpadha [])]
  else
    match LitE.successors gana s with
    | [] => [s]
    | states => states

/-- Loss of a vowel before the last term, if that stands after the stem. -/
def body (gana : Gana) (s : State) : List State :=
  match s.find? .anga with
  | none => []
  | some (stem, i) =>
    match s.terms.getLast? with
    | some tin => if i + 1 < s.size then lossIn gana s stem i tin else [s]
    | none => [s]

/-- The stage `ac_adesha`. Reduplication comes before it (1.1.59 dvirvacane 'ci). -/
def stage (gana : Gana) : Rule :=
  ((Rule.silent "ac_adesha" (body gana)).once .acAdesha).require .dvirvacana

end Vyakarana.VowelLoss
