import Vyakarana.Gana
import Vyakarana.State

/-!
# The e-substitution in liṭ (6.4.120 - 6.4.126)

In liṭ some stems take `e` for their `a` and lose the abhyāsa. Of the rules of the group that
hold, the last one decides.
-/

namespace Vyakarana.LitE

/-- Whether the e-substitution applies. -/
inductive Status where
  | mandatory | optional | inapplicable
deriving DecidableEq, Repr

/-- The stem is an `a` between two single consonants, as in pac and ram
(6.4.120 ata ekahalmadhye 'nādeśāder liṭi). -/
def isEkahalMadhya (stem : Term) : Bool :=
  stem.upadha? == some 'a' && stem.value.length == 3

/-- The abhyāsa begins like the stem, as in pa-pac. -/
def isAnadeshadi (abhyasa stem : Term) : Bool :=
  abhyasa.adi?.isSome && abhyasa.adi? == stem.adi?

/-- The verdict of the group on a stem. Each condition overwrites what stands before it. -/
def verdict (gana : Gana) (abhyasa stem : Term) : Status :=
  let clean := stem.clean
  let general : Status :=
    if isEkahalMadhya stem && isAnadeshadi abhyasa stem then .mandatory else .inapplicable
  let listed : Status :=
    -- 6.4.122 tṝphalabhajatrapaś ca
    if ["tF".toList, "Pal".toList, "Baj".toList, "trap".toList].contains clean then .mandatory
    -- 6.4.123 rādho hiṃsāyām
    else if clean == "rAD".toList then .optional
    -- 6.4.124 vā jṝbhramutrasām
    else if ["jF".toList, "Bram".toList, "tras".toList].contains clean then .optional
    -- 6.4.125 phaṇāṃ ca saptānām
    else if gana.inPhan clean then .optional
    else general
  -- 6.4.126 na śasadadavādiguṇānām
  if ["Sas".toList, "dad".toList].contains clean || stem.adi? == some 'v' then .inapplicable
  else listed

/-- The suffix lets the group decide: it is kit or ṅit, or is `iTa` (6.4.121 thali ca seṭi). -/
def admitsE (suffix : Term) : Bool :=
  suffix.anyMarker [.kit, .Nit] || suffix.value == ['i', 'T', 'a']

/-- The verdict for the first stem of a state. The group has no say without an abhyāsa, a stem
and a term after the stem, or before a strong ending of liṭ. -/
def status (gana : Gana) (s : State) : Option Status :=
  match s.find? .abhyasa, s.find? .anga with
  | some (abhyasa, _), some (stem, j) =>
    match s.next? j with
    | none => none
    | some (suffix, _) =>
      if !suffix.hasLakshana .liW then some .inapplicable
      else if admitsE suffix then some (verdict gana abhyasa stem)
      else none
  | _, _ => none

/-- The state with `e` in the stem and without the abhyāsa. -/
def substituted (s : State) : Option State :=
  match s.find? .abhyasa, s.find? .anga with
  | some (abhyasa, i), some (stem, j) =>
    some ((s.replace i abhyasa.lopa).replace j
      (stem.alTasya (.ofSounds [.a, .A]) (.ofSounds [.e])))
  | _, _ => none

/-- The successors of a state by the group. None if the group has no say. -/
def successors (gana : Gana) (s : State) : List State :=
  match status gana s with
  | none => []
  | some .mandatory => (substituted s).toList
  | some .optional => (substituted s).toList ++ [s]
  | some .inapplicable => [s]

end Vyakarana.LitE
