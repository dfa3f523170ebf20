import Vyakarana.Gana
import Vyakarana.Rule

/-!
# Strengthening and weakening of the stem

Before its suffix a stem undergoes samprasāraṇa, guṇa or vṛddhi, as the markers and the category
of the suffix demand. Stems in ṛ have a guṇa of their own before liṭ.
-/

namespace Vyakarana.Strengthening

/-! ## Samprasāraṇa, guṇa and vṛddhi -/

/-- What a stem becomes before a suffix. A kit or ṅit suffix blocks strengthening
(1.1.5 kṅiti ca). -/
def reshape (gana : Gana) (stem suffix : Term) : Term :=
  let kniti := suffix.anyMarker [.kit, .Nit]
  -- 6.1.15 vacisvapiyajādīnāṃ kiti
  let vac := suffix.hasMarker .kit && gana.inVac stem.clean
  -- 6.1.16 grahijyāvayivyadhivaṣṭivicativṛścatipṛcchatibhṛjjatīnāṃ ṅiti ca
  let grah := kniti && gana.inGrah stem.clean
  if vac || grah then stem.samprasarana
  else if kniti then stem
  else if suffix.anyMarker [.Yit, .Rit] then
    -- 7.2.115 aco ñṇiti, 7.2.116 ata upadhāyāḥ
    if stem.isAc || stem.upadha? == some 'a' then stem.vrddhi else stem.guna
  else if suffix.anyTag [.sarvadhatuka, .ardhadhatuka] then
    -- 7.3.84 sārvadhātukārdhadhātukayoḥ
    stem.guna
  else stem

/-- The stem at a position and what it becomes before the next term with sounds, if that differs
from it. -/
def change? (gana : Gana) (s : State) (i : Nat) : Option (Term × Term) :=
  match s.get? i, s.next? i with
  | some stem, some (suffix, _) =>
    let new := reshape gana stem suffix
    if new = stem then none else some (stem, new)
  | _, _ => none

/-- Reshape the stem at a position. -/
def reshapeAt (gana : Gana) (s : State) (i : Nat) : State :=
  match change? gana s i with
  | some (_, new) => s.replace i new
  | none => s

/-- Reshape the stems at the positions one after the other. -/
def reshapeEach (gana : Gana) (s : State) (positions : List Nat) : State :=
  positions.foldl (reshapeAt gana) s

/-- The changes that are made on the way. -/
def changes (gana : Gana) : State → List Nat → List Remark
  | _, [] => []
  | s, i :: rest =>
    match change? gana s i with
    | some (old, new) => .stemChanged old.value new.value :: changes gana (s.replace i new) rest
    | none => changes gana s rest

/-- The positions of the stems. -/
def stems (s : State) : List Nat := (s.findAll .anga).map Prod.snd

/-- Reshape every stem. A state without a stem is left to no stage. -/
def body (gana : Gana) (s : State) : List State :=
  match stems s with
  | [] => []
  | positions => [reshapeEach gana s positions]

/-- The stage `anga_adesha`. -/
def stage (gana : Gana) : Rule :=
  ((Rule.plain "anga_adesha" (body gana) fun s => changes gana s (stems s)).once
    .angaAdesha).require .dvirvacana

/-! ## Stems in ṛ before liṭ -/

/-- The stem takes guṇa before liṭ: it begins with a cluster and ends in short ṛ
(7.4.10 ṛtaś ca saṃyogāder guṇaḥ), or is the root ṛ, or ends in long ṝ (7.4.11 ṛcchatyṝtām). -/
def takesRtGuna (stem : Term) : Bool :=
  (stem.isSamyogadi && stem.antya? == some 'f') || stem.clean == ['f'] || stem.antya? == some 'F'

/-- Guṇa of such a stem before liṭ. -/
def rtBody (s : State) : List State :=
  match s.find? .anga with
  | none => []
  | some (stem, i) =>
    let lit := (s.next? i).any fun placed => placed.1.hasLakshana .liW
    if lit && takesRtGuna stem then [s.replace i stem.guna] else [s]

/-- The stage `rt`. -/
def rtStage : Rule := (Rule.silent "rt" rtBody).once .rt

end Vyakarana.Strengthening
