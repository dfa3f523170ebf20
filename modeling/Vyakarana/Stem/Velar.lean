import Vyakarana.RuleSet.OnState

/-!
# The ku series after an abhyāsa (7.3.55 - 7.3.58)

After an abhyāsa some roots take a velar for their palatal or `h`.
-/

namespace Vyakarana.Velar

/-- The nearest velar for the last of the sounds. -/
def toKu (targets : SoundClass) : Substitution :=
  .operator fun cur _ => cur.alTasya targets Varga.ku.sounds

/-- The sound `h`. -/
def breath : SoundClass := .ofSounds [.h]

/-- The plain palatal stops. -/
def palatals : SoundClass := .ofSounds [.c, .j]

/-- San or liṭ follows. -/
def sanOrLit : Context := .anyLakshana [.san, .liW]

/-- 7.3.55 abhyāsāc ca -/
def abhyasacCa : WindowRule where
  name := "7.3.55"
  left := some (.hasTag .abhyasa)
  cur := some (.cleanIn ["han".toList])
  decide _ := .substitute (toKu breath)

/-- 7.3.56 her acaṅi -/
def herAcani : WindowRule where
  name := "7.3.56"
  left := some (.hasTag .abhyasa)
  cur := some (.cleanIn ["hi".toList])
  right := some (.not (.anyLakshana [.caN]))
  decide _ := .substitute (toKu breath)

/-- 7.3.57 sanliṭor jeḥ -/
def sanlitorJeh : WindowRule where
  name := "7.3.57"
  left := some (.hasTag .abhyasa)
  cur := some (.cleanIn ["ji".toList])
  right := some sanOrLit
  decide _ := .substitute (toKu palatals)

/-- 7.3.58 vibhāṣā ceḥ -/
def vibhasaCeh : WindowRule where
  name := "7.3.58"
  left := some (.hasTag .abhyasa)
  cur := some (.cleanIn ["ci".toList])
  right := some sanOrLit
  decide _ := .optional (toKu palatals)

/-- The rules, in order. -/
def rules : List WindowRule := [abhyasacCa, herAcani, sanlitorJeh, vibhasaCeh]

/-- Apply the rules to the stem. -/
def body (set : RuleSet) (s : State) : List State :=
  match s.find? .anga with
  | none => []
  | some (_, j) => set.applyAt s j

/-- What the stage reports. -/
def remarks (set : RuleSet) (s : State) : List Remark :=
  match s.find? .anga with
  | none => []
  | some (_, j) => set.remarksAt s j

/-- The stage `anga_ku`. -/
def stage (set : RuleSet) : Rule := (Rule.plain "anga_ku" (body set) (remarks set)).once .angaKu

end Vyakarana.Velar
