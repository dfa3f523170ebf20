import Vyakarana.Config
import Vyakarana.Stem.BeforeVowel
import Vyakarana.Stem.Reduplication
import Vyakarana.Stem.Strengthening
import Vyakarana.Stem.Velar
import Vyakarana.Stem.VowelLoss

/-!
# The standard grammar

The stages in their order, and the rule sets that two of them consult:

1. `dvirvacana` - reduplication before liṭ and san
2. `anga_adesha` - samprasāraṇa, guṇa, vṛddhi
3. `rt` - guṇa of stems in ṛ before liṭ
4. `anga_aci` - substitutions before a vowel
5. `ac_adesha` - loss of vowels and the e-substitution of liṭ
6. `anga_ku` - the ku series after an abhyāsa
-/

namespace Vyakarana

/-- A configured pipeline with its rule sets. -/
structure Grammar where
  config : Config
  pipeline : Pipeline
  /-- The rule sets, each with the name of the stage that consults it. -/
  ruleSets : List (String × RuleSet)

namespace Grammar

/-- Why a grammar cannot be put together. -/
inductive Fault where
  | config (fault : Config.Fault)
  | ruleSet (fault : RuleSet.Fault)
  | pipeline (fault : Pipeline.Fault)
deriving DecidableEq, Repr

/-- The wording of the error. -/
def Fault.message : Fault → String
  | config f => f.message
  | ruleSet f => f.message
  | pipeline f => f.message

/-- The rules before a vowel, then the ku rules, numbered on after them. -/
def standardSets : Except RuleSet.Fault (RuleSet × RuleSet) := do
  let aci ← RuleSet.build BeforeVowel.rules
  let ku ← aci.buildAfter Velar.rules
  RuleSet.ensureDisjoint [("anga_aci", aci), ("anga_ku", ku)]
  return (aci, ku)

/-- The stages in order. -/
def standardStages (gana : Gana) (aci ku : RuleSet) : List Rule := [
  Reduplication.stage,
  Strengthening.stage gana,
  Strengthening.rtStage,
  BeforeVowel.stage aci,
  VowelLoss.stage gana,
  Velar.stage ku]

/-- The standard grammar of an acceptable configuration. -/
def ofConfig (c : Config) : Except Fault Grammar := do
  c.validate.mapError .config
  let (aci, ku) ← standardSets.mapError .ruleSet
  let pipeline ← (Pipeline.build (standardStages c.gana aci ku)).mapError .pipeline
  return ⟨c, pipeline, [("anga_aci", aci), ("anga_ku", ku)]⟩

/-- Find the derivations from a start state, within the configured limits. -/
def derive (g : Grammar) (start : State) : Outcome := g.pipeline.derive g.config.limits start

/-- What is reported on the way. -/
def events (g : Grammar) (start : State) : List Event := g.pipeline.events g.config.limits start

end Grammar

end Vyakarana
