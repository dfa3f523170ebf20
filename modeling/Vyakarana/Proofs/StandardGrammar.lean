import Vyakarana.Grammar
import Vyakarana.Proofs.Reduplication
import Vyakarana.Proofs.Stages

/-!
# The standard grammar

An accepted configuration always gives the standard grammar: the same rule sets, and a pipeline in
which every stage has its slot. So its trees are small, and which stages fire on a way to a leaf
is known from the start state.

* `Grammar.ofConfig_eq_ok_iff` — when a grammar is put together, and what it is
* `Grammar.tree_bounds` — the trees of the standard pipeline are small
* `Grammar.stages_to_leaf` — the stages that fire
-/

namespace Vyakarana.Grammar

variable {c : Config} {g : Grammar} {gana : Gana} {s t : State}

/-! ## Assembly -/

/-- The rules before a vowel, with their identities. -/
def aciSet : RuleSet := ⟨RuleSet.number 0 BeforeVowel.rules, 0⟩

/-- The ku rules, with the identities after those. -/
def kuSet : RuleSet := ⟨RuleSet.number 5 Velar.rules, 5⟩

/-- The grammar that every accepted configuration gives. -/
def standard (c : Config) : Grammar where
  config := c
  pipeline := ⟨standardStages c.gana aciSet kuSet⟩
  ruleSets := [("anga_aci", aciSet), ("anga_ku", kuSet)]

theorem ofConfig_of_accepted (h : c.validate = .ok ()) : ofConfig c = .ok (standard c) := by
  unfold ofConfig
  rw [h]
  -- names, operations and identities do not depend on the configuration, so it all evaluates
  rfl

theorem ofConfig_of_refused {fault : Config.Fault} (h : c.validate = .error fault) :
    ofConfig c = .error (.config fault) := by
  unfold ofConfig
  rw [h]
  rfl

theorem ofConfig_eq_ok_iff : ofConfig c = .ok g ↔ c.validate = .ok () ∧ g = standard c := by
  cases h : c.validate with
  | error fault => simp [ofConfig_of_refused h]
  | ok u => simp [ofConfig_of_accepted h, eq_comm]

/-! ## Slots -/

/-- The slots of the standard stages. -/
def slots : List Slot := [
  Reduplication.slot,
  Strengthening.slot,
  Strengthening.rtSlot,
  BeforeVowel.slot,
  VowelLoss.slot,
  Velar.slot]

/-- The identity of the one rule that can be declined. -/
def declinable : RuleId := 8

theorem scheduledBy (gana : Gana) :
    Pipeline.ScheduledBy ⟨standardStages gana aciSet kuSet⟩ slots where
  governs :=
    .cons (Slot.governs_rule Reduplication.fits) <|
    .cons (Slot.governs_rule ((Strengthening.stemBody gana declinable).fits rfl)) <|
    .cons (Slot.governs_rule ((Strengthening.rtStemBody declinable).fits rfl)) <|
    .cons (Slot.governs_rule ((BeforeVowel.stemBody rfl declinable).fits rfl)) <|
    .cons (Slot.governs_rule ((VowelLoss.stemBody gana declinable).fits rfl)) <|
    .cons (Slot.governs_rule ((Velar.stemBody rfl).fits rfl)) .nil
  inOrder := by
    unfold InOrder
    decide

/-! ## The size of the trees -/

/-- The slots allow 11 nodes, of which 4 are leaves. -/
theorem tree_le (gana : Gana) (s : State) :
    (Pipeline.subtree ⟨standardStages gana aciSet kuSet⟩ slots ⟨s, []⟩).length ≤ 11
      ∧ (Pipeline.subtree ⟨standardStages gana aciSet kuSet⟩ slots ⟨s, []⟩).countP
        (Pipeline.isLeaf ⟨standardStages gana aciSet kuSet⟩) ≤ 4 := by
  have hsub := schedule_sublist s.has s.ops slots
  have hnodes := (scheduledBy gana).length_subtree_le ⟨s, []⟩
  have hleaves := (scheduledBy gana).leaves_subtree_le ⟨s, []⟩
  exact ⟨hnodes.trans (Pipeline.maxNodes_le_of_sublist hsub),
    hleaves.trans (Pipeline.maxLeaves_le_of_sublist hsub)⟩

/-- The start of pecatuḥ: the root pac before atus, which is kit in liṭ. -/
def pecatus : State :=
  .ofTerms [.dhatu "pac".toList,
    ((Term.vibhakti "atus".toList).withMarkers [.kit]).withLakshana [.liW]]

/-- **The trees of the standard grammar are finite**, with at most 11 nodes and between 1 and 4
leaves, whatever the start state. With limits that are no less nothing is left out. -/
theorem tree_bounds (h : c.validate = .ok ()) :
    ∃ g, ofConfig c = .ok g ∧ ∀ s,
      (∃ nodes, g.pipeline.preorder ⟨s, []⟩ = .ofList nodes ∧ nodes.length ≤ 11
        ∧ 1 ≤ nodes.countP g.pipeline.isLeaf ∧ nodes.countP g.pipeline.isLeaf ≤ 4)
      ∧ (11 ≤ c.limits.maxSteps → 4 ≤ c.limits.maxResults →
        (g.derive s).truncated = false ∧ (g.derive s).derivations ≠ []) := by
  refine ⟨standard c, ofConfig_of_accepted h, fun s => ?_⟩
  have heq := (scheduledBy c.gana).subtree_eq
  obtain ⟨hnodes, hleaves⟩ := tree_le c.gana s
  obtain ⟨leaf, hmem, hleaf⟩ := Pipeline.exists_leaf heq ⟨s, []⟩
  constructor
  · exact ⟨_, Pipeline.preorder_eq_ofList _ heq _, hnodes,
      List.countP_pos_iff.mpr ⟨leaf, hmem, hleaf⟩, hleaves⟩
  · intro hsteps hresults
    have hderive := Pipeline.derive_eq_of_finite heq (hnodes.trans hsteps) (hleaves.trans hresults)
    rw [derive]
    show (Pipeline.derive ⟨standardStages c.gana aciSet kuSet⟩ c.limits s).truncated = false
      ∧ (Pipeline.derive ⟨standardStages c.gana aciSet kuSet⟩ c.limits s).derivations ≠ []
    rw [hderive]
    refine ⟨rfl, List.ne_nil_of_mem (List.mem_map.mpr ⟨leaf, ?_, rfl⟩)⟩
    exact List.mem_filter.mpr ⟨hmem, hleaf⟩

theorem tree_bounds_pecatus : Config.validate {} = .ok ()
    ∧ ∃ g, ofConfig {} = .ok g ∧ (g.derive pecatus).truncated = false
      ∧ (g.derive pecatus).derivations ≠ [] := by
  have haccepted : Config.validate {} = .ok () := by decide
  obtain ⟨g, hg, hall⟩ := tree_bounds haccepted
  exact ⟨haccepted, g, hg, (hall pecatus).2 (by decide) (by decide)⟩

/-! ## The stages that fire -/

/-- Whether the stage that records an operation fires on the way to a leaf, by the operations
recorded at the start and by whether there is a root and a stem. -/
def fires (ops : OrderedSet Operation) (dhatu anga : Bool) (op : Operation) : Bool :=
  let dvirvacana := !decide (.dvirvacana ∈ ops) && dhatu
  let reduplicated := decide (.dvirvacana ∈ ops) || dvirvacana
  let angaAdesha := !decide (.angaAdesha ∈ ops) && reduplicated && anga
  match op with
  | .dvirvacana => dvirvacana
  | .angaAdesha => angaAdesha
  | .rt => !decide (.rt ∈ ops) && anga
  | .angaAci => !decide (.angaAci ∈ ops) && (decide (.angaAdesha ∈ ops) || angaAdesha) && anga
  | .acAdesha => !decide (.acAdesha ∈ ops) && reduplicated && anga
  | .angaKu => !decide (.angaKu ∈ ops) && anga

/-- A stage is named for its operation. -/
theorem stage_eq_spelling : ∀ slot ∈ slots, slot.stage = Vocabulary.spelling slot.op := by
  decide

theorem prepared_slots : Prepared [] slots := by
  simp [Prepared, slots, Reduplication.slot, Strengthening.slot, Strengthening.rtSlot,
    BeforeVowel.slot, VowelLoss.slot, Velar.slot]

theorem toldBy_fires {slot : Slot} (h : slot ∈ slots) (has : Tag → Bool)
    (ops : OrderedSet Operation) : slot.ToldBy (fires ops (has .dhatu) (has .anga)) has ops := by
  simp only [slots, List.mem_cons, List.not_mem_nil, or_false] at h
  unfold Slot.ToldBy
  rcases h with rfl | rfl | rfl | rfl | rfl | rfl
  · exact congrArg (· && has .dhatu) (Bool.and_true _).symm
  · rfl
  · exact congrArg (· && has .anga) (Bool.and_true _).symm
  · rfl
  · rfl
  · exact congrArg (· && has .anga) (Bool.and_true _).symm

/-- **All ways from a state to a leaf fire the same stages.** They are those that `fires` says, in
the order of the pipeline, and their operations are recorded at the leaf. -/
theorem stages_to_leaf {steps : List Step} (hg : ofConfig c = .ok g)
    (hpath : g.pipeline.Path s steps t) (hleaf : g.pipeline.step t = []) :
    let fired := (Vocabulary.all : List Operation).filter
      (fires s.ops (s.has .dhatu) (s.has .anga))
    steps.map Step.stage = fired.map Vocabulary.spelling ∧ t.ops = s.ops.insertAll fired
      ∧ (Vocabulary.all : List Operation).map Vocabulary.spelling
        = g.pipeline.stages.map Rule.name := by
  intro fired
  obtain ⟨-, rfl⟩ := ofConfig_eq_ok_iff.mp hg
  have hschedule : schedule s.has s.ops slots
      = slots.filter fun slot => fires s.ops (s.has .dhatu) (s.has .anga) slot.op :=
    schedule_eq_filter prepared_slots fun slot hslot => toldBy_fires hslot s.has s.ops
  have hops : (schedule s.has s.ops slots).map Slot.op = fired := by
    have hall : slots.map Slot.op = Vocabulary.all := rfl
    show _ = List.filter _ _
    rw [hschedule, ← hall, List.filter_map]
    rfl
  have hstages : (schedule s.has s.ops slots).map Slot.stage = fired.map Vocabulary.spelling := by
    rw [← hops, List.map_map]
    refine List.map_congr_left fun slot hslot => ?_
    exact stage_eq_spelling slot ((schedule_sublist s.has s.ops slots).subset hslot)
  obtain ⟨hpathStages, hpathOps⟩ :=
    Pipeline.Path.stages_eq_schedule (scheduledBy c.gana) hpath hleaf
  exact ⟨hpathStages.trans hstages, hpathOps.trans (by rw [hops]), rfl⟩

theorem stages_to_leaf_pecatus : ∃ g steps t, ofConfig {} = .ok g
    ∧ g.pipeline.Path pecatus steps t ∧ g.pipeline.step t = []
    ∧ steps.map Step.stage
      = ["dvirvacana", "anga_adesha", "rt", "anga_aci", "ac_adesha", "anga_ku"]
    ∧ t.ops = .ofList Vocabulary.all := by
  have hg := ofConfig_of_accepted (show Config.validate {} = .ok () by decide)
  obtain ⟨steps, t, hpath, hleaf⟩ := (scheduledBy {}).exists_path pecatus
  obtain ⟨hstages, hops, -⟩ := stages_to_leaf hg hpath hleaf
  exact ⟨_, steps, t, hg, hpath, hleaf, hstages.trans (by decide), hops.trans (by decide)⟩

end Vyakarana.Grammar
