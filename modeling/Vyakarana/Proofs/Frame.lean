import Vyakarana.Proofs.StandardGrammar

/-!
# What a derivation leaves alone

Reduplication comes first in the standard pipeline, so a derivation puts in its abhyāsa with its
first step or not at all. After that every stage only lets the terms evolve: they stay in their
places and keep everything but their values, an augment of bhū and the one rule that can be
declined.

* `Grammar.evolves_of_closed` — once reduplication had its turn, the terms stay
* `Grammar.frame_of_path` — what a derivation makes of the terms of its start
-/

namespace Vyakarana.Grammar

variable {c : Config} {g : Grammar} {gana : Gana} {s t : State} {steps : List Step}

/-- The rules of a name. -/
def rulesNamed (g : Grammar) (name : String) : List WindowRule :=
  (g.ruleSets.flatMap fun set => set.2.rules).filter (·.name == name)

/-- All stages but reduplication let the terms evolve. -/
theorem evolves_of_mem_apply {r : Rule}
    (hr : r ∈ [Strengthening.stage gana, Strengthening.rtStage, BeforeVowel.stage aciSet,
      VowelLoss.stage gana, Velar.stage kuSet])
    (ht : t ∈ r.apply s) : s.Evolves declinable t := by
  simp only [List.mem_cons, List.not_mem_nil, or_false] at hr
  rcases hr with rfl | rfl | rfl | rfl | rfl
  · rw [Strengthening.stage_eq] at ht
    exact (Strengthening.stemBody gana declinable).evolves_rule ht
  · rw [Strengthening.rtStage_eq] at ht
    exact (Strengthening.rtStemBody declinable).evolves_rule ht
  · rw [BeforeVowel.stage_eq] at ht
    exact (BeforeVowel.stemBody rfl declinable).evolves_rule ht
  · rw [VowelLoss.stage_eq] at ht
    exact (VowelLoss.stemBody gana declinable).evolves_rule ht
  · rw [Velar.stage_eq] at ht
    exact (Velar.stemBody rfl).evolves_rule ht

/-- Reduplication is the first stage and has the first slot. -/
theorem ne_reduplication_of_mem_tail {slot : Slot} (hslot : slot ∈ slots.tail) {r : Rule}
    (hr : slot.Governs r) : r ≠ Reduplication.stage := by
  rintro rfl
  have hothers : ∀ slot ∈ slots.tail, slot.stage ≠ "dvirvacana" := by decide
  exact hothers slot hslot hr.name.symm

/-- Once reduplication is not scheduled any more, the terms stay in their places. -/
theorem evolves_of_closed (hclosed : (schedule s.has s.ops slots).Sublist slots.tail)
    (hpath : Pipeline.Path ⟨standardStages gana aciSet kuSet⟩ s steps t) :
    s.Evolves declinable t := by
  induction hpath with
  | refl s => exact State.Evolves.refl s
  | @step s t u stage steps hfirst _ ih =>
    obtain ⟨slot, rest, r, hmem, hsch, hr, -, ht, hrest⟩ := (scheduledBy gana).of_mem_step hfirst
    rw [hsch] at hclosed
    have hst : s.Evolves declinable t := by
      rcases List.mem_cons.mp hmem with hfst | hmem
      · exact absurd hfst (ne_reduplication_of_mem_tail (hclosed.subset List.mem_cons_self) hr)
      · exact evolves_of_mem_apply hmem ht
    refine hst.trans (ih ?_)
    rw [hrest]
    exact (List.sublist_cons_self slot rest).trans hclosed

/-- **What a derivation makes of the terms of its start.** They evolve as they are, or the first
step puts the abhyāsa of the first root before it and they evolve together with that. -/
theorem frame_of_path (hg : ofConfig c = .ok g) (hpath : g.pipeline.Path s steps t) :
    ∃ r, g.rulesNamed "7.3.58" = [r]
      ∧ (s.Evolves r.id t
        ∨ ∃ root i u rest, s.find? .dhatu = some (root, i) ∧ steps = ⟨"dvirvacana", u⟩ :: rest
          ∧ u.terms = s.terms.take i ++ Reduplication.abhyasaOf root :: s.terms.drop i
          ∧ (Reduplication.abhyasaOf root).tags = .ofList [.abhyasa]
          ∧ u.Evolves r.id t) := by
  obtain ⟨-, rfl⟩ := ofConfig_eq_ok_iff.mp hg
  refine ⟨{ Velar.vibhasaCeh with id := declinable }, rfl, ?_⟩
  cases hpath with
  | refl => exact Or.inl (State.Evolves.refl s)
  | @step _ u _ stage rest hfirst hrest =>
    obtain ⟨slot, later, r, hmem, hsch, hr, rfl, hu, hlater⟩ :=
      (scheduledBy c.gana).of_mem_step hfirst
    have hut : u.Evolves declinable t := by
      refine evolves_of_closed ?_ hrest
      rw [hlater]
      have hsub := schedule_sublist s.has s.ops slots
      rw [hsch] at hsub
      exact hsub.tail
    rcases List.mem_cons.mp hmem with rfl | hmem
    · rw [Reduplication.stage_eq] at hu
      have hname : "dvirvacana" = slot.stage := hr.name
      obtain ⟨hsame | ⟨root, i, hroot, hterms⟩, -⟩ :=
        Reduplication.reduplicates_of_mem (Slot.mem_apply_rule hu)
      · exact Or.inl (hut.of_same_terms hsame)
      · exact Or.inr ⟨root, i, u, rest, hroot, by rw [hname], hterms, rfl, hut⟩
    · exact Or.inl ((evolves_of_mem_apply hmem hu).trans hut)

theorem frame_of_path_pecatus : ∃ g steps t, ofConfig {} = .ok g
    ∧ g.pipeline.Path pecatus steps t ∧ g.pipeline.step t = []
    ∧ ∃ r, g.rulesNamed "7.3.58" = [r]
      ∧ (pecatus.Evolves r.id t
        ∨ ∃ root i u rest, pecatus.find? .dhatu = some (root, i)
          ∧ steps = ⟨"dvirvacana", u⟩ :: rest
          ∧ u.terms = pecatus.terms.take i ++ Reduplication.abhyasaOf root :: pecatus.terms.drop i
          ∧ (Reduplication.abhyasaOf root).tags = .ofList [.abhyasa]
          ∧ u.Evolves r.id t) := by
  have hg := ofConfig_of_accepted (show Config.validate {} = .ok () by decide)
  obtain ⟨steps, t, hpath, hleaf⟩ := (scheduledBy {}).exists_path pecatus
  exact ⟨_, steps, t, hg, hpath, hleaf, frame_of_path hg hpath⟩

end Vyakarana.Grammar
