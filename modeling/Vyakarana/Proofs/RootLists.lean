import Vyakarana.Proofs.Frame
import Vyakarana.Proofs.Simulation

/-!
# What the root lists decide

The root lists are consulted in two stages, and only for stems: strengthening looks up every stem,
the e-substitution the first one. It is the value as taught that is looked up. No stage changes
that or makes another stem, so the lists decide nothing but what they say of the stems of the
start.

* `Gana.AgreeOnStems` — the lists of two configurations say the same of every stem
* `Strengthening.body_congr`, `VowelLoss.body_congr` — the two stages that consult the lists
* `Grammar.derive_eq_of_agreeOnStems` — the same lists for the stems give the same derivations
-/

namespace Vyakarana

variable {gana other : Gana} {s t : State} {stem : Term} {i : Nat}

/-! ## Lists that agree -/

namespace Gana

/-- The lists of both name the root, or neither do. -/
structure Agree (gana other : Gana) (clean : Text) : Prop where
  vac : clean ∈ gana.vac ↔ clean ∈ other.vac
  grah : clean ∈ gana.grah ↔ clean ∈ other.grah
  phan : clean ∈ gana.phan ↔ clean ∈ other.phan

namespace Agree

variable {clean : Text}

theorem inVac_eq (h : gana.Agree other clean) : gana.inVac clean = other.inVac clean :=
  Bool.eq_iff_iff.mpr (by simpa only [inVac, List.contains_iff_mem] using h.vac)

theorem inGrah_eq (h : gana.Agree other clean) : gana.inGrah clean = other.inGrah clean :=
  Bool.eq_iff_iff.mpr (by simpa only [inGrah, List.contains_iff_mem] using h.grah)

theorem inPhan_eq (h : gana.Agree other clean) : gana.inPhan clean = other.inPhan clean :=
  Bool.eq_iff_iff.mpr (by simpa only [inPhan, List.contains_iff_mem] using h.phan)

end Agree

/-- The lists of both say the same of every stem. -/
def AgreeOnStems (gana other : Gana) (s : State) : Prop :=
  ∀ a ∈ s.terms, a.hasTag .anga = true → gana.Agree other a.clean

namespace AgreeOnStems

theorem of_find? (h : gana.AgreeOnStems other s) (hf : s.find? .anga = some (stem, i)) :
    gana.Agree other stem.clean :=
  h stem (List.mem_of_getElem? (State.get?_of_find? hf)) (State.hasTag_of_find? hf)

/-- Terms that evolve keep their categories and their values as taught. -/
theorem of_evolves {id : RuleId} (h : gana.AgreeOnStems other s) (hst : s.Evolves id t) :
    gana.AgreeOnStems other t := by
  intro b hb hstem
  obtain ⟨k, hk⟩ := List.mem_iff_getElem?.mp hb
  obtain ⟨a, ha⟩ := hst.exists_get?_rev hk
  have hterm := hst.term ha hk
  rw [Term.hasTag_congr hterm.tags] at hstem
  rw [hterm.clean]
  exact h a (List.mem_of_getElem? ha) hstem

/-- The abhyāsa that is put in is no stem. -/
theorem of_reduplicates (h : gana.AgreeOnStems other s) (hst : Reduplication.Reduplicates s t) :
    gana.AgreeOnStems other t := by
  intro b hb hstem
  rcases hst with hsame | ⟨root, k, -, hterms⟩
  · exact h b (hsame ▸ hb) hstem
  · rw [hterms, State.insert, List.mem_append, List.mem_cons] at hb
    rcases hb with hb | rfl | hb
    · exact h b (List.mem_of_mem_take hb) hstem
    · rw [Reduplication.hasTag_abhyasaOf] at hstem
      exact absurd hstem (by decide)
    · exact h b (List.mem_of_mem_drop hb) hstem

end AgreeOnStems

end Gana

/-! ## Strengthening -/

namespace Strengthening

theorem reshape_congr (h : gana.Agree other stem.clean) (suffix : Term) :
    reshape gana stem suffix = reshape other stem suffix := by
  simp only [reshape, h.inVac_eq, h.inGrah_eq]

/-- Only the stem at the position is looked up. -/
theorem reshapeAt_congr (h : ∀ a, s.terms[i]? = some a → gana.Agree other a.clean) :
    reshapeAt gana s i = reshapeAt other s i := by
  have hchange : change? gana s i = change? other s i := by
    unfold change?
    split
    · next stem suffix _ hstem _ => rw [reshape_congr (h stem hstem)]
    · rfl
  rw [reshapeAt, hchange, reshapeAt]

/-- Reshaping one stem does not change what is looked up for the others. -/
theorem reshapeEach_congr {positions : List Nat} (hfocus : ∀ i ∈ positions, s.IsFocus i)
    (h : ∀ i ∈ positions, ∀ a, s.terms[i]? = some a → gana.Agree other a.clean) :
    reshapeEach gana s positions = reshapeEach other s positions := by
  induction positions generalizing s with
  | nil => rfl
  | cons i rest ih =>
    have hfirst : reshapeAt gana s i = reshapeAt other s i := reshapeAt_congr (h i List.mem_cons_self)
    have hevolves : s.Evolves 0 (reshapeAt gana s i) :=
      (evolves_reshapeAt (hfocus i List.mem_cons_self)).1
    -- both go on from the same state, in which the other stems keep their values as taught
    show reshapeEach gana (reshapeAt gana s i) rest = reshapeEach other (reshapeAt other s i) rest
    rw [← hfirst]
    refine ih (fun j hj => hevolves.isFocus (hfocus j (List.mem_cons_of_mem i hj))) ?_
    intro j hj b hb
    obtain ⟨a, ha⟩ := hevolves.exists_get?_rev hb
    rw [(hevolves.term ha hb).clean]
    exact h j (List.mem_cons_of_mem i hj) a ha

theorem body_congr (h : gana.AgreeOnStems other s) : body gana s = body other s := by
  have hstems : reshapeEach gana s (stems s) = reshapeEach other s (stems s) := by
    refine reshapeEach_congr (fun _ => isFocus_of_mem_stems) fun i hi a ha => ?_
    obtain ⟨⟨b, j⟩, hmem, rfl⟩ := List.mem_map.mp hi
    obtain ⟨hb, hstem⟩ := State.mem_findAll.mp hmem
    obtain rfl := Option.some.inj (hb.symm.trans ha)
    exact h b (List.mem_of_getElem? hb) hstem
  unfold body
  split
  · rfl
  · rw [hstems]

end Strengthening

/-! ## Loss of vowels -/

namespace LitE

theorem verdict_congr (h : gana.Agree other stem.clean) (abhyasa : Term) :
    verdict gana abhyasa stem = verdict other abhyasa stem := by
  simp only [verdict, h.inPhan_eq]

/-- Only the first stem is looked up. -/
theorem successors_congr (h : gana.AgreeOnStems other s) : successors gana s = successors other s := by
  have hstatus : status gana s = status other s := by
    unfold status
    split
    · next abhyasa _ stem j _ hstem => simp only [verdict_congr (h.of_find? hstem)]
    · rfl
  rw [successors, hstatus, successors]

end LitE

namespace VowelLoss

theorem body_congr (h : gana.AgreeOnStems other s) : body gana s = body other s := by
  simp only [body, lossIn, LitE.successors_congr h]

end VowelLoss

/-! ## Derivations -/

namespace Grammar

/-- No stage makes a stem, or changes what is looked up for one. -/
theorem agreeOnStems_of_mem_apply {r : Rule} (hr : r ∈ standardStages gana aciSet kuSet)
    (h : gana.AgreeOnStems other s) (ht : t ∈ r.apply s) : gana.AgreeOnStems other t := by
  rcases List.mem_cons.mp hr with rfl | hr
  · rw [Reduplication.stage_eq] at ht
    exact Gana.AgreeOnStems.of_reduplicates (s := s.addOp Reduplication.slot.op) h
      (Reduplication.reduplicates_of_mem (Slot.mem_apply_rule ht)).1
  · exact h.of_evolves (evolves_of_mem_apply hr ht)

/-- The stages of both are the same as far as the lists agree. -/
theorem agreesWhile_standardStages (gana other : Gana) :
    List.Forall₂ (Rule.AgreesWhile (gana.AgreeOnStems other)) (standardStages gana aciSet kuSet)
      (standardStages other aciSet kuSet) := by
  have hkeeps : ∀ r ∈ standardStages gana aciSet kuSet, ∀ {s t}, gana.AgreeOnStems other s →
      t ∈ r.apply s → gana.AgreeOnStems other t := fun r hr s t => agreeOnStems_of_mem_apply hr
  have hadesha : ∀ {s : State}, gana.AgreeOnStems other s →
      (Strengthening.stage other).apply s = (Strengthening.stage gana).apply s := by
    intro s h
    rw [Strengthening.stage_eq, Strengthening.stage_eq, Slot.apply_rule, Slot.apply_rule,
      Strengthening.body_congr (s := s.addOp Strengthening.slot.op) h]
  have hloss : ∀ {s : State}, gana.AgreeOnStems other s →
      (VowelLoss.stage other).apply s = (VowelLoss.stage gana).apply s := by
    intro s h
    rw [VowelLoss.stage_eq, VowelLoss.stage_eq, Slot.apply_rule, Slot.apply_rule,
      VowelLoss.body_congr (s := s.addOp VowelLoss.slot.op) h]
  simp only [standardStages, List.forall_mem_cons] at hkeeps
  obtain ⟨hdvirvacana, hadesha', hrt, haci, hloss', hku, -⟩ := hkeeps
  exact .cons ⟨rfl, fun _ => rfl, hdvirvacana⟩ <| .cons ⟨rfl, hadesha, hadesha'⟩ <|
    .cons ⟨rfl, fun _ => rfl, hrt⟩ <| .cons ⟨rfl, fun _ => rfl, haci⟩ <|
    .cons ⟨rfl, hloss, hloss'⟩ <| .cons ⟨rfl, fun _ => rfl, hku⟩ .nil

/-- **The root lists decide nothing but what they say of the stems of the start.** With the same
limits, configurations that agree on those give the same outcome. So the order of a list and its
repetitions do not matter, nor what it says of other roots. -/
theorem derive_eq_of_agreeOnStems {c d : Config} (hc : c.validate = .ok ())
    (hd : d.validate = .ok ()) (hlimits : d.limits = c.limits) :
    ∃ g g', ofConfig c = .ok g ∧ ofConfig d = .ok g'
      ∧ (∀ s, c.gana.AgreeOnStems d.gana s → g'.derive s = g.derive s)
      ∧ ((∀ clean, c.gana.Agree d.gana clean) → ∀ s, g'.derive s = g.derive s) := by
  have hsame : ∀ s, c.gana.AgreeOnStems d.gana s →
      (standard d).derive s = (standard c).derive s := by
    intro s h
    show Pipeline.derive _ d.limits s = Pipeline.derive _ c.limits s
    rw [hlimits]
    exact Pipeline.derive_congr (agreesWhile_standardStages c.gana d.gana) c.limits h
  exact ⟨_, _, ofConfig_of_accepted hc, ofConfig_of_accepted hd, hsame,
    fun hall s => hsame s fun a _ _ => hall a.clean⟩

/-- The root vac before atus needs nothing but its own place in the first of the lists. -/
theorem derive_eq_of_agreeOnStems_vac :
    let atus := ((Term.vibhakti "atus".toList).withMarkers [.kit]).withLakshana [.liW]
    let s := State.ofTerms [.dhatu "vac".toList, atus]
    let d : Config := { gana := ⟨["tras", "vac", "vac"].map String.toList, [], ["rAj".toList]⟩ }
    Config.validate {} = .ok () ∧ d.validate = .ok () ∧ d.limits = Config.limits {}
      ∧ Gana.AgreeOnStems {} d.gana s
      ∧ ∃ g g', ofConfig {} = .ok g ∧ ofConfig d = .ok g' ∧ g'.derive s = g.derive s := by
  intro atus s d
  have hc : Config.validate {} = .ok () := by decide
  have hd : d.validate = .ok () := by decide
  have hagree : Gana.AgreeOnStems {} d.gana s := by
    intro a ha hstem
    simp only [s, State.ofTerms, List.mem_cons, List.not_mem_nil, or_false] at ha
    rcases ha with rfl | rfl
    · exact ⟨by decide, by decide, by decide⟩
    · exact absurd hstem (by decide)
  obtain ⟨g, g', hg, hg', hsame, -⟩ := derive_eq_of_agreeOnStems hc hd rfl
  exact ⟨hc, hd, rfl, hagree, g, g', hg, hg', hsame s hagree⟩

end Grammar

end Vyakarana
