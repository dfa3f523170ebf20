import Vyakarana.Proofs.LastRuling
import Vyakarana.Proofs.NearestMember
import Vyakarana.Proofs.VerbRun

/-!
# The e-substitution and the loss of the abhyāsa

The e-substitution takes the sounds of the abhyāsa away without a look at the stem. With the root
lists as they are by default the stem has an `a` or an `A` whenever it takes place: the roots that
are named have one, or end in `F` and get one by guṇa, and all others are named by their `a`.

* `LitE.verdict_cases` — which stems the group is for
* `VerbStart.hasA_strengthened`, `VerbStart.LossReady.hasA` — the stem has an `a` or an `A`
* `VerbStart.eSubstituted_of_silent` — an abhyāsa loses its sounds by the e-substitution only
* `Grammar.eSubstitution_of_silent` — and then the stem has got an `e`
-/

namespace Vyakarana

open Grammar (aciSet kuSet)
open Pipeline

/-! ## Stems with `a` -/

/-- The vowels of which `e` takes the place. -/
def aKind : SoundClass := .ofSounds [.a, .A]

theorem eq_of_aKind {sound : Char} (h : aKind.contains sound = true) :
    sound = 'a' ∨ sound = 'A' :=
  SoundClass.of_contains (fun c => c = 'a' ∨ c = 'A') h (by decide)

/-- The term has an `a` or an `A`. -/
def Term.HasA (a : Term) : Prop := ∃ sound ∈ a.value, aKind.contains sound = true

theorem Term.hasA_iff {a : Term} : a.HasA ↔ a.value.any aKind.contains = true :=
  List.any_eq_true.symm

theorem Term.hasA_congr {a b : Term} (h : a.value = b.value) (hb : b.HasA) : a.HasA := by
  rw [HasA, h]
  exact hb

/-- The last `a` or `A` gives way to `e`. -/
theorem Term.HasA.exists_alTasya {a : Term} (h : a.HasA) :
    ∃ before sound after, (sound = 'a' ∨ sound = 'A') ∧ a.value = before ++ sound :: after
      ∧ (a.alTasya aKind (.ofSounds [.e])).value = before ++ 'e' :: after := by
  have hresult : (SoundClass.ofSounds [.e]).sounds ≠ [] := by decide
  obtain ⟨before, σ, after, ρ, hvalue, hσ, -, hρ, hterm⟩ := exists_alTasya_eq h hresult
  have hall : ∀ σ ∈ aKind.sounds, (σ.toChar = 'a' ∨ σ.toChar = 'A')
      ∧ (SoundClass.ofSounds [.e]).closest σ = some .e := by decide
  obtain ⟨hsound, hnearest⟩ := hall σ hσ
  obtain rfl := Option.some.inj (hnearest.symm.trans hρ)
  exact ⟨before, σ.toChar, after, hsound, hvalue, congrArg value hterm⟩

/-! ## Which stems the group is for -/

namespace LitE

/-- The roots that the group names, with the phaṇādi as they are by default. -/
def namedRoots : List Text :=
  ["tF", "Pal", "Baj", "trap", "rAD", "jF", "Bram", "tras"].map String.toList ++ ({} : Gana).phan

theorem mem_namedRoots {x : Text} : x ∈ namedRoots
    ↔ x ∈ trapadi ∨ x = "rAD".toList ∨ x ∈ jradi ∨ x ∈ ({} : Gana).phan := by
  show x ∈ trapadi ++ (["rAD".toList] ++ (jradi ++ ({} : Gana).phan)) ↔ _
  simp only [List.mem_append, List.mem_singleton]

/-- The group is for the roots that it names and for stems with a penultimate `a`. -/
theorem verdict_cases {abhyasa stem : Term} (h : verdict {} abhyasa stem ≠ .inapplicable) :
    stem.clean ∈ namedRoots ∨ stem.upadha? = some 'a' := by
  by_contra hother
  obtain ⟨hnamed, hupadha⟩ := not_or.mp hother
  obtain ⟨htrap, hrad, hjr, hphan⟩ : stem.clean ∉ trapadi ∧ stem.clean ≠ "rAD".toList
      ∧ stem.clean ∉ jradi ∧ stem.clean ∉ ({} : Gana).phan := by
    simpa [mem_namedRoots, not_or] using hnamed
  have hgeneral : ¬(stem.upadha? = some 'a' ∧ stem.value.length = 3 ∧ stem.adi? = abhyasa.adi?) :=
    fun hgeneral => hupadha hgeneral.1
  refine h ?_
  rw [verdict_eq, if_neg htrap, if_neg hrad, if_neg hjr, if_neg hphan, if_neg hgeneral, ite_self]

/-- The roots that the group names undergo no samprasāraṇa, and none is the root i. -/
theorem not_listed_of_named : ∀ x ∈ namedRoots,
    ({} : Gana).inVac x = false ∧ ({} : Gana).inGrah x = false ∧ x ≠ ['i'] := by
  decide

/-- With guṇa, with vṛddhi or without either, they have an `a` or an `A`, or end in `F` and have one
with guṇa. -/
theorem hasA_of_named : ∀ x ∈ namedRoots,
    ∀ y ∈ [Term.plain x, (Term.plain x).guna, (Term.plain x).vrddhi],
      y.guna.value.any aKind.contains = true
        ∧ (y.value.any aKind.contains = true ∨ y.antya? = some 'F') := by
  decide

end LitE

/-! ## The stem when the loss of vowels has its turn -/

/-- A stem that undergoes no samprasāraṇa gets guṇa or vṛddhi, or stays. -/
theorem Strengthening.reshape_cases {gana : Gana} {stem : Term} (suffix : Term)
    (hvac : gana.inVac stem.clean = false) (hgrah : gana.inGrah stem.clean = false) :
    reshape gana stem suffix = stem ∨ reshape gana stem suffix = stem.guna
      ∨ reshape gana stem suffix = stem.vrddhi := by
  simp only [reshape, hvac, hgrah, Bool.and_false, Bool.or_self, Bool.false_eq_true, if_false]
  split
  · exact Or.inl rfl
  split
  · split
    · exact Or.inr (Or.inr rfl)
    · exact Or.inr (Or.inl rfl)
  split
  · exact Or.inr (Or.inl rfl)
  · exact Or.inl rfl

namespace VerbStart

variable {v : VerbStart} {w : VerbForm} {a : Term} {gana : Gana} {s t : State}
  {steps : List Step}

theorem exists_value_reshape (v : VerbStart) (h : v.root.clean ∈ LitE.namedRoots) :
    ∃ y ∈ [Term.plain v.root.clean, (Term.plain v.root.clean).guna,
        (Term.plain v.root.clean).vrddhi],
      (Strengthening.reshape {} v.root v.suffix).value = y.value := by
  obtain ⟨hvac, hgrah, -⟩ := LitE.not_listed_of_named _ h
  rcases Strengthening.reshape_cases v.suffix hvac hgrah with hstem | hstem | hstem
  · exact ⟨_, List.mem_cons_self, by rw [hstem, v.root_clean]; rfl⟩
  · exact ⟨_, List.mem_cons_of_mem _ List.mem_cons_self,
      by rw [hstem]; exact Term.value_guna_congr v.root_clean⟩
  · exact ⟨_, List.mem_cons_of_mem _ (List.mem_cons_of_mem _ List.mem_cons_self),
      by rw [hstem]; exact Term.value_vrddhi_congr v.root_clean⟩

/-- **Before liṭ the roots that the group names have an `a` or an `A` once strengthened.** -/
theorem hasA_strengthened (v : VerbStart) (h : v.root.clean ∈ LitE.namedRoots)
    (hlit : v.suffix.hasLakshana .liW = true) : (v.strengthened {}).stem.HasA := by
  obtain ⟨y, hy, hvalue⟩ := v.exists_value_reshape h
  obtain ⟨hguna, hsame⟩ := LitE.hasA_of_named _ h y hy
  have hlit' : (v.form.reshaped {}).suffix.hasLakshana .liW = true := hlit
  rw [strengthened, VerbForm.rtReshaped, hlit', Bool.true_and]
  split
  · exact Term.hasA_congr (Term.value_guna_congr hvalue) (Term.hasA_iff.mpr hguna)
  · next hrt =>
    rcases hsame with ha | hF
    · exact Term.hasA_congr hvalue (Term.hasA_iff.mpr ha)
    · -- the stem would have got guṇa
      have hantya : (v.form.reshaped {}).stem.antya? = some 'F' :=
        (Term.antya?_congr hvalue).trans hF
      rw [Strengthening.takesRtGuna, hantya] at hrt
      exact absurd (Bool.or_true _) hrt

theorem clean_strengthened (gana : Gana) (v : VerbStart) :
    (v.strengthened gana).stem.clean = v.root.clean := by
  have hreshaped := (Strengthening.revalued_reshape gana v.root v.suffix).clean
  rw [strengthened, VerbForm.rtReshaped]
  split
  · exact (Term.revalued_guna _).clean.trans hreshaped
  · exact hreshaped

/-- **The stem for which the group decides has an `a` or an `A`.** -/
theorem LossReady.hasA (h : v.LossReady {} w) (hlit : w.suffix.hasLakshana .liW = true)
    (hverdict : LitE.verdict {} a w.stem ≠ .inapplicable) : w.stem.HasA := by
  rcases LitE.verdict_cases hverdict with hnamed | hupadha
  · rw [h.stem.clean (Or.inl (v.strengthened {}).stem_anga), clean_strengthened] at hnamed
    rw [h.suffix] at hlit
    obtain ⟨sound, hmem, hsound⟩ := v.hasA_strengthened hnamed hlit
    have hroot : (v.strengthened {}).stem.clean ≠ ['i'] := by
      rw [clean_strengthened]
      exact (LitE.not_listed_of_named _ hnamed).2.2
    have hother : BeforeVowel.iOrU.contains sound = false := by
      rcases eq_of_aKind hsound with rfl | rfl
      · decide
      · decide
    exact ⟨sound, h.stem.mem hroot hmem hother, hsound⟩
  · exact ⟨'a', List.dropLast_subset _ (List.mem_of_getLast? hupadha), by decide⟩

end VerbStart

/-! ## How an abhyāsa can lose its sounds -/

/-- An abhyāsa that has no sounds. -/
def State.HasSilentAbhyasa (s : State) : Prop :=
  ∃ a ∈ s.terms, a.hasTag .abhyasa = true ∧ a.isEmpty = true

theorem VerbForm.not_hasSilentAbhyasa {v : VerbForm} (h : v.Sounding) (ops : OrderedSet Operation) :
    ¬(v.state ops).HasSilentAbhyasa := by
  rintro ⟨a, hmem, htag, hempty⟩
  simp only [state, List.mem_append, Option.mem_toList, List.mem_cons, List.not_mem_nil,
    or_false] at hmem
  rcases hmem with ha | rfl | rfl
  · rw [h a ha] at hempty
    exact Bool.false_ne_true hempty
  · rw [v.stem_abhyasa] at htag
    exact Bool.false_ne_true htag
  · rw [v.suffix_sounds] at hempty
    exact Bool.false_ne_true hempty

theorem VerbForm.sounding_withStem {v : VerbForm} {stem : Term} (h : v.Sounding)
    (htags : stem.tags = v.stem.tags) : (v.withStem stem htags).Sounding := h

theorem VerbStart.not_hasSilentAbhyasa (v : VerbStart) : ¬v.state.HasSilentAbhyasa := by
  rintro ⟨a, hmem, -, hempty⟩
  rcases List.mem_cons.mp hmem with rfl | hmem
  · rw [v.root_sounds] at hempty
    exact Bool.false_ne_true hempty
  · rw [List.mem_singleton.mp hmem, v.suffix_sounds] at hempty
    exact Bool.false_ne_true hempty

/-- The ku series takes no sounds from the abhyāsa. -/
theorem VerbForm.not_hasSilentAbhyasa_of_turns {v : VerbForm} (h : v.Sounding) {t : State}
    {steps : List Step} (hturns : Turns [Velar.stage kuSet] (v.state (recorded 5)) steps t) :
    ¬t.HasSilentAbhyasa := by
  cases hturns with
  | stop => exact v.not_hasSilentAbhyasa h _
  | pass _ rest =>
    cases rest
    exact v.not_hasSilentAbhyasa h _
  | fire first rest =>
    cases rest
    obtain ⟨stems, hbody, -, -, hstems⟩ := Velar.exists_body_state v (recorded 6)
    rw [v.apply_velar, hbody] at first
    obtain ⟨b, hb, rfl⟩ := List.mem_map.mp first
    rw [v.replace_place (recorded 6) b (hstems b hb).1]
    exact VerbForm.not_hasSilentAbhyasa (v.sounding_withStem h (hstems b hb).1) _

theorem VerbForm.apply_vowelLoss_ne_nil (gana : Gana) (v : VerbForm) :
    (VowelLoss.stage gana).apply (v.state (recorded 4)) ≠ [] := by
  rw [v.apply_vowelLoss gana]
  rcases VowelLoss.body_state_cases gana v (recorded 5) with ⟨b, htags, h⟩ | ⟨a, ha, -, -, h | h⟩
  all_goals
    rw [h]
    exact List.cons_ne_nil _ _

/-- After the e-substitution the ku series leaves the state as it is. -/
theorem VerbForm.eq_of_turns_eSubstituted {v : VerbForm} {a : Term} (ha : v.abhyasa = some a)
    {t : State} {steps : List Step}
    (hturns : Turns [Velar.stage kuSet] ((v.eSubstituted a ha).state (recorded 5)) steps t) :
    ∃ ops, t = (v.eSubstituted a ha).state ops := by
  cases hturns with
  | stop => exact ⟨_, rfl⟩
  | pass _ rest =>
    cases rest
    exact ⟨_, rfl⟩
  | fire first rest =>
    cases rest
    rw [VerbForm.apply_velar, Velar.body_state_of_silent (a := a.lopa) rfl rfl,
      List.mem_singleton] at first
    exact ⟨_, first⟩

theorem VerbForm.place_eSubstituted {v : VerbForm} {a : Term} (ha : v.abhyasa = some a) :
    (v.eSubstituted a ha).place = v.place := by
  simp [eSubstituted, withStem, withAbhyasa, place, ha]

namespace VerbStart

variable {v : VerbStart} {w : VerbForm} {a : Term} {gana : Gana} {t : State} {steps : List Step}

/-- The steps of a verb up to the loss of vowels. -/
def stepsToLoss (gana : Gana) (v : VerbStart) (w : VerbForm) : List Step := [
  ⟨"dvirvacana", v.form.state (recorded 1)⟩,
  ⟨"anga_adesha", (v.form.reshaped gana).state (recorded 2)⟩,
  ⟨"rt", (v.strengthened gana).state (recorded 3)⟩,
  ⟨"anga_aci", w.state (recorded 4)⟩]

/-- **An abhyāsa loses its sounds by the e-substitution only.** After that the ku series changes
nothing. -/
theorem eSubstituted_of_silent (h : v.LossReady gana w)
    (hturns : Turns (Grammar.standardStages gana aciSet kuSet) v.state steps t)
    (hsilent : t.HasSilentAbhyasa) :
    ∃ a, ∃ ha : w.abhyasa = some a, w.suffix.hasLakshana .liW = true
      ∧ LitE.verdict gana a w.stem ≠ .inapplicable
      ∧ (∃ rest, steps = v.stepsToLoss gana w
        ++ ⟨"ac_adesha", (w.eSubstituted a ha).state (recorded 5)⟩ :: rest)
      ∧ ∃ ops, t = (w.eSubstituted a ha).state ops := by
  rcases hturns.cases_of_singleton v.apply_reduplication with ⟨rfl, -⟩ | ⟨steps₁, rfl, hturns₁⟩
  · exact absurd hsilent v.not_hasSilentAbhyasa
  rcases hturns₁.cases_of_singleton v.form.apply_strengthening with
    ⟨rfl, -⟩ | ⟨steps₂, rfl, hturns₂⟩
  · exact absurd hsilent (VerbForm.not_hasSilentAbhyasa v.sounding_form _)
  rcases hturns₂.cases_of_singleton (v.form.reshaped gana).apply_rt with
    ⟨rfl, -⟩ | ⟨steps₃, rfl, hturns₃⟩
  · exact absurd hsilent
      (VerbForm.not_hasSilentAbhyasa (v := v.form.reshaped gana) v.sounding_form _)
  rcases hturns₃.cases_of_singleton h.apply with ⟨rfl, -⟩ | ⟨steps₄, rfl, hturns₄⟩
  · exact absurd hsilent (VerbForm.not_hasSilentAbhyasa (v.sounding_strengthened gana) _)
  rcases hturns₄.cases_of_ne_nil (w.apply_vowelLoss_ne_nil gana) with
    ⟨rfl, -⟩ | ⟨u, hu, steps₅, rfl, hturns₅⟩
  · exact absurd hsilent (VerbForm.not_hasSilentAbhyasa h.sounding _)
  rw [w.apply_vowelLoss gana] at hu
  rcases VowelLoss.body_state_cases gana w (recorded 5) with
    ⟨b, htags, hbody⟩ | ⟨a, ha, hlit, hverdict, hbody⟩
  · rw [hbody, List.mem_singleton] at hu
    subst hu
    exact absurd hsilent
      (VerbForm.not_hasSilentAbhyasa_of_turns (w.sounding_withStem h.sounding htags) hturns₅)
  · have hcases : u = (w.eSubstituted a ha).state (recorded 5) ∨ u = w.state (recorded 5) := by
      rcases hbody with hbody | hbody
      · rw [hbody, List.mem_singleton] at hu
        exact Or.inl hu
      · rw [hbody] at hu
        simpa using hu
    rcases hcases with rfl | rfl
    · exact ⟨a, ha, hlit, hverdict, ⟨steps₅, rfl⟩, VerbForm.eq_of_turns_eSubstituted ha hturns₅⟩
    · exact absurd hsilent (VerbForm.not_hasSilentAbhyasa_of_turns h.sounding hturns₅)

end VerbStart

/-- **Deletion of the abhyāsa and the e-substitution go together.** With the root lists as they are
by default, an abhyāsa that has no sounds in a derivation of the derive command has lost them at the
loss of vowels, and there an `a` or an `A` of the stem gave way to `e`. The ku series leaves the
stem as it is. -/
theorem Grammar.eSubstitution_of_silent {c : Config} {g : Grammar}
    {r : CommandLine.DeriveRequest} {start t : State} {steps : List Step} {abhyasa : Term}
    (hg : ofConfig c = .ok g) (hgana : c.gana = {}) (hstart : Program.startState r = .ok start)
    (hpath : g.pipeline.Path start steps t) (hmem : abhyasa ∈ t.terms)
    (htag : abhyasa.hasTag .abhyasa = true) (hsilent : abhyasa.isEmpty = true) :
    ∃ before u v rest, steps = before ++ ⟨"ac_adesha", v⟩ :: rest
      ∧ g.pipeline.Path start before u ∧ ("ac_adesha", v) ∈ g.pipeline.step u
      ∧ ∃ i old new x sound y, u.find? .anga = some (old, i) ∧ v.find? .anga = some (new, i)
        ∧ t.find? .anga = some (new, i) ∧ (sound = 'a' ∨ sound = 'A')
        ∧ old.value = x ++ sound :: y ∧ new.value = x ++ 'e' :: y := by
  obtain ⟨-, rfl⟩ := ofConfig_eq_ok_iff.mp hg
  obtain ⟨v, rfl⟩ := Program.exists_verbStart hstart
  obtain ⟨w, hready⟩ := v.exists_lossReady c.gana
  have hturns := (scheduledBy c.gana).turns_of_path hpath
  obtain ⟨a, ha, hlit, hverdict, ⟨rest, hsteps⟩, ops, rfl⟩ :=
    VerbStart.eSubstituted_of_silent hready hturns ⟨abhyasa, hmem, htag, hsilent⟩
  rw [hsteps] at hpath
  obtain ⟨u, hbefore, hstep⟩ := hpath.split
  have hu : u = w.state (recorded 4) := hbefore.eq_of_getLast? rfl
  rw [hgana] at hready hverdict
  obtain ⟨x, sound, y, hsound, hold, hnew⟩ := (hready.hasA hlit hverdict).exists_alTasya
  refine ⟨_, u, _, rest, hsteps, hbefore, hstep, w.place, w.stem, (w.eSubstituted a ha).stem, x,
    sound, y, ?_, ?_, ?_, hsound, hold, hnew⟩
  · rw [hu]
    exact w.find?_anga (recorded 4)
  · rw [(w.eSubstituted a ha).find?_anga, VerbForm.place_eSubstituted]
  · rw [(w.eSubstituted a ha).find?_anga, VerbForm.place_eSubstituted]

/-- Before atus the root pac becomes pec. -/
theorem Grammar.eSubstitution_of_silent_pecatus :
    let r : CommandLine.DeriveRequest :=
      { dhatu := "pac".toList, suffix := "atus".toList, markers := [.kit] }
    ∃ g start steps t, ofConfig {} = .ok g ∧ Program.startState r = .ok start
      ∧ g.pipeline.Path start steps t ∧ t.surface = "pecatus".toList
      ∧ (∃ a ∈ t.terms, a.hasTag .abhyasa = true ∧ a.isEmpty = true)
      ∧ ∃ before u v rest, steps = before ++ ⟨"ac_adesha", v⟩ :: rest
        ∧ g.pipeline.Path start before u ∧ ("ac_adesha", v) ∈ g.pipeline.step u
        ∧ ∃ i old new x sound y, u.find? .anga = some (old, i) ∧ v.find? .anga = some (new, i)
          ∧ t.find? .anga = some (new, i) ∧ (sound = 'a' ∨ sound = 'A')
          ∧ old.value = x ++ sound :: y ∧ new.value = x ++ 'e' :: y := by
  intro r
  have hg := ofConfig_of_accepted (show Config.validate {} = .ok () by decide)
  obtain ⟨start, hstart⟩ : ∃ start, Program.startState r = .ok start := ⟨_, rfl⟩
  have hfound : ∃ d ∈ ((standard {}).derive start).derivations, d.state.surface = "pecatus".toList
      ∧ ∃ a ∈ d.state.terms, a.hasTag .abhyasa = true ∧ a.isEmpty = true := by
    rw [← Except.ok.inj hstart]
    decide +kernel
  obtain ⟨d, hd, hsurface, a, hmem, htag, hempty⟩ := hfound
  obtain ⟨hpath, -⟩ := (scheduledBy {}).path_of_mem_derivations _ start hd
  exact ⟨_, start, d.history, d.state, hg, hstart, hpath, hsurface, ⟨a, hmem, htag, hempty⟩,
    eSubstitution_of_silent hg rfl hstart hpath hmem htag hempty⟩

end Vyakarana
