import Vyakarana.Proofs.RuleSet
import Vyakarana.Proofs.StemBody
import Vyakarana.Stem.Strengthening
import Vyakarana.Stem.Velar
import Vyakarana.Stem.VowelLoss

/-!
# The stages that work on stems

Five of the stages work on stems: strengthening, guṇa of stems in ṛ, the rules before a vowel, the
loss of vowels and the ku series. Each has its slot and its `StemBody`. Only the loss of vowels and
the ku series can give two states, and only the ku series lets a rule be declined.
-/

namespace Vyakarana

/-! ## Strengthening -/

namespace Strengthening

variable {id : RuleId} {gana : Gana} {s : State} {i : Nat}

theorem revalued_reshape (gana : Gana) (stem suffix : Term) :
    stem.Revalued (reshape gana stem suffix) := by
  simp only [reshape]
  split
  · exact Term.revalued_samprasarana stem
  · split
    · exact Term.Revalued.refl stem
    · split
      · split
        · exact Term.revalued_vrddhi stem
        · exact Term.revalued_guna stem
      · split
        · exact Term.revalued_guna stem
        · exact Term.Revalued.refl stem

theorem change?_eq_some {old new : Term} (h : change? gana s i = some (old, new)) :
    s.terms[i]? = some old ∧ old.Revalued new := by
  unfold change? at h
  split at h
  · next stem suffix _ hstem _ =>
    simp only at h
    split at h
    · simp at h
    · obtain ⟨rfl, rfl⟩ := Prod.mk.inj (Option.some.inj h)
      exact ⟨hstem, revalued_reshape gana stem suffix⟩
  · simp at h

theorem evolves_reshapeAt (hi : s.IsFocus i) :
    s.Evolves id (reshapeAt gana s i) ∧ (reshapeAt gana s i).ops = s.ops := by
  unfold reshapeAt
  split
  · next old new hchange =>
    obtain ⟨hold, hnew⟩ := change?_eq_some hchange
    exact ⟨State.evolves_replace_revalued hi hold hnew, rfl⟩
  · exact ⟨State.Evolves.refl s, rfl⟩

/-- Stems stay stems while others are reshaped. -/
theorem evolves_reshapeEach {positions : List Nat} (h : ∀ i ∈ positions, s.IsFocus i) :
    s.Evolves id (reshapeEach gana s positions) ∧ (reshapeEach gana s positions).ops = s.ops := by
  induction positions generalizing s with
  | nil => exact ⟨State.Evolves.refl s, rfl⟩
  | cons i rest ih =>
    obtain ⟨hfirst, hops⟩ :
        s.Evolves id (reshapeAt gana s i) ∧ (reshapeAt gana s i).ops = s.ops :=
      evolves_reshapeAt (h i List.mem_cons_self)
    obtain ⟨hrest, hops'⟩ := ih fun j hj => hfirst.isFocus (h j (List.mem_cons_of_mem _ hj))
    exact ⟨hfirst.trans hrest, hops'.trans hops⟩

theorem isFocus_of_mem_stems (h : i ∈ stems s) : s.IsFocus i := by
  obtain ⟨⟨a, j⟩, hmem, rfl⟩ := List.mem_map.mp h
  obtain ⟨hget, htag⟩ := State.mem_findAll.mp hmem
  intro b hb
  rw [hget] at hb
  rw [← Option.some.inj hb]
  exact Or.inl htag

/-- The slot of the stage `anga_adesha`. -/
def slot : Slot where
  stage := "anga_adesha"
  op := .angaAdesha
  needs := some .dvirvacana
  focus := .anga

theorem stemBody (gana : Gana) (id : RuleId) : StemBody id 1 (body gana) where
  idle := by
    intro s hnone
    have hstems : stems s = [] := by
      rw [State.find?, List.find?_eq_none] at hnone
      rw [stems, State.findAll, List.filter_eq_nil_iff.mpr hnone, List.map_nil]
    unfold body
    rw [hstems]
  yields := by
    intro s stem i hf
    have hmem : i ∈ stems s := by
      have := State.mem_findAll.mpr ⟨State.get?_of_find? hf, State.hasTag_of_find? hf⟩
      exact List.mem_map.mpr ⟨_, this, rfl⟩
    unfold body
    split
    · next hnil =>
      rw [hnil] at hmem
      simp at hmem
    · obtain ⟨hevolves, hops⟩ := evolves_reshapeEach fun _ => isFocus_of_mem_stems
      exact State.yields_singleton hevolves hops Nat.one_pos

theorem stage_eq (gana : Gana) :
    stage gana = slot.rule (body gana) fun s => changes gana s (stems s) :=
  rfl

/-- The slot of the stage `rt`. -/
def rtSlot : Slot where
  stage := "rt"
  op := .rt
  focus := .anga

theorem rtStemBody (id : RuleId) : StemBody id 1 rtBody where
  idle := by
    intro s hnone
    unfold rtBody
    rw [hnone]
  yields := by
    intro s stem i hf
    unfold rtBody
    rw [hf]
    simp only
    split
    · have hguna : s.Evolves id (s.replace i stem.guna) :=
        State.evolves_replace_revalued (State.isFocus_of_find?_anga hf) (State.get?_of_find? hf)
          (Term.revalued_guna stem)
      exact State.yields_singleton hguna rfl Nat.one_pos
    · exact State.yields_self s Nat.one_pos

theorem rtStage_eq : rtStage = rtSlot.rule rtBody fun _ => [] := rfl

end Strengthening

/-! ## Rules before a vowel -/

namespace BeforeVowel

variable {id : RuleId} {P : Prop} {set : RuleSet} {n : RuleId} {r : WindowRule} {w w' : Window}
  {sub : Substitution} {s : State} {stem : Term} {i j : Nat}

theorem revalued_iyanOrUvan (a : Term) (right : Option Term) :
    a.Revalued ((iyanOrUvan a).apply a right) := by
  unfold iyanOrUvan
  split
  · exact Term.revalued_tasya a (by decide) (by decide) (by decide)
  · exact Term.revalued_tasya a (by decide) (by decide) (by decide)

theorem evolves_vuk (right : Option Term) (hdhatu : w.cur.hasTag .dhatu = true)
    (hclean : w.cur.clean = ['B', 'U']) (hnot : w.cur.hasAugment vuk = false)
    (hfocus : w.cur.IsFocus) : w.cur.Evolves id P ((Substitution.agama vuk).apply w.cur right) := by
  show w.cur.Evolves id P (w.cur.tasya (.agama vuk))
  rw [Term.tasya_of_kit _ (by decide)]
  exact ⟨rfl, rfl, rfl, rfl, rfl, hfocus.inert, Or.inr ⟨rfl, hnot, hdhatu, hclean⟩, Or.inl rfl⟩

/-- None of the rules is optional. -/
theorem decide_ne_optional (hr : r ∈ rules) (w : Window) (sub : Substitution) :
    r.decide w ≠ .optional sub := by
  simp only [rules, List.mem_cons, List.not_mem_nil, or_false] at hr
  rcases hr with rfl | rfl | rfl | rfl | rfl
  · simp [iyanUvan]
  · simp only [abhyasaIyanUvan]
    split <;> simp
  · simp [inoYan]
  · simp only [anekacYan]
    split <;> simp
  · simp only [bhuvoVuk]
    split <;> simp

/-- Each of the rules gives another value, or puts vuk into bhū. -/
theorem evolves_of_substitute (hr : r ∈ rules) (happlies : r.appliesTo w = true)
    (hdecide : r.decide w = .substitute sub) (hfocus : w.cur.IsFocus) :
    w.cur.Evolves id P (sub.apply w.cur w.right) := by
  simp only [rules, List.mem_cons, List.not_mem_nil, or_false] at hr
  rcases hr with rfl | rfl | rfl | rfl | rfl
  · obtain rfl := Decision.substitute.inj hdecide
    exact Term.evolves_of_revalued (revalued_iyanOrUvan _ _) hfocus
  · simp only [abhyasaIyanUvan] at hdecide
    split at hdecide
    · simp at hdecide
    · obtain rfl := Decision.substitute.inj hdecide
      exact Term.evolves_of_revalued (revalued_iyanOrUvan _ _) hfocus
  · obtain rfl := Decision.substitute.inj hdecide
    exact Term.evolves_of_revalued (Term.revalued_setAntya _ _) hfocus
  · simp only [anekacYan] at hdecide
    split at hdecide
    · obtain rfl := Decision.substitute.inj hdecide
      exact Term.evolves_of_revalued (Term.revalued_alTasya _ _ _) hfocus
    · simp at hdecide
  · simp only [bhuvoVuk] at hdecide
    split at hdecide
    · simp at hdecide
    · next hcond =>
      obtain rfl := Decision.substitute.inj hdecide
      simp only [Bool.or_eq_true, not_or, Bool.not_eq_true] at hcond
      simp only [WindowRule.appliesTo, bhuvoVuk, WindowRule.holds, Option.all_some, Option.all_none,
        Context.and, Context.hasTag, Context.cleanIn, Option.any_some, Bool.true_and,
        Bool.and_eq_true, List.contains_iff_mem, List.mem_singleton] at happlies
      obtain ⟨⟨hdhatu, hclean⟩, -⟩ := happlies
      exact evolves_vuk _ hdhatu hclean hcond.2 hfocus

theorem isFocus_of_mem_foci (hf : s.find? .anga = some (stem, j)) (h : i ∈ foci s j) :
    s.IsFocus i := by
  rcases List.mem_append.mp h with h | h
  · rw [Option.mem_toList, Option.map_eq_some_iff] at h
    obtain ⟨⟨abhyasa, k⟩, hk, rfl⟩ := h
    exact State.isFocus_of_find?_abhyasa hk
  · rw [List.mem_singleton.mp h]
    exact State.isFocus_of_find?_anga hf

section Set

variable (hset : set.rules = RuleSet.number n rules)

include hset

theorem length_apply_le (w : Window) : (set.apply w).length ≤ 1 := by
  refine RuleSet.length_apply_le Nat.one_pos ?_ w
  intro r hr v
  obtain ⟨r₀, hr₀, heq⟩ := RuleSet.exists_of_mem_number (hset ▸ hr)
  rw [heq]
  show (r₀.decide v).forks ≤ 1
  cases hdecide : r₀.decide v with
  | unchanged => exact Nat.le_refl 1
  | substitute sub => exact Nat.le_refl 1
  | optional sub => exact absurd hdecide (decide_ne_optional hr₀ v sub)

theorem evolves_of_mem_apply (h : w' ∈ set.apply w) (hfocus : w.cur.IsFocus) :
    w.cur.Evolves id P w'.cur := by
  rcases RuleSet.mem_apply h with rfl | ⟨r, hr, happlies, hchanged⟩
  · exact Term.Evolves.refl _
  · obtain ⟨r₀, hr₀, heq⟩ := RuleSet.exists_of_mem_number (hset ▸ hr)
    rw [heq] at happlies hchanged
    rcases hchanged with ⟨sub, hsub | hsub, rfl⟩ | ⟨sub, hsub, -⟩
    · exact evolves_of_substitute hr₀ happlies hsub hfocus
    · exact absurd hsub (decide_ne_optional hr₀ w sub)
    · exact absurd hsub (decide_ne_optional hr₀ w sub)

theorem stemBody (id : RuleId) : StemBody id 1 (body set) where
  idle := by
    intro s hnone
    unfold body
    rw [hnone]
  yields := by
    intro s stem j hf
    unfold body
    rw [hf]
    simp only
    split
    · exact State.yields_self s Nat.one_pos
    · obtain ⟨t, ht⟩ := RuleSet.exists_applyEach_eq (length_apply_le hset) s (foci s j)
      have hmem : t ∈ set.applyEach [s] (foci s j) := ht ▸ List.mem_singleton_self t
      have hinv : s.Evolves id t ∧ t.ops = s.ops := by
        refine RuleSet.applyEach_induction
          (motive := fun u => s.Evolves id u ∧ u.ops = s.ops) ?_ ?_ hmem
        · rintro i hi u ⟨hu, hops⟩ v hv
          have hfocus := hu.isFocus (isFocus_of_mem_foci hf hi)
          have huv : u.Evolves id v := RuleSet.evolves_applyAt hv fun x hx x' hx' =>
            evolves_of_mem_apply hset hx' (hfocus x.cur hx)
          exact ⟨hu.trans huv, (RuleSet.ops_applyAt hv).trans hops⟩
        · intro u hu
          rw [List.mem_singleton.mp hu]
          exact ⟨State.Evolves.refl s, rfl⟩
      rw [ht]
      exact State.yields_singleton hinv.1 hinv.2 Nat.one_pos

end Set

/-- The slot of the stage `anga_aci`. -/
def slot : Slot where
  stage := "anga_aci"
  op := .angaAci
  needs := some .angaAdesha
  focus := .anga

theorem stage_eq (set : RuleSet) : stage set = slot.rule (body set) (remarks set) := rfl

end BeforeVowel

/-! ## Loss of vowels -/

namespace LitE

variable {id : RuleId} {gana : Gana} {s t : State}

/-- Stem and abhyāsa may be one term, whose value is then that of the stem. -/
theorem evolves_of_substituted (h : substituted s = some t) : s.Evolves id t ∧ t.ops = s.ops := by
  unfold substituted at h
  split at h
  · next abhyasa i stem j habhyasa hanga =>
    rw [← Option.some.inj h]
    have hstem := Term.revalued_alTasya stem (.ofSounds [.a, .A]) (.ofSounds [.e])
    have hj := State.isFocus_of_find?_anga hanga
    refine ⟨?_, rfl⟩
    by_cases hij : i = j
    · subst hij
      have hset : ((s.replace i abhyasa.lopa).replace i
          (stem.alTasya (.ofSounds [.a, .A]) (.ofSounds [.e])))
            = s.replace i (stem.alTasya (.ofSounds [.a, .A]) (.ofSounds [.e])) := by
        simp [State.replace]
      rw [hset]
      exact State.evolves_replace_revalued hj (State.get?_of_find? hanga) hstem
    · have hfirst : s.Evolves id (s.replace i abhyasa.lopa) :=
        State.evolves_replace_revalued (State.isFocus_of_find?_abhyasa habhyasa)
          (State.get?_of_find? habhyasa) (Term.revalued_lopa abhyasa)
      have hget : (s.replace i abhyasa.lopa).terms[j]? = some stem := by
        rw [State.terms_replace, List.getElem?_set_ne hij]
        exact State.get?_of_find? hanga
      exact hfirst.trans (State.evolves_replace_revalued (hfirst.isFocus hj) hget hstem)
  · simp at h

/-- The group has no say, leaves the state, substitutes, or gives both states. -/
theorem successors_cases (gana : Gana) (s : State) :
    successors gana s = [] ∨ successors gana s = [s]
      ∨ ∃ t, substituted s = some t ∧ (successors gana s = [t] ∨ successors gana s = [t, s]) := by
  unfold successors
  split
  · exact Or.inl rfl
  · cases hsub : substituted s with
    | none => exact Or.inl rfl
    | some t => exact Or.inr (Or.inr ⟨t, rfl, Or.inl rfl⟩)
  · cases hsub : substituted s with
    | none => exact Or.inr (Or.inl rfl)
    | some t => exact Or.inr (Or.inr ⟨t, rfl, Or.inr rfl⟩)
  · exact Or.inr (Or.inl rfl)

end LitE

namespace VowelLoss

variable {id : RuleId} {gana : Gana} {s t : State} {stem tin : Term} {i : Nat}

theorem yields_lossIn (hf : s.find? .anga = some (stem, i)) :
    s.Yields id 2 (lossIn gana s stem i tin) := by
  have hfocus := State.isFocus_of_find?_anga hf
  have hget := State.get?_of_find? hf
  unfold lossIn
  split
  · exact State.yields_singleton
      (State.evolves_replace_revalued hfocus hget (Term.revalued_setAntya stem [])) rfl Nat.two_pos
  · split
    · exact State.yields_singleton
        (State.evolves_replace_revalued hfocus hget (Term.revalued_setUpadha stem [])) rfl
        Nat.two_pos
    · rcases LitE.successors_cases gana s with h | h | ⟨t, ht, h | h⟩ <;> rw [h]
      · exact State.yields_self s Nat.two_pos
      · exact State.yields_self s Nat.two_pos
      · obtain ⟨hevolves, hops⟩ := LitE.evolves_of_substituted ht
        exact State.yields_singleton hevolves hops Nat.two_pos
      · obtain ⟨hevolves, hops⟩ := LitE.evolves_of_substituted ht
        exact (State.yields_singleton hevolves hops Nat.one_pos).append
          (State.yields_self s Nat.one_pos)

/-- The slot of the stage `ac_adesha`. -/
def slot : Slot where
  stage := "ac_adesha"
  op := .acAdesha
  needs := some .dvirvacana
  focus := .anga
  forks := 2

theorem stemBody (gana : Gana) (id : RuleId) : StemBody id 2 (body gana) where
  idle := by
    intro s hnone
    unfold body
    rw [hnone]
  yields := by
    intro s stem i hf
    unfold body
    rw [hf]
    simp only
    split
    · split
      · exact yields_lossIn hf
      · exact State.yields_self s Nat.two_pos
    · exact State.yields_self s Nat.two_pos

theorem stage_eq (gana : Gana) : stage gana = slot.rule (body gana) fun _ => [] := rfl

end VowelLoss

/-! ## The ku series -/

namespace Velar

variable {P : Prop} {set : RuleSet} {n : RuleId} {r : WindowRule} {w w' : Window}
  {sub : Substitution}

/-- Each of the rules offers a velar. -/
theorem eq_toKu_of_offers (hr : r ∈ rules) (h : (r.decide w).Offers sub) :
    ∃ targets, sub = toKu targets := by
  simp only [rules, List.mem_cons, List.not_mem_nil, or_false] at hr
  rcases hr with rfl | rfl | rfl | rfl <;>
    simp only [abhyasacCa, herAcani, sanlitorJeh, vibhasaCeh, Decision.Offers,
      Decision.substitute.injEq, Decision.optional.injEq, reduceCtorEq, or_false,
      false_or] at h <;>
    exact ⟨_, h.symm⟩

/-- Each of the rules offers another value. -/
theorem revalued_of_offers (hr : r ∈ rules) (h : (r.decide w).Offers sub) (a : Term)
    (right : Option Term) : a.Revalued (sub.apply a right) := by
  obtain ⟨targets, rfl⟩ := eq_toKu_of_offers hr h
  exact Term.revalued_alTasya a targets _

/-- Only the last of the rules is optional. -/
theorem id_of_optional (hr : r ∈ RuleSet.number n rules) (h : r.decide w = .optional sub) :
    r.id = n + 3 := by
  simp only [rules, RuleSet.number, List.mem_cons, List.not_mem_nil, or_false] at hr
  rcases hr with rfl | rfl | rfl | rfl
  · simp [abhyasacCa] at h
  · simp [herAcani] at h
  · simp [sanlitorJeh] at h
  · rfl

section Set

variable (hset : set.rules = RuleSet.number n rules)

include hset

theorem evolves_of_mem_apply (h : w' ∈ set.apply w) (hP : P) (hfocus : w.cur.IsFocus) :
    w.cur.Evolves (n + 3) P w'.cur := by
  rcases RuleSet.mem_apply h with rfl | ⟨r, hr, -, hchanged⟩
  · exact Term.Evolves.refl _
  · rw [hset] at hr
    rcases hchanged with ⟨sub, hsub, rfl⟩ | ⟨sub, hsub, rfl⟩
    · obtain ⟨r₀, hr₀, heq⟩ := RuleSet.exists_of_mem_number hr
      rw [heq] at hsub
      exact Term.evolves_of_revalued (revalued_of_offers hr₀ hsub _ _) hfocus
    · rw [← id_of_optional hr hsub]
      exact Term.evolves_decline hP hfocus

theorem stemBody : StemBody (n + 3) 2 (body set) where
  idle := by
    intro s hnone
    unfold body
    rw [hnone]
  yields := by
    intro s stem i hf
    unfold body
    rw [hf]
    refine ⟨set.applyAt_ne_nil s i, RuleSet.length_applyAt_le set.length_apply_le_two s i, ?_,
      fun t ht => RuleSet.ops_applyAt ht⟩
    intro t ht
    refine RuleSet.evolves_applyAt ht fun w hw w' hw' => ?_
    have hstem : w.cur = stem := Option.some.inj (hw.symm.trans (State.get?_of_find? hf))
    have hfirst : s.find? .anga = some (w.cur, i) := by rw [hf, hstem]
    exact evolves_of_mem_apply hset hw' hfirst (State.isFocus_of_find?_anga hf w.cur hw)

end Set

/-- The slot of the stage `anga_ku`. -/
def slot : Slot where
  stage := "anga_ku"
  op := .angaKu
  focus := .anga
  forks := 2

theorem stage_eq (set : RuleSet) : stage set = slot.rule (body set) (remarks set) := rfl

end Velar

end Vyakarana
