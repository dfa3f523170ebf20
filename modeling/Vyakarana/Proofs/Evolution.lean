import Vyakarana.Proofs.Revaluation
import Vyakarana.Stem.BeforeVowel

/-!
# What the stages may do to the terms of a state

Apart from the one abhyāsa that reduplication inserts, a derivation keeps the terms it starts from.
`Term.Evolves` says what may become of one of them, and `State.Evolves` that this is what became of
each. Both are reflexive and transitive, so that what every stage does holds of whole derivations.
-/

namespace Vyakarana

open BeforeVowel (vuk)

/-- A term as it may be later in a derivation. The optional rule `id` may be declined on it if
`mayDecline`. -/
structure Term.Evolves (id : RuleId) (mayDecline : Prop) (a b : Term) : Prop where
  raw : b.raw = a.raw
  clean : b.clean = a.clean
  tags : b.tags = a.tags
  markers : b.markers = a.markers
  lakshana : b.lakshana = a.lakshana
  /-- Stages work on stems and abhyāsas only. -/
  inert : a.hasTag .anga = false → a.hasTag .abhyasa = false → b = a
  /-- The only augment is vuk of the root bhū, and it is not put in twice. -/
  parts : b.parts = a.parts
    ∨ (b.parts = a.parts ++ [.agama vuk] ∧ a.hasAugment vuk = false ∧ a.hasTag .dhatu = true
      ∧ a.clean = ['B', 'U'])
  declined : b.declined = a.declined ∨ (mayDecline ∧ b.declined = a.declined.insert id)

namespace Term

variable {id : RuleId} {P Q : Prop} {a b c : Term}

/-- Stages work on stems and abhyāsas. -/
def IsFocus (a : Term) : Prop := a.hasTag .anga = true ∨ a.hasTag .abhyasa = true

theorem IsFocus.inert (h : a.IsFocus) (hanga : a.hasTag .anga = false)
    (habhyasa : a.hasTag .abhyasa = false) : b = a := by
  unfold IsFocus at h
  rw [hanga, habhyasa] at h
  simp at h

theorem hasTag_congr (h : b.tags = a.tags) (tag : Tag) : b.hasTag tag = a.hasTag tag := by
  unfold hasTag
  rw [h]

theorem hasAugment_congr (h : b.parts = a.parts) (raw : Text) :
    b.hasAugment raw = a.hasAugment raw := by
  unfold hasAugment
  rw [h]

theorem hasAugment_of_parts {u : Upadesha} (h : b.parts = a.parts ++ [u]) :
    b.hasAugment u.raw = true := by
  simp [hasAugment, h]

theorem Evolves.refl (a : Term) : a.Evolves id P a :=
  ⟨rfl, rfl, rfl, rfl, rfl, fun _ _ => rfl, Or.inl rfl, Or.inl rfl⟩

/-- Another value is all that happens to a stem or an abhyāsa. -/
theorem evolves_of_revalued (h : Revalued a b) (ha : a.IsFocus) : a.Evolves id P b := by
  rw [h]
  exact ⟨rfl, rfl, rfl, rfl, rfl, ha.inert, Or.inl rfl, Or.inl rfl⟩

/-- The rule `id` may be recorded as declined on a stem or an abhyāsa. -/
theorem evolves_decline (hP : P) (ha : a.IsFocus) : a.Evolves id P (a.decline id) :=
  ⟨rfl, rfl, rfl, rfl, rfl, ha.inert, Or.inl rfl, Or.inr ⟨hP, rfl⟩⟩

theorem Evolves.trans (hab : a.Evolves id P b) (hbc : b.Evolves id Q c) (hQP : Q → P) :
    a.Evolves id P c where
  raw := hbc.raw.trans hab.raw
  clean := hbc.clean.trans hab.clean
  tags := hbc.tags.trans hab.tags
  markers := hbc.markers.trans hab.markers
  lakshana := hbc.lakshana.trans hab.lakshana
  inert := by
    intro hanga habhyasa
    have hb := hab.inert hanga habhyasa
    subst hb
    exact hbc.inert hanga habhyasa
  parts := by
    rcases hab.parts with hsame | ⟨hadd, hnot, hdhatu, hclean⟩
    · rcases hbc.parts with hsame' | ⟨hadd', hnot', hdhatu', hclean'⟩
      · exact Or.inl (hsame'.trans hsame)
      · rw [hasAugment_congr hsame] at hnot'
        rw [hasTag_congr hab.tags] at hdhatu'
        exact Or.inr ⟨hadd'.trans (by rw [hsame]), hnot', hdhatu', hab.clean ▸ hclean'⟩
    · rcases hbc.parts with hsame' | ⟨-, hnot', -, -⟩
      · exact Or.inr ⟨hsame'.trans hadd, hnot, hdhatu, hclean⟩
      · -- the augment is there already
        have hthere : b.hasAugment vuk = true := hasAugment_of_parts hadd
        rw [hthere] at hnot'
        simp at hnot'
  declined := by
    rcases hab.declined with hsame | ⟨hp, hins⟩
    · rcases hbc.declined with hsame' | ⟨hq, hins'⟩
      · exact Or.inl (hsame'.trans hsame)
      · exact Or.inr ⟨hQP hq, hins'.trans (by rw [hsame])⟩
    · rcases hbc.declined with hsame' | ⟨-, hins'⟩
      · exact Or.inr ⟨hp, hsame'.trans hins⟩
      · have hmem : id ∈ a.declined.insert id := OrderedSet.mem_insert.mpr (Or.inl rfl)
        exact Or.inr ⟨hp, by rw [hins', hins, OrderedSet.insert_of_mem hmem]⟩

end Term

/-- Each term of a state as it may be later in a derivation. The optional rule `id` may be declined
on the first stem. -/
structure State.Evolves (id : RuleId) (s t : State) : Prop where
  size : t.terms.length = s.terms.length
  term : ∀ {i : Nat} {a b : Term}, s.terms[i]? = some a → t.terms[i]? = some b →
    a.Evolves id (s.find? .anga = some (a, i)) b

namespace State

variable {id : RuleId} {s t u : State} {i j : Nat} {a b : Term} {tag : Tag}

theorem Evolves.refl (s : State) : s.Evolves id s where
  size := rfl
  term := by
    intro i a b ha hb
    rw [ha] at hb
    rw [Option.some.inj hb]
    exact Term.Evolves.refl _

theorem Evolves.exists_get? (h : s.Evolves id t) (ha : s.terms[i]? = some a) :
    ∃ b, t.terms[i]? = some b := by
  obtain ⟨hlt, -⟩ := List.getElem?_eq_some_iff.mp ha
  exact ⟨_, List.getElem?_eq_getElem (h.size ▸ hlt)⟩

theorem Evolves.exists_get?_rev (h : s.Evolves id t) (hb : t.terms[i]? = some b) :
    ∃ a, s.terms[i]? = some a := by
  obtain ⟨hlt, -⟩ := List.getElem?_eq_some_iff.mp hb
  exact ⟨_, List.getElem?_eq_getElem (h.size ▸ hlt)⟩

/-- A category is found at the same place. -/
theorem Evolves.find?_rev (h : s.Evolves id t) (ha : s.terms[i]? = some a)
    (hf : t.find? tag = some (b, i)) : s.find? tag = some (a, i) := by
  obtain ⟨hb, htag, hbefore⟩ := find?_eq_some_iff.mp hf
  refine find?_eq_some_iff.mpr ⟨ha, ?_, ?_⟩
  · rw [← Term.hasTag_congr (h.term ha hb).tags tag]
    exact htag
  · intro j hj c hc
    obtain ⟨d, hd⟩ := h.exists_get? hc
    rw [← Term.hasTag_congr (h.term hc hd).tags tag]
    exact hbefore j hj d hd

theorem Evolves.has (h : s.Evolves id t) (tag : Tag) : t.has tag = s.has tag := by
  rw [Bool.eq_iff_iff]
  constructor
  · intro ht
    obtain ⟨b, i, hf⟩ := exists_find?_of_has ht
    obtain ⟨a, ha⟩ := h.exists_get?_rev (get?_of_find? hf)
    exact has_of_find? (h.find?_rev ha hf)
  · intro hs
    obtain ⟨a, i, hf⟩ := exists_find?_of_has hs
    obtain ⟨b, hb⟩ := h.exists_get? (get?_of_find? hf)
    refine List.any_eq_true.mpr ⟨b, List.mem_of_getElem? hb, ?_⟩
    rw [Term.hasTag_congr (h.term (get?_of_find? hf) hb).tags tag]
    exact hasTag_of_find? hf

theorem Evolves.trans (hst : s.Evolves id t) (htu : t.Evolves id u) : s.Evolves id u where
  size := htu.size.trans hst.size
  term := by
    intro i a c ha hc
    obtain ⟨b, hb⟩ := hst.exists_get? ha
    exact (hst.term ha hb).trans (htu.term hb hc) fun hf => hst.find?_rev ha hf

/-- Recorded operations do not matter. -/
theorem Evolves.of_same_terms (h : t.Evolves id u) (hterms : t.terms = s.terms) :
    s.Evolves id u where
  size := by
    rw [← hterms]
    exact h.size
  term := by
    have hfind : t.find? .anga = s.find? .anga := by rw [find?, hterms, find?]
    intro i a b ha hb
    rw [← hterms] at ha
    rw [← hfind]
    exact h.term ha hb

theorem evolves_replace (ha : s.terms[i]? = some a)
    (h : a.Evolves id (s.find? .anga = some (a, i)) b) : s.Evolves id (s.replace i b) where
  size := List.length_set
  term := by
    intro k x y hx hy
    rw [terms_replace, List.getElem?_set] at hy
    split at hy
    · next hik =>
      subst hik
      rw [ha] at hx
      obtain rfl := Option.some.inj hx
      split at hy
      · rw [← Option.some.inj hy]
        exact h
      · simp at hy
    · rw [hx] at hy
      rw [← Option.some.inj hy]
      exact Term.Evolves.refl x

/-- What stands at the position is a stem or an abhyāsa. -/
def IsFocus (s : State) (i : Nat) : Prop := ∀ a, s.terms[i]? = some a → a.IsFocus

theorem Evolves.isFocus (h : s.Evolves id t) (hi : s.IsFocus i) : t.IsFocus i := by
  intro b hb
  obtain ⟨a, ha⟩ := h.exists_get?_rev hb
  have htags := (h.term ha hb).tags
  unfold Term.IsFocus
  rw [Term.hasTag_congr htags, Term.hasTag_congr htags]
  exact hi a ha

theorem isFocus_of_find?_anga (h : s.find? .anga = some (a, i)) : s.IsFocus i := by
  intro b hb
  rw [get?_of_find? h] at hb
  rw [← Option.some.inj hb]
  exact Or.inl (hasTag_of_find? h)

theorem isFocus_of_find?_abhyasa (h : s.find? .abhyasa = some (a, i)) : s.IsFocus i := by
  intro b hb
  rw [get?_of_find? h] at hb
  rw [← Option.some.inj hb]
  exact Or.inr (hasTag_of_find? h)

theorem evolves_replace_revalued (hi : s.IsFocus i) (ha : s.terms[i]? = some a)
    (h : a.Revalued b) : s.Evolves id (s.replace i b) :=
  evolves_replace ha (Term.evolves_of_revalued h (hi a ha))

end State

end Vyakarana
