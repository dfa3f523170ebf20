import Vyakarana.Program
import Vyakarana.Proofs.Frame
import Vyakarana.Proofs.ReducedSyllable
import Vyakarana.Proofs.Samprasarana
import Vyakarana.Proofs.VowelRules

/-!
# Sounds stay sounds

Every change that a stage makes to a term puts sounds where sounds were. So from terms whose values
consist of sounds a derivation never comes to one with any other character. A term that has sounds
keeps some, but for two ways to lose them all when the loss of vowels has its turn: the
e-substitution takes away the abhyāsa, and a stem that is but the vowel `A` loses it.

* `Term.Resounds`, `State.Resounds` — what a stage may do to the sounds of a term
* `VowelLoss.resounds_of_mem_body` — the one stage that can take all sounds of a term
* `Grammar.isSounding_of_path` — sounds along a derivation
-/

namespace Vyakarana

/-! ## Texts that are sequences of sounds -/

namespace Upadesha

variable {x y : Text} {c : Char}

theorem isSounding_iff : isSounding x = true ↔ ∀ c ∈ x, (Sound.ofChar? c).isSome = true := by
  rw [isSounding, List.all_eq_true]

theorem isSounding_append :
    isSounding (x ++ y) = true ↔ isSounding x = true ∧ isSounding y = true := by
  simp [isSounding]

theorem isSounding_cons :
    isSounding (c :: x) = true ↔ isSounding [c] = true ∧ isSounding x = true := by
  simp [isSounding]

theorem isSounding_of_subset (h : isSounding x = true) (hsub : y ⊆ x) : isSounding y = true := by
  rw [isSounding_iff] at h ⊢
  exact fun c hc => h c (hsub hc)

theorem isSounding_toChar (σ : Sound) : isSounding [σ.toChar] = true := by
  simp [isSounding, Sound.ofChar?_toChar]

end Upadesha

open Upadesha (isSounding isSounding_append isSounding_cons isSounding_of_subset isSounding_toChar)

/-- The value of the term consists of sounds. -/
def Term.IsSounding (t : Term) : Prop := isSounding t.value = true

/-- The values of all terms consist of sounds. -/
def State.IsSounding (s : State) : Prop := ∀ a ∈ s.terms, a.IsSounding

/-! ## What may become of the sounds of a term -/

/-- The second term, made from the first, has sounds only if the first has, and is empty only if the
first is or may fall silent. -/
structure Term.Resounds (mayFall : Prop) (a b : Term) : Prop where
  sounding : a.IsSounding → b.IsSounding
  silent : b.isEmpty = true → a.isEmpty = true ∨ mayFall

namespace Term

variable {P Q : Prop} {a b c : Term} {value replacement : Text}

theorem Resounds.of_value_eq (h : b.value = a.value) : a.Resounds P b where
  sounding := by
    intro ha
    rw [IsSounding, h]
    exact ha
  silent := by
    intro hb
    rw [isEmpty, h] at hb
    exact Or.inl hb

theorem Resounds.refl (a : Term) : a.Resounds P a := of_value_eq rfl

theorem Resounds.trans (hab : a.Resounds P b) (hbc : b.Resounds False c) : a.Resounds P c where
  sounding := fun ha => hbc.sounding (hab.sounding ha)
  silent := by
    intro hc
    rcases hbc.silent hc with hb | hfalse
    · exact hab.silent hb
    · exact hfalse.elim

theorem Resounds.mono (h : a.Resounds P b) (hPQ : P → Q) : a.Resounds Q b where
  sounding := h.sounding
  silent := fun hb => (h.silent hb).imp_right hPQ

/-- A value that is not empty does not make the term silent. -/
theorem resounds_of_ne_nil (hne : b.value ≠ []) (h : a.IsSounding → b.IsSounding) :
    a.Resounds P b where
  sounding := h
  silent := by
    intro hb
    simp [isEmpty, hne] at hb

theorem isSounding_setAntya (hrep : isSounding replacement = true) (ha : a.IsSounding) :
    (a.setAntya replacement).IsSounding := by
  by_cases hempty : a.value.isEmpty
  · simpa [setAntya, hempty] using ha
  · simp only [setAntya, hempty]
    exact isSounding_append.mpr ⟨isSounding_of_subset ha (List.dropLast_subset a.value), hrep⟩

theorem isSounding_setUpadha (hrep : isSounding replacement = true) (ha : a.IsSounding) :
    (a.setUpadha replacement).IsSounding := by
  unfold setUpadha
  split
  · next last upadha before hvalue =>
    have hmem : ∀ d ∈ last :: upadha :: before, d ∈ a.value := by
      intro d hd
      rw [← hvalue] at hd
      exact List.mem_reverse.mp hd
    have hends : isSounding (before.reverse ++ [last]) = true := by
      refine isSounding_of_subset ha fun d hd => hmem d ?_
      simp only [List.mem_append, List.mem_reverse, List.mem_cons, List.not_mem_nil,
        or_false] at hd ⊢
      rcases hd with hd | hd
      · exact Or.inr (Or.inr hd)
      · exact Or.inl hd
    obtain ⟨hbefore, hlast⟩ := isSounding_append.mp hends
    exact isSounding_append.mpr ⟨isSounding_append.mpr ⟨hbefore, hrep⟩, hlast⟩
  · exact ha

theorem resounds_setAntya (hrep : isSounding replacement = true) (hne : replacement ≠ []) :
    a.Resounds P (a.setAntya replacement) where
  sounding := isSounding_setAntya hrep
  silent := by
    intro hb
    cases hempty : a.isEmpty with
    | true => exact Or.inl rfl
    | false =>
      rw [isEmpty_setAntya hempty hne] at hb
      simp at hb

/-- The final sound is still there. -/
theorem resounds_setUpadha (hrep : isSounding replacement = true) :
    a.Resounds P (a.setUpadha replacement) where
  sounding := isSounding_setUpadha hrep
  silent := by
    intro hb
    unfold setUpadha at hb
    split at hb
    · simp [isEmpty, withValue] at hb
    · exact Or.inl hb

theorem resounds_alTasya (a : Term) (target result : SoundClass) :
    a.Resounds P (a.alTasya target result) := by
  rcases a.alTasya_cases target result with h | ⟨before, d, after, σ, hvalue, -, h⟩
  · rw [h]
    exact Resounds.refl a
  · rw [h]
    refine resounds_of_ne_nil (by simp [withValue]) fun ha => ?_
    have hends : isSounding (before ++ after) = true := by
      refine isSounding_of_subset ha ?_
      rw [hvalue]
      intro d hd
      rcases List.mem_append.mp hd with hd | hd
      · exact List.mem_append_left _ hd
      · exact List.mem_append_right _ (List.mem_cons_of_mem _ hd)
    obtain ⟨hbefore, hafter⟩ := isSounding_append.mp hends
    have hcut : (a.withValue (before ++ σ.toChar :: after)).value
        = before ++ σ.toChar :: after := rfl
    rw [IsSounding, hcut]
    exact isSounding_append.mpr ⟨hbefore, isSounding_cons.mpr ⟨isSounding_toChar σ, hafter⟩⟩

/-! ### Strengthening -/

theorem sounds_gunaOf (d : Char) : isSounding (gunaOf d) = true ∧ gunaOf d ≠ [] := by
  unfold gunaOf
  split <;> decide

theorem sounds_vrddhiOf (d : Char) : isSounding (vrddhiOf d) = true ∧ vrddhiOf d ≠ [] := by
  unfold vrddhiOf
  split <;> decide

theorem resounds_guna (a : Term) : a.Resounds P a.guna := by
  unfold guna
  split
  · exact Resounds.refl a
  · next last _ =>
    split
    · exact resounds_setAntya (sounds_gunaOf last).1 (sounds_gunaOf last).2
    · split
      · exact Resounds.refl a
      · next upadha _ =>
        split
        · exact resounds_setUpadha (sounds_gunaOf upadha).1
        · exact Resounds.refl a

theorem resounds_vrddhi (a : Term) : a.Resounds P a.vrddhi := by
  unfold vrddhi
  split
  · exact Resounds.refl a
  · next last _ =>
    split
    · exact resounds_setAntya (sounds_vrddhiOf last).1 (sounds_vrddhiOf last).2
    · split
      · exact resounds_setUpadha (by decide)
      · exact Resounds.refl a

theorem isSounding_of_mem_ikForYan {d v : Char} (h : (d, v) ∈ ikForYan) :
    isSounding [v] = true := by
  have hall : ∀ pair ∈ ikForYan, isSounding [pair.2] = true := by decide
  exact hall (d, v) h

/-- The vowel takes the place of two sounds. -/
theorem isSounding_vocaliseFirst? (h : vocaliseFirst? value = some replacement) :
    replacement ≠ [] ∧ (isSounding value = true → isSounding replacement = true) := by
  obtain ⟨before, d, v, e, rest, rfl, hv, -, rfl, -⟩ := vocaliseFirst?_eq_some h
  refine ⟨by simp, fun hvalue => ?_⟩
  obtain ⟨hbefore, hpair⟩ := isSounding_append.mp hvalue
  have hrest : isSounding rest = true :=
    isSounding_of_subset hpair fun x hx => List.mem_cons_of_mem d (List.mem_cons_of_mem e hx)
  exact isSounding_append.mpr
    ⟨hbefore, isSounding_cons.mpr ⟨isSounding_of_mem_ikForYan hv, hrest⟩⟩

theorem resounds_samprasarana (a : Term) : a.Resounds P a.samprasarana := by
  unfold samprasarana
  split
  · next value hvalue =>
    obtain ⟨hne, hsounding⟩ := isSounding_vocaliseFirst? hvalue
    exact resounds_of_ne_nil hne hsounding
  · exact Resounds.refl a

end Term

/-! ## What may become of the sounds of a state -/

/-- Each term of a state with the sounds that it may have later. -/
structure State.Resounds (mayFall : Nat → Term → Prop) (s t : State) : Prop where
  size : t.terms.length = s.terms.length
  term : ∀ {i : Nat} {a b : Term}, s.terms[i]? = some a → t.terms[i]? = some b →
    a.Resounds (mayFall i a) b

namespace State

variable {P Q : Nat → Term → Prop} {s t u : State} {i : Nat} {a b : Term}

/-- No term may fall silent. -/
abbrev nowhere : Nat → Term → Prop := fun _ _ => False

theorem Resounds.refl (s : State) : s.Resounds P s where
  size := rfl
  term := by
    intro i a b ha hb
    rw [ha] at hb
    rw [Option.some.inj hb]
    exact Term.Resounds.refl _

theorem Resounds.trans (hst : s.Resounds P t) (htu : t.Resounds nowhere u) : s.Resounds P u where
  size := htu.size.trans hst.size
  term := by
    intro i a c ha hc
    have hi : i < t.terms.length := by
      rw [hst.size]
      exact (List.getElem?_eq_some_iff.mp ha).1
    have hb := List.getElem?_eq_getElem hi
    exact (hst.term ha hb).trans (htu.term hb hc)

theorem Resounds.mono (h : s.Resounds P t) (hPQ : ∀ i a, P i a → Q i a) : s.Resounds Q t where
  size := h.size
  term := fun ha hb => (h.term ha hb).mono (hPQ _ _)

theorem resounds_replace (ha : s.terms[i]? = some a) (h : a.Resounds (P i a) b) :
    s.Resounds P (s.replace i b) where
  size := List.length_set
  term := by
    intro k x y hx hy
    rw [terms_replace, List.getElem?_set] at hy
    split at hy
    · next hik =>
      subst hik
      rw [ha] at hx
      obtain rfl := Option.some.inj hx
      split at hy
      · rw [← Option.some.inj hy]
        exact h
      · simp at hy
    · rw [hx] at hy
      rw [← Option.some.inj hy]
      exact Term.Resounds.refl x

theorem Resounds.isSounding (h : s.Resounds P t) (hs : s.IsSounding) : t.IsSounding := by
  intro b hb
  obtain ⟨i, hi, rfl⟩ := List.getElem_of_mem hb
  have his : i < s.terms.length := by
    rw [← h.size]
    exact hi
  have ha := List.getElem?_eq_getElem his
  exact (h.term ha (List.getElem?_eq_getElem hi)).sounding (hs _ (List.getElem_mem his))

end State

variable {gana : Gana} {s t : State} {root : Term} {i j : Nat}

/-! ## Reduplication -/

namespace Reduplication

theorem isSounding_onChar (f : Sound → Sound) {c : Char} (h : isSounding [c] = true) :
    isSounding [onChar f c] = true := by
  unfold onChar
  split
  · exact isSounding_toChar _
  · exact h

/-- The abhyāsa is made of sounds of the root. -/
theorem isSounding_abhyasaOf (h : root.IsSounding) : (abhyasaOf root).IsSounding := by
  have hletter : ∀ c ∈ root.value, isSounding [c] = true := by
    intro c hc
    exact isSounding_of_subset h (List.cons_subset.mpr ⟨hc, List.nil_subset _⟩)
  unfold abhyasaOf Term.IsSounding
  refine isSounding_append.mpr ⟨?_, ?_⟩
  · cases hkept : keptConsonant? (root.value.takeWhile (!isVowelChar ·)) with
    | none => rfl
    | some c =>
      have hc := List.takeWhile_subset _ (mem_of_keptConsonant? hkept)
      exact isSounding_onChar _ (isSounding_onChar _ (hletter c hc))
  · cases hvowel : (root.value.dropWhile (!isVowelChar ·)).head? with
    | none => rfl
    | some c =>
      have hc := List.dropWhile_subset _ (List.mem_of_mem_head? hvowel)
      show isSounding [copiedVowel root c] = true
      unfold copiedVowel
      split
      · decide
      · exact isSounding_onChar _ (hletter c hc)

theorem Reduplicates.isSounding (h : Reduplicates s t) (hs : s.IsSounding) : t.IsSounding := by
  rcases h with hsame | ⟨root, i, hroot, hterms⟩
  · intro a ha
    exact hs a (hsame ▸ ha)
  · intro a ha
    rw [hterms, State.insert, List.mem_append, List.mem_cons] at ha
    rcases ha with ha | rfl | ha
    · exact hs a (List.mem_of_mem_take ha)
    · exact isSounding_abhyasaOf (hs root (List.mem_of_getElem? (State.get?_of_find? hroot)))
    · exact hs a (List.mem_of_mem_drop ha)

end Reduplication

/-! ## Strengthening -/

namespace Strengthening

theorem resounds_reshape (gana : Gana) (stem suffix : Term) :
    stem.Resounds False (reshape gana stem suffix) := by
  simp only [reshape]
  split
  · exact Term.resounds_samprasarana stem
  split
  · exact Term.Resounds.refl stem
  split
  · split
    · exact Term.resounds_vrddhi stem
    · exact Term.resounds_guna stem
  split
  · exact Term.resounds_guna stem
  · exact Term.Resounds.refl stem

theorem resounds_reshapeAt (gana : Gana) (s : State) (i : Nat) :
    s.Resounds State.nowhere (reshapeAt gana s i) := by
  unfold reshapeAt change?
  cases hstem : s.get? i with
  | none => exact State.Resounds.refl s
  | some stem =>
    cases s.next? i with
    | none => exact State.Resounds.refl s
    | some suffix =>
      by_cases hsame : reshape gana stem suffix.1 = stem
      · simp only [hsame, if_true]
        exact State.Resounds.refl s
      · simp only [hsame, if_false]
        exact State.resounds_replace hstem (resounds_reshape gana stem suffix.1)

theorem resounds_reshapeEach (gana : Gana) (s : State) (positions : List Nat) :
    s.Resounds State.nowhere (reshapeEach gana s positions) := by
  induction positions generalizing s with
  | nil => exact State.Resounds.refl s
  | cons i rest ih => exact (resounds_reshapeAt gana s i).trans (ih (reshapeAt gana s i))

theorem resounds_of_mem_body (h : t ∈ body gana s) : s.Resounds State.nowhere t := by
  unfold body at h
  split at h
  · simp at h
  · rw [List.mem_singleton.mp h]
    exact resounds_reshapeEach gana s _

theorem resounds_of_mem_rtBody (h : t ∈ rtBody s) : s.Resounds State.nowhere t := by
  unfold rtBody at h
  split at h
  · simp at h
  · next stem i hf =>
    simp only at h
    split at h
    · rw [List.mem_singleton.mp h]
      exact State.resounds_replace (State.get?_of_find? hf) (Term.resounds_guna stem)
    · rw [List.mem_singleton.mp h]
      exact State.Resounds.refl s

end Strengthening

/-! ## Rules on windows -/

namespace BeforeVowel

open Grammar (aciSet)

theorem Makes.resounds {a b : Term} (h : Makes a b) : a.Resounds False b := by
  rcases h.cases with rfl | ⟨-, rfl | rfl⟩ | ⟨-, rfl⟩ | rfl | rfl
  · exact Term.Resounds.refl _
  · exact Term.resounds_setAntya (by decide) (List.cons_ne_nil _ _)
  · exact Term.resounds_setAntya (by decide) (List.cons_ne_nil _ _)
  · exact Term.resounds_setAntya (by decide) (List.cons_ne_nil _ _)
  · exact Term.resounds_alTasya a _ _
  · have hne : (a.withPart (a.value ++ ['v']) (.agama vuk)).value ≠ [] :=
      List.append_ne_nil_of_right_ne_nil _ (List.cons_ne_nil _ _)
    exact Term.resounds_of_ne_nil hne fun ha => isSounding_append.mpr ⟨ha, by decide⟩

theorem resounds_of_mem_body (h : t ∈ body aciSet s) : s.Resounds State.nowhere t := by
  unfold body at h
  split at h
  · simp at h
  · split at h
    · rw [List.mem_singleton.mp h]
      exact State.Resounds.refl s
    · refine RuleSet.applyEach_induction (motive := fun u => s.Resounds State.nowhere u) ?_ ?_ h
      · intro i _ u hu v hv
        rcases RuleSet.mem_applyAt hv with rfl | ⟨w, hw, w', hw', rfl⟩
        · exact hu
        · have hmakes : Makes w.cur w'.cur := ⟨w, rfl, w', hw', rfl⟩
          exact hu.trans (State.resounds_replace (State.get?_of_at? hw) hmakes.resounds)
      · intro u hu
        rw [List.mem_singleton.mp hu]
        exact State.Resounds.refl s

end BeforeVowel

namespace Velar

open Grammar (kuSet)

theorem resounds_of_mem_apply {w w' : Window} (h : w' ∈ kuSet.apply w) :
    w.cur.Resounds False w'.cur := by
  rcases RuleSet.mem_apply h with rfl | ⟨r, hr, -, hchanged⟩
  · exact Term.Resounds.refl _
  · rcases hchanged with ⟨sub, hsub, rfl⟩ | ⟨sub, -, rfl⟩
    · obtain ⟨r₀, hr₀, heq⟩ := RuleSet.exists_of_mem_number hr
      rw [heq] at hsub
      obtain ⟨targets, rfl⟩ := eq_toKu_of_offers hr₀ hsub
      exact Term.resounds_alTasya w.cur targets _
    · exact Term.Resounds.of_value_eq rfl

theorem resounds_of_mem_body (h : t ∈ body kuSet s) : s.Resounds State.nowhere t := by
  unfold body at h
  split at h
  · simp at h
  · rcases RuleSet.mem_applyAt h with rfl | ⟨w, hw, w', hw', rfl⟩
    · exact State.Resounds.refl _
    · exact State.resounds_replace (State.get?_of_at? hw) (resounds_of_mem_apply hw')

end Velar

/-! ## Loss of vowels -/

namespace LitE

/-- The e-substitution takes all sounds of the first abhyāsa, and of no other term. -/
theorem resounds_of_substituted (h : substituted s = some t) :
    s.Resounds (fun i a => s.find? .abhyasa = some (a, i)) t := by
  unfold substituted at h
  split at h
  · next abhyasa i stem j habhyasa hanga =>
    rw [← Option.some.inj h]
    have hget := State.get?_of_find? habhyasa
    have hstem := State.get?_of_find? hanga
    by_cases hij : i = j
    · subst hij
      have hset : ((s.replace i abhyasa.lopa).replace i
          (stem.alTasya (.ofSounds [.a, .A]) (.ofSounds [.e])))
            = s.replace i (stem.alTasya (.ofSounds [.a, .A]) (.ofSounds [.e])) := by
        simp [State.replace]
      rw [hset]
      exact State.resounds_replace hstem (stem.resounds_alTasya _ _)
    · have hlopa : abhyasa.Resounds (s.find? .abhyasa = some (abhyasa, i)) abhyasa.lopa :=
        ⟨fun _ => rfl, fun _ => Or.inr habhyasa⟩
      have hfirst : s.Resounds (fun i a => s.find? .abhyasa = some (a, i))
          (s.replace i abhyasa.lopa) := State.resounds_replace hget hlopa
      have hkept : (s.replace i abhyasa.lopa).terms[j]? = some stem := by
        rw [State.terms_replace, List.getElem?_set_ne hij]
        exact hstem
      exact hfirst.trans (State.resounds_replace hkept (stem.resounds_alTasya _ _))
  · simp at h

end LitE

namespace VowelLoss

/-- The term at the position loses all its sounds: it is the abhyāsa that the e-substitution takes
away, or the first stem and but the vowel `A`. -/
def MayFall (s t : State) (i : Nat) (a : Term) : Prop :=
  (s.find? .abhyasa = some (a, i) ∧ LitE.substituted s = some t)
    ∨ (s.find? .anga = some (a, i) ∧ a.value = ['A'])

/-- A stem that ends in `A` keeps sounds without it, unless there are no others. -/
theorem resounds_setAntya_nil {stem : Term} (h : stem.antya? = some 'A') :
    stem.Resounds (stem.value = ['A']) (stem.setAntya []) where
  sounding := Term.isSounding_setAntya rfl
  silent := by
    intro hb
    have hne : stem.value ≠ [] := by
      intro hnil
      simp [Term.antya?, hnil] at h
    have hsplit := List.dropLast_append_getLast? 'A' h
    simp only [Term.setAntya, List.isEmpty_iff, hne, if_false, Term.isEmpty, Term.withValue,
      List.append_nil] at hb
    rw [hb] at hsplit
    exact Or.inr hsplit.symm

theorem resounds_of_mem_lossIn {stem tin : Term} (hf : s.find? .anga = some (stem, i))
    (h : t ∈ lossIn gana s stem i tin) : s.Resounds (MayFall s t) t := by
  have hget := State.get?_of_find? hf
  unfold lossIn at h
  split at h
  · next hcond =>
    obtain ⟨hfinal, -⟩ := Bool.and_eq_true_iff.mp hcond
    rw [List.mem_singleton.mp h]
    exact State.resounds_replace hget
      ((resounds_setAntya_nil (eq_of_beq hfinal)).mono fun hA => Or.inr ⟨hf, hA⟩)
  split at h
  · rw [List.mem_singleton.mp h]
    exact State.resounds_replace hget (Term.resounds_setUpadha rfl)
  · have hstay : t = s → s.Resounds (MayFall s t) t := by
      rintro rfl
      exact State.Resounds.refl t
    have hsubst : LitE.substituted s = some t → s.Resounds (MayFall s t) t := by
      intro ht
      exact (LitE.resounds_of_substituted ht).mono fun _ _ hfirst => Or.inl ⟨hfirst, ht⟩
    rcases LitE.successors_cases gana s with hnil | hself | ⟨u, hu, hone | htwo⟩
    · rw [hnil] at h
      exact hstay (List.mem_singleton.mp h)
    · rw [hself] at h
      exact hstay (List.mem_singleton.mp h)
    · rw [hone] at h
      obtain rfl := List.mem_singleton.mp h
      exact hsubst hu
    · rw [htwo] at h
      rcases List.mem_pair.mp h with rfl | rfl
      · exact hsubst hu
      · exact hstay rfl

/-- **Only the abhyāsa of the e-substitution and a stem that is but `A` can lose all sounds.** -/
theorem resounds_of_mem_body (h : t ∈ body gana s) : s.Resounds (MayFall s t) t := by
  unfold body at h
  split at h
  · simp at h
  · next stem i hf =>
    split at h
    · split at h
      · exact resounds_of_mem_lossIn hf h
      · rw [List.mem_singleton.mp h]
        exact State.Resounds.refl s
    · rw [List.mem_singleton.mp h]
      exact State.Resounds.refl s

end VowelLoss

/-! ## Derivations -/

theorem State.resounds_of_addOp {P : Nat → Term → Prop} {op : Operation}
    (h : (s.addOp op).Resounds P t) : s.Resounds P t := ⟨h.size, h.term⟩

namespace Grammar

variable {c : Config} {g : Grammar} {stage : String}

/-- What a step of the standard pipeline does to the sounds: reduplication keeps the terms, and of
the other stages only the loss of vowels can take all sounds of a term. -/
theorem resounds_of_mem_step
    (h : (stage, t) ∈ Pipeline.step ⟨standardStages gana aciSet kuSet⟩ s) :
    (stage = "dvirvacana" ∧ Reduplication.Reduplicates s t)
      ∨ s.Resounds
        (fun i a => stage = "ac_adesha" ∧ VowelLoss.MayFall (s.addOp .acAdesha) t i a) t := by
  obtain ⟨slot, -, r, hr, -, hgov, rfl, ht, -⟩ := (scheduledBy gana).of_mem_step h
  rw [← hgov.name]
  have hnowhere : ∀ {op}, (s.addOp op).Resounds State.nowhere t → s.Resounds
      (fun i a => r.name = "ac_adesha" ∧ VowelLoss.MayFall (s.addOp .acAdesha) t i a) t :=
    fun hst => (State.resounds_of_addOp hst).mono fun _ _ hfalse => hfalse.elim
  simp only [standardStages, List.mem_cons, List.not_mem_nil, or_false] at hr
  rcases hr with rfl | rfl | rfl | rfl | rfl | rfl
  · rw [Reduplication.stage_eq] at ht
    exact Or.inl ⟨rfl, (Reduplication.reduplicates_of_mem (Slot.mem_apply_rule ht)).1⟩
  · rw [Strengthening.stage_eq] at ht
    exact Or.inr (hnowhere (Strengthening.resounds_of_mem_body (Slot.mem_apply_rule ht)))
  · rw [Strengthening.rtStage_eq] at ht
    exact Or.inr (hnowhere (Strengthening.resounds_of_mem_rtBody (Slot.mem_apply_rule ht)))
  · rw [BeforeVowel.stage_eq] at ht
    exact Or.inr (hnowhere (BeforeVowel.resounds_of_mem_body (Slot.mem_apply_rule ht)))
  · rw [VowelLoss.stage_eq] at ht
    have hst := VowelLoss.resounds_of_mem_body (Slot.mem_apply_rule ht)
    exact Or.inr ((State.resounds_of_addOp hst).mono fun _ _ hfall => ⟨rfl, hfall⟩)
  · rw [Velar.stage_eq] at ht
    exact Or.inr (hnowhere (Velar.resounds_of_mem_body (Slot.mem_apply_rule ht)))

theorem isSounding_of_mem_step
    (h : (stage, t) ∈ Pipeline.step ⟨standardStages gana aciSet kuSet⟩ s) (hs : s.IsSounding) :
    t.IsSounding := by
  rcases resounds_of_mem_step h with ⟨-, hred⟩ | hst
  · exact hred.isSounding hs
  · exact hst.isSounding hs

theorem isSounding_of_standard_path {steps : List Step}
    (hpath : Pipeline.Path ⟨standardStages gana aciSet kuSet⟩ s steps t) (hs : s.IsSounding) :
    t.IsSounding := by
  induction hpath with
  | refl s => exact hs
  | step hstep _ ih => exact ih (isSounding_of_mem_step hstep hs)

end Grammar

open CommandLine in
/-- The derive command starts from sounds. -/
theorem Program.isSounding_startState {r : DeriveRequest} {start : State}
    (h : Program.startState r = .ok start) : start.IsSounding := by
  obtain ⟨root, ending, hroot, hending, rfl⟩ := startState_eq_ok h
  intro a ha
  rcases List.mem_pair.mp ha with rfl | rfl
  · exact (Upadesha.sounds_of_parseStrict hroot).2
  · exact (Upadesha.sounds_of_parseStrict hending).2

/-- **Sounds stay sounds.** The derive command starts from sounds, and from sounds every derivation
of the standard grammar comes to sounds only. But for reduplication, which keeps every term, each
term stays where it is. A term that has sounds loses the last of them in the stage `ac_adesha`
only: as the abhyāsa that the e-substitution takes away, or as a first stem that is but `A`. -/
theorem Grammar.isSounding_of_path {c : Config} {g : Grammar} (hg : ofConfig c = .ok g) :
    (∀ {r start}, Program.startState r = .ok start → start.IsSounding)
    ∧ ∀ {s t : State} {steps : List Step}, s.IsSounding → g.pipeline.Path s steps t →
      t.IsSounding ∧ ∀ {stage u}, (stage, u) ∈ g.pipeline.step t →
        (stage = "dvirvacana" ∧ Reduplication.Reduplicates t u)
        ∨ (u.terms.length = t.terms.length ∧ ∀ {i a b}, t.terms[i]? = some a →
          u.terms[i]? = some b → a.isEmpty = false → b.isEmpty = true →
          stage = "ac_adesha" ∧ VowelLoss.MayFall (t.addOp .acAdesha) u i a) := by
  obtain ⟨-, rfl⟩ := ofConfig_eq_ok_iff.mp hg
  refine ⟨Program.isSounding_startState, fun hs hpath => ?_⟩
  refine ⟨isSounding_of_standard_path hpath hs, fun hstep => ?_⟩
  rcases resounds_of_mem_step hstep with hred | hst
  · exact Or.inl hred
  · refine Or.inr ⟨hst.size, fun ha hb hsounds hsilent => ?_⟩
    rcases (hst.term ha hb).silent hsilent with hempty | hfall
    · rw [hempty] at hsounds
      simp at hsounds
    · exact hfall

/-- Before atus the loss of vowels takes away pa, the abhyāsa of pac. -/
theorem Grammar.isSounding_of_path_pecatus :
    let r : CommandLine.DeriveRequest :=
      { dhatu := "pac".toList, suffix := "atus".toList, markers := [.kit] }
    ∃ g start steps t stage u i a, ofConfig {} = .ok g ∧ Program.startState r = .ok start
      ∧ start.IsSounding ∧ g.pipeline.Path start steps t ∧ t.IsSounding
      ∧ (stage, u) ∈ g.pipeline.step t ∧ t.terms[i]? = some a ∧ a.value = "pa".toList
      ∧ u.terms[i]?.map Term.value = some [] ∧ stage = "ac_adesha"
      ∧ VowelLoss.MayFall (t.addOp .acAdesha) u i a := by
  intro r
  have hg := ofConfig_of_accepted (show Config.validate {} = .ok () by decide)
  obtain ⟨start, hstart⟩ : ∃ start, Program.startState r = .ok start := ⟨_, rfl⟩
  have hrun : ∃ x₂ ∈ ((standard {}).pipeline.step start).flatMap ((standard {}).pipeline.step ·.2),
      ∃ x₄ ∈ ((standard {}).pipeline.step x₂.2).flatMap ((standard {}).pipeline.step ·.2),
      ∃ x₅ ∈ (standard {}).pipeline.step x₄.2, x₅.1 ≠ "dvirvacana"
        ∧ x₄.2.terms[0]?.map Term.value = some "pa".toList
        ∧ x₅.2.terms[0]?.map Term.value = some [] := by
    rw [← Except.ok.inj hstart]
    decide +kernel
  obtain ⟨x₂, hx₂, x₄, hx₄, ⟨stage, u⟩, hstep, hstage, hold, hnew⟩ := hrun
  obtain ⟨x₁, h₁, h₂⟩ := List.mem_flatMap.mp hx₂
  obtain ⟨x₃, h₃, h₄⟩ := List.mem_flatMap.mp hx₄
  obtain ⟨hfirst, hall⟩ := isSounding_of_path hg
  have hpath : (standard {}).pipeline.Path start _ x₄.2 :=
    .step h₁ (.step h₂ (.step h₃ (.step h₄ (.refl _))))
  obtain ⟨hsounds, hsteps⟩ := hall (hfirst hstart) hpath
  obtain ⟨a, ha, hvalue⟩ := Option.map_eq_some_iff.mp hold
  obtain ⟨b, hb, hsilent⟩ := Option.map_eq_some_iff.mp hnew
  obtain ⟨hname, -⟩ | ⟨-, hfall⟩ := hsteps hstep
  · exact absurd hname hstage
  · obtain ⟨hname, hmay⟩ := hfall ha hb (by simp [Term.isEmpty, hvalue])
      (by simp [Term.isEmpty, hsilent])
    exact ⟨_, start, _, _, stage, u, 0, a, hg, hstart, hfirst hstart, hpath, hsounds, hstep, ha,
      hvalue, hnew, hname, hmay⟩

end Vyakarana
