import Mathlib.Data.List.Basic
import Vyakarana.Proofs.Values

/-!
# The grades of a vowel

Guṇa and vṛddhi look at the two ends that a value can have: a final vowel, or a vowel before one
final consonant. What they put there may be a vowel or a vowel with a semivowel after it, and then
the value ends in another way than before. In either case they find nothing more to do.

* `Term.GunaSettled`, `Term.VrddhiSettled` — the values that are left alone
* `Term.GunaForm`, `Term.VrddhiForm` — what comes of a term, by the end that decides
* `Term.vrddhi_absorbs_guna` — the two together
-/

namespace Vyakarana.Term

variable {t u : Term} {before x : Text} {c d : Char}

/-! ## The ends of a value -/

theorem antya?_of_value (h : t.value = before ++ [c]) : t.antya? = some c := by
  rw [antya?, h, List.getLast?_concat]

theorem isAc_of_value (h : t.value = before ++ [c]) : t.isAc = isVowelChar c := by
  rw [isAc, antya?_of_value h, Option.any_some]

theorem antya?_of_penultimate (h : t.value = before ++ [d, c]) : t.antya? = some c := by
  have hlast : t.value = before ++ [d] ++ [c] := by simp [h]
  exact antya?_of_value hlast

theorem isAc_of_penultimate (h : t.value = before ++ [d, c]) : t.isAc = isVowelChar c := by
  rw [isAc, antya?_of_penultimate h, Option.any_some]

theorem upadha?_of_value (h : t.value = before ++ [d, c]) : t.upadha? = some d := by
  simp [upadha?, h]

theorem setAntya_of_value (h : t.value = before ++ [c]) (x : Text) :
    t.setAntya x = t.withValue (before ++ x) := by
  simp [setAntya, h]

theorem setUpadha_of_value (h : t.value = before ++ [d, c]) (x : Text) :
    t.setUpadha x = t.withValue (before ++ x ++ [c]) := by
  simp [setUpadha, h]

theorem exists_value_of_antya? (h : t.antya? = some c) : ∃ before, t.value = before ++ [c] :=
  List.getLast?_eq_some_iff.mp h

theorem exists_value_of_upadha? (h : t.upadha? = some d) :
    ∃ before c, t.value = before ++ [d, c] := by
  rcases List.eq_nil_or_concat t.value with hnil | ⟨front, c, hvalue⟩
  · simp [upadha?, hnil] at h
  · rw [List.concat_eq_append] at hvalue
    rw [upadha?, hvalue, List.dropLast_concat] at h
    obtain ⟨before, rfl⟩ := List.getLast?_eq_some_iff.mp h
    exact ⟨before, c, by simp [hvalue]⟩

/-! ## The sounds of the grades -/

/-- The ik vowels. -/
abbrev ik : SoundClass := Pratyahara.sounds .ik

theorem ik_cases (h : ik.contains c = true) :
    c ∈ ['i', 'I', 'u', 'U'] ∨ c ∈ ['f', 'F', 'x', 'X'] :=
  SoundClass.of_contains (fun c => c ∈ ['i', 'I', 'u', 'U'] ∨ c ∈ ['f', 'F', 'x', 'X']) h
    (by decide)

theorem isVowelChar_of_ik (h : ik.contains c = true) : isVowelChar c = true :=
  SoundClass.of_contains (isVowelChar · = true) h (by decide)

theorem ik_eq_false_of_consonant (h : isVowelChar c = false) : ik.contains c = false := by
  rw [Bool.eq_false_iff]
  intro hik
  rw [isVowelChar_of_ik hik] at h
  simp at h

theorem ik_of_isLightIk (h : isLightIk d = true) : ik.contains d = true := by
  simp only [isLightIk, List.contains_iff_mem, List.mem_cons, List.not_mem_nil, or_false] at h
  rcases h with rfl | rfl | rfl | rfl
  all_goals decide

theorem isLightIk_eq_false (h : ik.contains d = false) : isLightIk d = false := by
  rw [Bool.eq_false_iff]
  intro hlight
  rw [ik_of_isLightIk hlight] at h
  simp at h

/-- The guṇa of an ik vowel is a vowel of the same vṛddhi, or it is `a` with a semivowel, and then
its vṛddhi is `A` with that semivowel. -/
theorem gunaOf_cases (h : ik.contains c = true) :
    (∃ e, gunaOf c = [e] ∧ isVowelChar e = true ∧ ik.contains e = false ∧ vrddhiOf e = vrddhiOf c)
      ∨ ∃ r, gunaOf c = ['a', r] ∧ isVowelChar r = false ∧ vrddhiOf c = ['A', r] := by
  rcases ik_cases h with hmem | hmem
  · simp only [List.mem_cons, List.not_mem_nil, or_false] at hmem
    rcases hmem with rfl | rfl | rfl | rfl
    all_goals exact Or.inl ⟨_, rfl, by decide, by decide, rfl⟩
  · simp only [List.mem_cons, List.not_mem_nil, or_false] at hmem
    rcases hmem with rfl | rfl | rfl | rfl
    all_goals exact Or.inr ⟨_, rfl, by decide, rfl⟩

theorem vrddhiOf_mem (c : Char) : vrddhiOf c ∈ [['E'], ['O'], ['A'], ['A', 'r'], ['A', 'l']] := by
  unfold vrddhiOf
  split <;> decide

/-- A vṛddhi is a vowel that is no ik vowel and has itself as vṛddhi, or `A` with a semivowel. -/
theorem vrddhiOf_cases (c : Char) :
    (∃ e, vrddhiOf c = [e] ∧ isVowelChar e = true ∧ ik.contains e = false ∧ vrddhiOf e = [e])
      ∨ ∃ r, vrddhiOf c = ['A', r] ∧ isVowelChar r = false := by
  have hmem := vrddhiOf_mem c
  simp only [List.mem_cons, List.not_mem_nil, or_false] at hmem
  rcases hmem with h | h | h | h | h
  · exact Or.inl ⟨_, h, by decide, by decide, rfl⟩
  · exact Or.inl ⟨_, h, by decide, by decide, rfl⟩
  · exact Or.inl ⟨_, h, by decide, by decide, rfl⟩
  · exact Or.inr ⟨_, h, by decide⟩
  · exact Or.inr ⟨_, h, by decide⟩

/-- Each grade has one vowel. -/
theorem countP_gunaOf (c : Char) : (gunaOf c).countP isVowelChar = 1 := by
  unfold gunaOf
  split <;> decide

theorem countP_vrddhiOf (c : Char) : (vrddhiOf c).countP isVowelChar = 1 := by
  unfold vrddhiOf
  split <;> decide

/-! ## Guṇa -/

/-- Guṇa finds nothing to do: no ik vowel stands at the end, and no light one before a final
consonant. -/
structure GunaSettled (t : Term) : Prop where
  final : ∀ c, t.antya? = some c → ik.contains c = false
  penultimate : ∀ d, t.upadha? = some d → isLightIk d = true → t.isAc = true

theorem gunaSettled_of_vowel (h : t.value = before ++ [c]) (hc : isVowelChar c = true)
    (hik : ik.contains c = false) : GunaSettled t where
  final := by
    intro e he
    rw [antya?_of_value h] at he
    rwa [← Option.some.inj he]
  penultimate := by
    intro _ _ _
    rw [isAc_of_value h, hc]

theorem gunaSettled_of_consonant (h : t.value = before ++ [d, c]) (hc : isVowelChar c = false)
    (hd : isLightIk d = false) : GunaSettled t where
  final := by
    intro e he
    rw [antya?_of_penultimate h] at he
    rw [← Option.some.inj he]
    exact ik_eq_false_of_consonant hc
  penultimate := by
    intro e he hlight
    rw [upadha?_of_value h] at he
    rw [← Option.some.inj he, hd] at hlight
    simp at hlight

theorem guna_of_settled (h : GunaSettled t) : t.guna = t := by
  unfold guna
  split
  · rfl
  · next c hc =>
    rw [if_neg (by simp [h.final c hc])]
    split
    · rfl
    · next d hd =>
      refine if_neg fun hcond => ?_
      simp only [Bool.and_eq_true, Bool.not_eq_true'] at hcond
      have hac := h.penultimate d hd hcond.1
      rw [isAc, hc, Option.any_some, hcond.2] at hac
      simp at hac

theorem guna_of_final (h : t.value = before ++ [c]) (hc : ik.contains c = true) :
    t.guna = t.withValue (before ++ gunaOf c) := by
  rw [guna, antya?_of_value h]
  dsimp only
  rw [if_pos hc, setAntya_of_value h]

theorem guna_of_penultimate (h : t.value = before ++ [d, c]) (hd : isLightIk d = true)
    (hc : isVowelChar c = false) : t.guna = t.withValue (before ++ gunaOf d ++ [c]) := by
  rw [guna, antya?_of_penultimate h]
  dsimp only
  rw [if_neg (by simp [ik_eq_false_of_consonant hc]), upadha?_of_value h]
  dsimp only
  rw [if_pos (by simp [hd, hc]), setUpadha_of_value h]

/-- What guṇa makes of a term, by the end that decides. -/
inductive GunaForm (t : Term) : Term → Prop where
  | final {before : Text} {c : Char} (hvalue : t.value = before ++ [c])
    (hc : ik.contains c = true) : GunaForm t (t.withValue (before ++ gunaOf c))
  | penultimate {before : Text} {c d : Char} (hvalue : t.value = before ++ [d, c])
    (hd : isLightIk d = true) (hc : isVowelChar c = false) :
    GunaForm t (t.withValue (before ++ gunaOf d ++ [c]))
  | same (hsettled : GunaSettled t) : GunaForm t t

theorem gunaForm_guna (t : Term) : GunaForm t t.guna := by
  by_cases hfinal : ∃ c, t.antya? = some c ∧ ik.contains c = true
  · obtain ⟨c, hc, hik⟩ := hfinal
    obtain ⟨before, hvalue⟩ := exists_value_of_antya? hc
    rw [guna_of_final hvalue hik]
    exact .final hvalue hik
  by_cases hpenultimate : ∃ d, t.upadha? = some d ∧ isLightIk d = true ∧ t.isAc = false
  · obtain ⟨d, hd, hlight, hac⟩ := hpenultimate
    obtain ⟨before, c, hvalue⟩ := exists_value_of_upadha? hd
    have hc : isVowelChar c = false := by rw [← isAc_of_penultimate hvalue, hac]
    rw [guna_of_penultimate hvalue hlight hc]
    exact .penultimate hvalue hlight hc
  · have hsettled : GunaSettled t := by
      refine ⟨fun c hc => ?_, fun d hd hlight => ?_⟩
      · rw [Bool.eq_false_iff]
        exact fun hik => hfinal ⟨c, hc, hik⟩
      · rw [← Bool.not_eq_false]
        exact fun hac => hpenultimate ⟨d, hd, hlight, hac⟩
    rw [guna_of_settled hsettled]
    exact .same hsettled

theorem GunaForm.settled (h : GunaForm t u) : GunaSettled u := by
  cases h with
  | final hvalue hc =>
    rcases gunaOf_cases hc with ⟨e, he, hvowel, hik, -⟩ | ⟨r, hr, hcons, -⟩
    · rw [he]
      exact gunaSettled_of_vowel rfl hvowel hik
    -- The term ends in a consonant now, so the `a` before it has become the sound to look at.
    · rw [hr]
      exact gunaSettled_of_consonant rfl hcons (by decide)
  | @penultimate before c d hvalue hd hc =>
    rcases gunaOf_cases (ik_of_isLightIk hd) with ⟨e, he, -, hik, -⟩ | ⟨r, hr, hcons, -⟩
    · rw [he]
      have hvalue' : (t.withValue (before ++ [e] ++ [c])).value = before ++ [e, c] := by
        simp [withValue]
      exact gunaSettled_of_consonant hvalue' hc (isLightIk_eq_false hik)
    · rw [hr]
      have hvalue' : (t.withValue (before ++ ['a', r] ++ [c])).value
          = before ++ ['a'] ++ [r, c] := by simp [withValue]
      have hlight := isLightIk_eq_false (ik_eq_false_of_consonant hcons)
      exact gunaSettled_of_consonant hvalue' hc hlight
  | same hsettled => exact hsettled

theorem GunaForm.numSyllables_eq (h : GunaForm t u) : u.numSyllables = t.numSyllables := by
  cases h with
  | final hvalue hc =>
    simp [numSyllables, withValue, hvalue, countP_gunaOf, isVowelChar_of_ik hc]
  | penultimate hvalue hd hc =>
    have hvowel := isVowelChar_of_ik (ik_of_isLightIk hd)
    simp [numSyllables, withValue, hvalue, countP_gunaOf, hvowel, hc]
  | same => rfl

/-! ## Vṛddhi -/

/-- Vṛddhi finds nothing to do: a vowel at the end has itself as vṛddhi, and no `a` stands before a
final consonant. -/
structure VrddhiSettled (t : Term) : Prop where
  final : ∀ c, t.antya? = some c → isVowelChar c = true → vrddhiOf c = [c]
  penultimate : t.upadha? = some 'a' → t.isAc = true

theorem vrddhiSettled_of_vowel (h : t.value = before ++ [c]) (hc : isVowelChar c = true)
    (hself : vrddhiOf c = [c]) : VrddhiSettled t where
  final := by
    intro e he _
    rw [antya?_of_value h] at he
    rwa [← Option.some.inj he]
  penultimate := by
    intro _
    rw [isAc_of_value h, hc]

theorem vrddhiSettled_of_consonant (h : t.value = before ++ [d, c]) (hc : isVowelChar c = false)
    (hd : d ≠ 'a') : VrddhiSettled t where
  final := by
    intro e he hvowel
    rw [antya?_of_penultimate h] at he
    rw [← Option.some.inj he, hc] at hvowel
    simp at hvowel
  penultimate := by
    intro ha
    rw [upadha?_of_value h] at ha
    exact absurd (Option.some.inj ha) hd

theorem vrddhiSettled_of_not (hac : t.isAc = false) (hupadha : t.upadha? ≠ some 'a') :
    VrddhiSettled t where
  final := by
    intro c hc hvowel
    rw [isAc, hc, Option.any_some, hvowel] at hac
    simp at hac
  penultimate := fun ha => absurd ha hupadha

theorem vrddhi_of_settled (h : VrddhiSettled t) : t.vrddhi = t := by
  unfold vrddhi
  split
  · rfl
  · next c hc =>
    split
    · next hvowel => rw [h.final c hc hvowel, setAntya_of_antya? hc]
    · next hcons =>
      refine if_neg fun ha => hcons ?_
      have hac := h.penultimate (beq_iff_eq.mp ha)
      rwa [isAc, hc, Option.any_some] at hac

theorem vrddhi_of_final (h : t.value = before ++ [c]) (hc : isVowelChar c = true) :
    t.vrddhi = t.withValue (before ++ vrddhiOf c) := by
  rw [vrddhi, antya?_of_value h]
  dsimp only
  rw [if_pos hc, setAntya_of_value h]

theorem vrddhi_of_penultimate (h : t.value = before ++ ['a', c]) (hc : isVowelChar c = false) :
    t.vrddhi = t.withValue (before ++ ['A', c]) := by
  rw [vrddhi, antya?_of_penultimate h]
  dsimp only
  rw [if_neg (by simp [hc]), upadha?_of_value h, if_pos (beq_self_eq_true _),
    setUpadha_of_value h, List.append_assoc]
  rfl

/-- What vṛddhi makes of a term, by the end that decides. -/
inductive VrddhiForm (t : Term) : Term → Prop where
  | final {before : Text} {c : Char} (hvalue : t.value = before ++ [c])
    (hc : isVowelChar c = true) : VrddhiForm t (t.withValue (before ++ vrddhiOf c))
  | penultimate {before : Text} {c : Char} (hvalue : t.value = before ++ ['a', c])
    (hc : isVowelChar c = false) : VrddhiForm t (t.withValue (before ++ ['A', c]))
  | same (hac : t.isAc = false) (hupadha : t.upadha? ≠ some 'a') : VrddhiForm t t

theorem vrddhiForm_vrddhi (t : Term) : VrddhiForm t t.vrddhi := by
  by_cases hac : t.isAc = true
  · obtain ⟨c, hc, hvowel⟩ := (Option.any_eq_true ..).mp hac
    obtain ⟨before, hvalue⟩ := exists_value_of_antya? hc
    rw [vrddhi_of_final hvalue hvowel]
    exact .final hvalue hvowel
  rw [Bool.not_eq_true] at hac
  by_cases hupadha : t.upadha? = some 'a'
  · obtain ⟨before, c, hvalue⟩ := exists_value_of_upadha? hupadha
    have hc : isVowelChar c = false := by rw [← isAc_of_penultimate hvalue, hac]
    rw [vrddhi_of_penultimate hvalue hc]
    exact .penultimate hvalue hc
  · rw [vrddhi_of_settled (vrddhiSettled_of_not hac hupadha)]
    exact .same hac hupadha

theorem VrddhiForm.settled (h : VrddhiForm t u) : VrddhiSettled u := by
  cases h with
  | @final before c hvalue hc =>
    rcases vrddhiOf_cases c with ⟨e, he, hvowel, -, hself⟩ | ⟨r, hr, hcons⟩
    · rw [he]
      exact vrddhiSettled_of_vowel rfl hvowel hself
    -- Here too the last sound but one decides from now on, and `A` is not `a`.
    · rw [hr]
      exact vrddhiSettled_of_consonant rfl hcons (by decide)
  | penultimate hvalue hc => exact vrddhiSettled_of_consonant rfl hc (by decide)
  | same hac hupadha => exact vrddhiSettled_of_not hac hupadha

theorem VrddhiForm.numSyllables_eq (h : VrddhiForm t u) : u.numSyllables = t.numSyllables := by
  cases h with
  | final hvalue hc => simp [numSyllables, withValue, hvalue, countP_vrddhiOf, hc]
  | penultimate hvalue hc =>
    have ha : isVowelChar 'a' = true := by decide
    have hA : isVowelChar 'A' = true := by decide
    simp [numSyllables, withValue, hvalue, hc, ha, hA]
  | same => rfl

/-! ## Guṇa and vṛddhi -/

theorem VrddhiForm.gunaSettled (h : VrddhiForm t u) (ht : t.isAc = true ∨ t.upadha? = some 'a') :
    GunaSettled u := by
  cases h with
  | @final before c hvalue hc =>
    rcases vrddhiOf_cases c with ⟨e, he, hvowel, hik, -⟩ | ⟨r, hr, hcons⟩
    · rw [he]
      exact gunaSettled_of_vowel rfl hvowel hik
    · rw [hr]
      exact gunaSettled_of_consonant rfl hcons (by decide)
  | penultimate hvalue hc => exact gunaSettled_of_consonant rfl hc (by decide)
  | same hac hupadha =>
    rcases ht with h | h
    · rw [hac] at h
      simp at h
    · exact absurd h hupadha

theorem GunaForm.vrddhi_eq (h : GunaForm t u) (ht : t.isAc = true ∨ t.upadha? = some 'a') :
    u.vrddhi = t.vrddhi := by
  cases h with
  | @final before c hvalue hc =>
    rw [vrddhi_of_final hvalue (isVowelChar_of_ik hc)]
    rcases gunaOf_cases hc with ⟨e, he, hvowel, -, hsame⟩ | ⟨r, hr, hcons, hA⟩
    · rw [he, ← hsame]
      exact vrddhi_of_final rfl hvowel
    · rw [hr, hA]
      exact vrddhi_of_penultimate rfl hcons
  | penultimate hvalue hd hc =>
    rcases ht with h | h
    · rw [isAc_of_penultimate hvalue, hc] at h
      simp at h
    · rw [upadha?_of_value hvalue] at h
      rw [Option.some.inj h] at hd
      exact absurd hd (by decide)
  | same => rfl

/-- **Guṇa and vṛddhi each do all at once and keep the number of syllables,** and where a term takes
vṛddhi, guṇa before or after makes no difference. -/
theorem vrddhi_absorbs_guna (t : Term) :
    t.guna.guna = t.guna ∧ t.vrddhi.vrddhi = t.vrddhi
    ∧ t.guna.numSyllables = t.numSyllables ∧ t.vrddhi.numSyllables = t.numSyllables
    ∧ (t.isAc = true ∨ t.upadha? = some 'a' →
      t.guna.vrddhi = t.vrddhi ∧ t.vrddhi.guna = t.vrddhi) := by
  refine ⟨guna_of_settled t.gunaForm_guna.settled, vrddhi_of_settled t.vrddhiForm_vrddhi.settled,
    t.gunaForm_guna.numSyllables_eq, t.vrddhiForm_vrddhi.numSyllables_eq, fun ht => ⟨?_, ?_⟩⟩
  · exact t.gunaForm_guna.vrddhi_eq ht
  · exact guna_of_settled (t.vrddhiForm_vrddhi.gunaSettled ht)

/-- The root kṛ ends in a vowel, of which both grades have a consonant after them. The root pac has
a penultimate `a`, which guṇa does not touch. -/
theorem vrddhi_absorbs_guna_kf :
    let kf := dhatu "kf".toList
    let pac := dhatu "pac".toList
    kf.guna.value = "kar".toList ∧ kf.isAc = true ∧ kf.guna.vrddhi = kf.vrddhi
      ∧ kf.vrddhi.guna = kf.vrddhi ∧ kf.vrddhi.value = "kAr".toList
      ∧ pac.upadha? = some 'a' ∧ pac.guna.vrddhi = pac.vrddhi ∧ pac.vrddhi.guna = pac.vrddhi := by
  intro kf pac
  have hkf : kf.isAc = true := by decide
  have hpac : pac.upadha? = some 'a' := by decide
  obtain ⟨hkfAfter, hkfBefore⟩ := (vrddhi_absorbs_guna kf).2.2.2.2 (Or.inl hkf)
  obtain ⟨hpacAfter, hpacBefore⟩ := (vrddhi_absorbs_guna pac).2.2.2.2 (Or.inr hpac)
  exact ⟨by decide, hkf, hkfAfter, hkfBefore, by decide, hpac, hpacAfter, hpacBefore⟩

end Vyakarana.Term
