import Mathlib.Data.List.TakeWhile
import Vyakarana.Proofs.Reduplication

/-!
# The abhyāsa as a reduced syllable

Whatever a root looks like, its abhyāsa is a consonant or none and a vowel or none. The consonant is
palatalised before it loses its aspiration, so in the end it is neither velar nor aspirated, and the
vowel is one of three short simple ones. Such a syllable is its own abhyāsa.

* `Reduplication.IsSyllable` — a consonant and a vowel that need no reduction
* `Reduplication.isSyllable_abhyasaOf` — the abhyāsa is one
* `Reduplication.abhyasaOf_is_reduced` — what that means for its sounds and for a second reduction
-/

namespace Vyakarana.Reduplication

open Upadesha (isSounding)

variable {root : Term} {onset nucleus : Option Char} {x : Text} {c v : Char} {σ : Sound}

/-! ## Changes of sounds -/

theorem onChar_toChar (f : Sound → Sound) (σ : Sound) : onChar f σ.toChar = (f σ).toChar := by
  rw [onChar, Sound.ofChar?_toChar]

theorem onChar_of_ofChar?_eq_none (f : Sound → Sound) (h : Sound.ofChar? c = none) :
    onChar f c = c := by
  rw [onChar, h]

theorem isVowelChar_toChar (σ : Sound) : isVowelChar σ.toChar = σ.isVowel := by
  rw [isVowelChar, Sound.ofChar?_toChar, Option.any_some]

theorem exists_vowel_of_isVowelChar (h : isVowelChar v = true) :
    ∃ σ : Sound, v = σ.toChar ∧ σ.isVowel = true := by
  obtain ⟨σ, hσ, hvowel⟩ := (Option.any_eq_true ..).mp h
  exact ⟨σ, (Sound.toChar_of_ofChar? hσ).symm, hvowel⟩

/-! ### The consonant -/

/-- What becomes of a consonant sound: palatalised first, it does not come back to a velar. -/
def reduced (σ : Sound) : Sound := (palatalise σ).deaspirate

/-- What becomes of the consonant (7.4.62 kuhoś cuḥ, then 8.4.54 abhyāse car ca). -/
def reduceConsonant (c : Char) : Char := onChar Sound.deaspirate (onChar palatalise c)

theorem reduceConsonant_toChar (σ : Sound) : reduceConsonant σ.toChar = (reduced σ).toChar := by
  rw [reduceConsonant, onChar_toChar, onChar_toChar, reduced]

theorem reduced_of_consonant (h : σ.isVowel = false) :
    (reduced σ).isVowel = false ∧ (reduced σ).isAspirated = false ∧ reduced σ ≠ .h
      ∧ reduced σ ∉ Varga.ku.sounds.sounds := by
  have hall : ∀ σ ∈ Sound.all, σ.isVowel = false → (reduced σ).isVowel = false
      ∧ (reduced σ).isAspirated = false ∧ reduced σ ≠ .h
      ∧ reduced σ ∉ Varga.ku.sounds.sounds := by decide
  exact hall σ σ.mem_all h

theorem reduced_reduced (σ : Sound) : reduced (reduced σ) = reduced σ := by
  have hall : ∀ σ ∈ Sound.all, reduced (reduced σ) = reduced σ := by decide
  exact hall σ σ.mem_all

/-- A consonant stays one, and needs no second reduction. -/
theorem reduceConsonant_of_consonant (h : isVowelChar c = false) :
    isVowelChar (reduceConsonant c) = false
      ∧ reduceConsonant (reduceConsonant c) = reduceConsonant c := by
  cases hc : Sound.ofChar? c with
  | none =>
    have hsame : reduceConsonant c = c := by
      rw [reduceConsonant, onChar_of_ofChar?_eq_none _ hc, onChar_of_ofChar?_eq_none _ hc]
    rw [hsame]
    exact ⟨h, hsame⟩
  | some σ =>
    obtain rfl := Sound.toChar_of_ofChar? hc
    rw [isVowelChar_toChar] at h
    rw [reduceConsonant_toChar, reduceConsonant_toChar, isVowelChar_toChar, reduced_reduced]
    exact ⟨(reduced_of_consonant h).1, rfl⟩

/-! ### The vowel -/

/-- The vowels that an abhyāsa can have. -/
def shortVowels : List Sound := [.a, .i, .u]

theorem reduceVowel_of_vowel (h : σ.isVowel = true) : reduceVowel σ ∈ shortVowels := by
  have hall : ∀ σ ∈ Sound.all, σ.isVowel = true → reduceVowel σ ∈ shortVowels := by decide
  exact hall σ σ.mem_all h

theorem exists_copiedVowel (root : Term) (h : isVowelChar v = true) :
    ∃ σ ∈ shortVowels, copiedVowel root v = σ.toChar := by
  unfold copiedVowel
  split
  · exact ⟨.a, by decide, rfl⟩
  · obtain ⟨σ, rfl, hvowel⟩ := exists_vowel_of_isVowelChar h
    exact ⟨reduceVowel σ, reduceVowel_of_vowel hvowel, onChar_toChar reduceVowel σ⟩

/-- A short vowel needs no second reduction. -/
theorem onChar_reduceVowel_of_short (h : σ ∈ shortVowels) :
    isVowelChar σ.toChar = true ∧ onChar reduceVowel σ.toChar = σ.toChar := by
  have hall : ∀ σ ∈ shortVowels,
      isVowelChar σ.toChar = true ∧ onChar reduceVowel σ.toChar = σ.toChar := by decide
  exact hall σ h

/-! ## Syllables -/

/-- A consonant or none, then a vowel or none, neither of which needs any reduction. -/
structure IsSyllable (x : Text) (onset nucleus : Option Char) : Prop where
  value : x = onset.toList ++ nucleus.toList
  onset : ∀ c ∈ onset, isVowelChar c = false ∧ reduceConsonant c = c
  nucleus : ∀ v ∈ nucleus, isVowelChar v = true ∧ onChar reduceVowel v = v

theorem IsSyllable.length_le_two (h : IsSyllable x onset nucleus) : x.length ≤ 2 := by
  rw [h.value]
  cases onset <;> cases nucleus <;> simp

/-- The onset is what stands before the first vowel. -/
theorem IsSyllable.takeWhile_eq (h : IsSyllable x onset nucleus) :
    x.takeWhile (!isVowelChar ·) = onset.toList := by
  have honset : ∀ c ∈ onset.toList, (!isVowelChar c) = true := by
    intro c hc
    rw [(h.onset c (Option.mem_toList.mp hc)).1]
    rfl
  have hnucleus : nucleus.toList.takeWhile (!isVowelChar ·) = [] := by
    cases hv : nucleus with
    | none => rfl
    | some v => simp [(h.nucleus v hv).1]
  rw [h.value, List.takeWhile_append_of_pos honset, hnucleus, List.append_nil]

theorem IsSyllable.find?_eq (h : IsSyllable x onset nucleus) : x.find? isVowelChar = nucleus := by
  have honset : onset.toList.find? isVowelChar = none := by
    rw [List.find?_eq_none]
    intro c hc
    rw [(h.onset c (Option.mem_toList.mp hc)).1]
    simp
  rw [h.value, List.find?_append, honset, Option.none_or]
  cases hv : nucleus with
  | none => rfl
  | some v => simp [(h.nucleus v hv).1]

/-! ## The abhyāsa -/

theorem value_abhyasaOf (root : Term) : (abhyasaOf root).value
    = ((keptConsonant? (root.value.takeWhile (!isVowelChar ·))).map reduceConsonant).toList
      ++ ((root.value.find? isVowelChar).map (copiedVowel root)).toList := by
  rw [List.find?_eq_head?_dropWhile_not]
  rfl

theorem mem_of_keptConsonant? {onset : Text} {c : Char} (h : keptConsonant? onset = some c) :
    c ∈ onset := by
  unfold keptConsonant? at h
  split at h
  · split at h
    · simp [← Option.some.inj h]
    · simp [← Option.some.inj h]
  · simp [← Option.some.inj h]
  · simp at h

theorem isVowelChar_of_keptConsonant?
    (h : keptConsonant? (root.value.takeWhile (!isVowelChar ·)) = some c) :
    isVowelChar c = false := by
  simpa using List.mem_takeWhile_imp (mem_of_keptConsonant? h)

theorem isSyllable_abhyasaOf (root : Term) : IsSyllable (abhyasaOf root).value
    ((keptConsonant? (root.value.takeWhile (!isVowelChar ·))).map reduceConsonant)
    ((root.value.find? isVowelChar).map (copiedVowel root)) where
  value := value_abhyasaOf root
  onset := by
    intro c hc
    obtain ⟨kept, hkept, rfl⟩ := Option.map_eq_some_iff.mp hc
    exact reduceConsonant_of_consonant (isVowelChar_of_keptConsonant? hkept)
  nucleus := by
    intro v hv
    obtain ⟨vowel, hvowel, rfl⟩ := Option.map_eq_some_iff.mp hv
    obtain ⟨σ, hσ, hcopied⟩ := exists_copiedVowel root (List.find?_some hvowel)
    rw [hcopied]
    exact onChar_reduceVowel_of_short hσ

/-- A syllable is its own abhyāsa, but for that of bhū. -/
theorem value_abhyasaOf_of_isSyllable (h : IsSyllable root.value onset nucleus)
    (hbhu : isBhu root = false) : (abhyasaOf root).value = root.value := by
  have honset : (keptConsonant? onset.toList).map reduceConsonant = onset := by
    cases hc : onset with
    | none => rfl
    | some c => exact congrArg some (h.onset c hc).2
  have hnucleus : nucleus.map (copiedVowel root) = nucleus := by
    cases hv : nucleus with
    | none => rfl
    | some v => simp [copiedVowel, hbhu, (h.nucleus v hv).2]
  rw [value_abhyasaOf, h.takeWhile_eq, h.find?_eq, honset, hnucleus, h.value]

/-- An abhyāsa is no root, so the vowel of bhū is not given to it again. -/
theorem isBhu_abhyasaOf (root : Term) : isBhu (abhyasaOf root) = false := by
  rw [isBhu, hasTag_abhyasaOf]
  simp

theorem value_abhyasaOf_abhyasaOf (root : Term) :
    (abhyasaOf (abhyasaOf root)).value = (abhyasaOf root).value :=
  value_abhyasaOf_of_isSyllable (isSyllable_abhyasaOf root) (isBhu_abhyasaOf root)

theorem keptConsonant?_eq_none_iff {onset : Text} : keptConsonant? onset = none ↔ onset = [] := by
  unfold keptConsonant?
  split
  · split <;> simp
  · simp
  · simp

/-- There is a consonant exactly before another sound than a vowel. -/
theorem keptConsonant?_isSome_iff : (keptConsonant? (root.value.takeWhile (!isVowelChar ·))).isSome
    ↔ ∃ c, root.adi? = some c ∧ isVowelChar c = false := by
  rw [Option.isSome_iff_ne_none, ne_eq, keptConsonant?_eq_none_iff, Term.adi?]
  cases root.value with
  | nil => simp
  | cons c rest => simp [List.takeWhile_cons]

theorem value_abhyasaOf_eq_nil_iff : (abhyasaOf root).value = [] ↔ root.value = [] := by
  rw [value_abhyasaOf, List.append_eq_nil_iff, Option.toList_eq_nil_iff, Option.toList_eq_nil_iff,
    Option.map_eq_none_iff, Option.map_eq_none_iff, keptConsonant?_eq_none_iff]
  cases root.value with
  | nil => simp
  | cons c rest => by_cases hc : isVowelChar c = true <;> simp [hc]

/-! ## The abhyāsa of sounds -/

theorem exists_consonant_abhyasaOf (h : isSounding root.value = true) : ∃ consonant : Option Sound,
    (keptConsonant? (root.value.takeWhile (!isVowelChar ·))).map reduceConsonant
      = consonant.map Sound.toChar
    ∧ ∀ σ ∈ consonant, σ.isVowel = false ∧ σ.isAspirated = false ∧ σ ≠ .h
      ∧ σ ∉ Varga.ku.sounds.sounds := by
  cases hkept : keptConsonant? (root.value.takeWhile (!isVowelChar ·)) with
  | none => exact ⟨none, rfl, by simp⟩
  | some c =>
    have hmem : c ∈ root.value := List.takeWhile_subset _ (mem_of_keptConsonant? hkept)
    obtain ⟨σ, hσ⟩ := Option.isSome_iff_exists.mp (List.all_eq_true.mp h c hmem)
    obtain rfl := Sound.toChar_of_ofChar? hσ
    have hcons := isVowelChar_of_keptConsonant? hkept
    rw [isVowelChar_toChar] at hcons
    refine ⟨some (reduced σ), congrArg some (reduceConsonant_toChar σ), fun ρ hρ => ?_⟩
    rw [← Option.some.inj hρ]
    exact reduced_of_consonant hcons

theorem exists_vowel_abhyasaOf (root : Term) : ∃ vowel : Option Sound,
    (root.value.find? isVowelChar).map (copiedVowel root) = vowel.map Sound.toChar
    ∧ ∀ σ ∈ vowel, σ ∈ shortVowels := by
  cases hvowel : root.value.find? isVowelChar with
  | none => exact ⟨none, rfl, by simp⟩
  | some v =>
    obtain ⟨σ, hσ, hcopied⟩ := exists_copiedVowel root (List.find?_some hvowel)
    exact ⟨some σ, congrArg some hcopied, by simpa using hσ⟩

/-- **The abhyāsa is a reduced syllable.** It has two sounds at most, none only for a root without
any, and it is its own abhyāsa. The abhyāsa of sounds is a consonant, if they begin with one, and
then a vowel, if they have one: the vowel is `a`, `i` or `u`, and the consonant is neither aspirated
nor `h` nor a velar. -/
theorem abhyasaOf_is_reduced (root : Term) :
    (abhyasaOf root).value.length ≤ 2
    ∧ ((abhyasaOf root).value = [] ↔ root.value = [])
    ∧ (abhyasaOf (abhyasaOf root)).value = (abhyasaOf root).value
    ∧ (isSounding root.value = true → ∃ consonant vowel : Option Sound,
      (abhyasaOf root).value = (consonant.toList ++ vowel.toList).map Sound.toChar
      ∧ (vowel.isSome ↔ ∃ c ∈ root.value, isVowelChar c = true)
      ∧ (∀ σ ∈ vowel, σ ∈ [Sound.a, .i, .u])
      ∧ (consonant.isSome ↔ ∃ c, root.adi? = some c ∧ isVowelChar c = false)
      ∧ ∀ σ ∈ consonant, σ.isVowel = false ∧ σ.isAspirated = false ∧ σ ≠ .h
        ∧ σ ∉ Varga.ku.sounds.sounds) := by
  refine ⟨(isSyllable_abhyasaOf root).length_le_two, value_abhyasaOf_eq_nil_iff,
    value_abhyasaOf_abhyasaOf root, fun hsounding => ?_⟩
  obtain ⟨consonant, hconsonant, hreduced⟩ := exists_consonant_abhyasaOf hsounding
  obtain ⟨vowel, hvowel, hshort⟩ := exists_vowel_abhyasaOf root
  refine ⟨consonant, vowel, ?_, ?_, hshort, ?_, hreduced⟩
  · rw [value_abhyasaOf, hconsonant, hvowel, Option.toList_map, Option.toList_map, List.map_append]
  · have hsome := congrArg Option.isSome hvowel
    rw [Option.isSome_map, Option.isSome_map] at hsome
    rw [← hsome, List.find?_isSome]
  · have hsome := congrArg Option.isSome hconsonant
    rw [Option.isSome_map, Option.isSome_map] at hsome
    rw [← hsome, keptConsonant?_isSome_iff]

/-- Of the cluster in skand the stop is kept, as a palatal. -/
theorem abhyasaOf_is_reduced_skand :
    let skand := Term.dhatu "skand".toList
    isSounding skand.value = true ∧ (abhyasaOf skand).value = "ca".toList
      ∧ ∃ consonant vowel : Sound, (abhyasaOf skand).value = [consonant.toChar, vowel.toChar]
        ∧ vowel ∈ [Sound.a, .i, .u] ∧ consonant.isVowel = false ∧ consonant.isAspirated = false
        ∧ consonant ≠ .h ∧ consonant ∉ Varga.ku.sounds.sounds := by
  intro skand
  have hsounding : isSounding skand.value = true := by decide
  refine ⟨hsounding, by decide, ?_⟩
  obtain ⟨consonant, vowel, hvalue, hvowel, hshort, hconsonant, hreduced⟩ :=
    (abhyasaOf_is_reduced skand).2.2.2 hsounding
  obtain ⟨σ, rfl⟩ := Option.isSome_iff_exists.mp (hconsonant.mpr ⟨'s', by decide, by decide⟩)
  obtain ⟨τ, rfl⟩ := Option.isSome_iff_exists.mp (hvowel.mpr ⟨'a', by decide, by decide⟩)
  exact ⟨σ, τ, hvalue, hshort τ rfl, hreduced σ rfl⟩

end Vyakarana.Reduplication
