import Vyakarana.Proofs.Revaluation

/-!
# What becomes of the sounds of a term

The transforms of a term replace single sounds of its value. The others stay.

* `Term.splitLast_eq_some`, `Term.forall_after_of_splitLast`, `Term.splitLast_concat` — the last
  sound of a class
* `Term.alTasya_cases` — the replacement of the last sound of a class
* `Term.mem_setAntya`, `Term.mem_alTasya` — sounds that stay
-/

namespace Vyakarana

/-- What holds of the letters of all members holds of every letter that the class contains. -/
theorem SoundClass.of_contains (P : Char → Prop) {cls : SoundClass} {c : Char}
    (h : cls.contains c = true) (hall : ∀ σ ∈ cls.sounds, P σ.toChar) : P c := by
  obtain ⟨σ, hσ, hchar⟩ := List.any_eq_true.mp h
  rw [← beq_iff_eq.mp hchar]
  exact hall σ hσ

namespace Term

variable {a b : Term} {p : Char → Bool} {c : Char} {value before after replacement : Text}
  {target result : SoundClass}

/-! ## The last sound of a class -/

/-- The value is cut at a sound of the class. -/
theorem splitLast_eq_some (h : splitLast p value = some (before, c, after)) :
    value = before ++ c :: after ∧ p c = true := by
  induction value generalizing before with
  | nil => simp [splitLast] at h
  | cons d rest ih =>
    rw [splitLast] at h
    split at h
    · next before' found after' hrest =>
      obtain ⟨hbefore, htail⟩ := Prod.mk.inj (Option.some.inj h)
      obtain ⟨rfl, rfl⟩ := Prod.mk.inj htail
      obtain ⟨hsplit, hp⟩ := ih hrest
      rw [← hbefore, List.cons_append, ← hsplit]
      exact ⟨rfl, hp⟩
    · split at h
      · next hp =>
        obtain ⟨rfl, htail⟩ := Prod.mk.inj (Option.some.inj h)
        obtain ⟨rfl, rfl⟩ := Prod.mk.inj htail
        exact ⟨rfl, hp⟩
      · simp at h

/-- There is a last sound of the class if there is any. -/
theorem exists_splitLast (hmem : c ∈ value) (hp : p c = true) :
    ∃ before found after, splitLast p value = some (before, found, after) := by
  induction value with
  | nil => simp at hmem
  | cons d rest ih =>
    rw [splitLast]
    cases hrest : splitLast p rest with
    | some split => exact ⟨d :: split.1, split.2.1, split.2.2, rfl⟩
    | none =>
      rcases List.mem_cons.mp hmem with rfl | hmem
      · exact ⟨[], c, rest, if_pos hp⟩
      · obtain ⟨before, found, after, hsome⟩ := ih hmem
        rw [hrest] at hsome
        simp at hsome

/-- No sound of the class follows. -/
theorem forall_after_of_splitLast (h : splitLast p value = some (before, c, after)) :
    ∀ d ∈ after, p d = false := by
  induction value generalizing before with
  | nil => simp [splitLast] at h
  | cons d rest ih =>
    rw [splitLast] at h
    split at h
    · next before' found' after' hrest =>
      obtain ⟨-, htail⟩ := Prod.mk.inj (Option.some.inj h)
      obtain ⟨rfl, rfl⟩ := Prod.mk.inj htail
      exact ih hrest
    · next hnone =>
      split at h
      · obtain ⟨-, htail⟩ := Prod.mk.inj (Option.some.inj h)
        obtain ⟨-, rfl⟩ := Prod.mk.inj htail
        intro e he
        refine Bool.eq_false_iff.mpr fun hlater => ?_
        obtain ⟨_, _, _, hsome⟩ := exists_splitLast he hlater
        rw [hnone] at hsome
        simp at hsome
      · simp at h

/-- The final sound is the last one of its class. -/
theorem splitLast_concat (hp : p c = true) (before : Text) :
    splitLast p (before ++ [c]) = some (before, c, []) := by
  induction before with
  | nil => simp [splitLast, hp]
  | cons d before ih => rw [List.cons_append, splitLast, ih]

/-! ## Replacement of the last sound of a class -/

/-- The term stays, or one sound of the class is replaced. -/
theorem alTasya_cases (a : Term) (target result : SoundClass) :
    a.alTasya target result = a
      ∨ ∃ before c after σ, a.value = before ++ c :: after ∧ target.contains c = true
        ∧ a.alTasya target result = a.withValue (before ++ Sound.toChar σ :: after) := by
  unfold alTasya
  split
  · exact Or.inl rfl
  · next before c after hsplit =>
    obtain ⟨hvalue, hmem⟩ := splitLast_eq_some hsplit
    split
    · next σ _ => exact Or.inr ⟨before, c, after, σ, hvalue, hmem, rfl⟩
    · exact Or.inl rfl

theorem length_alTasya (a : Term) (target result : SoundClass) :
    (a.alTasya target result).value.length = a.value.length := by
  rcases a.alTasya_cases target result with h | ⟨before, c, after, σ, hvalue, -, h⟩
  · rw [h]
  · rw [h, hvalue]
    simp [withValue]

theorem mem_alTasya (hmem : c ∈ a.value) (hother : target.contains c = false) :
    c ∈ (a.alTasya target result).value := by
  rcases a.alTasya_cases target result with h | ⟨before, d, after, σ, hvalue, hd, h⟩
  · rw [h]
    exact hmem
  · have hne : c ≠ d := by
      rintro rfl
      rw [hother] at hd
      exact Bool.false_ne_true hd
    rw [h]
    rw [hvalue] at hmem
    simp only [List.mem_append, List.mem_cons, hne, false_or] at hmem
    simp only [withValue, List.mem_append, List.mem_cons]
    exact hmem.imp_right Or.inr

/-! ## Replacement of the final sound -/

theorem isEmpty_eq_false_iff : a.isEmpty = false ↔ a.value ≠ [] := by
  simp [isEmpty]

theorem isEmpty_setAntya (ha : a.isEmpty = false) (hreplacement : replacement ≠ []) :
    (a.setAntya replacement).isEmpty = false := by
  rw [isEmpty_eq_false_iff, setAntya]
  rw [isEmpty] at ha
  rw [if_neg (by simp [ha])]
  exact List.append_ne_nil_of_right_ne_nil _ hreplacement

/-- The final sound is the last one that is put in its place. -/
theorem antya?_setAntya (ha : a.antya?.isSome) (before : Text) (c : Char) :
    (a.setAntya (before ++ [c])).antya? = some c := by
  have hne : a.value ≠ [] := by simpa [antya?] using ha
  rw [setAntya, if_neg (by simpa using hne), antya?, withValue, ← List.append_assoc]
  exact List.getLast?_concat

/-- A final sound that takes its own place changes nothing. -/
theorem setAntya_of_antya? (h : a.antya? = some c) : a.setAntya [c] = a := by
  obtain ⟨before, hvalue⟩ := List.getLast?_eq_some_iff.mp h
  rw [setAntya, if_neg (by simp [hvalue]), hvalue, List.dropLast_concat, withValue, ← hvalue]

/-- Every sound but the final one stays. -/
theorem mem_setAntya (hmem : c ∈ a.value) (hlast : a.antya? ≠ some c) :
    c ∈ (a.setAntya replacement).value := by
  have hne : a.value ≠ [] := List.ne_nil_of_mem hmem
  rw [setAntya, if_neg (by simpa using hne)]
  have hsplit := List.dropLast_concat_getLast hne
  rw [← hsplit] at hmem
  rcases List.mem_append.mp hmem with hmem | hmem
  · exact List.mem_append_left _ hmem
  · rw [List.mem_singleton] at hmem
    rw [antya?, List.getLast?_eq_some_getLast hne, hmem] at hlast
    exact absurd rfl hlast

/-! ## Strengthening of equal values -/

theorem value_setAntya_congr (h : a.value = b.value) (replacement : Text) :
    (a.setAntya replacement).value = (b.setAntya replacement).value := by
  rw [setAntya, setAntya, h]
  split
  · exact h
  · rfl

theorem value_setUpadha_congr (h : a.value = b.value) (replacement : Text) :
    (a.setUpadha replacement).value = (b.setUpadha replacement).value := by
  rw [setUpadha, setUpadha, h]
  split
  · rfl
  · exact h

theorem antya?_congr (h : a.value = b.value) : a.antya? = b.antya? := by
  rw [antya?, h, antya?]

theorem upadha?_congr (h : a.value = b.value) : a.upadha? = b.upadha? := by
  rw [upadha?, h, upadha?]

/-- Guṇa looks at the value alone. -/
theorem value_guna_congr (h : a.value = b.value) : a.guna.value = b.guna.value := by
  rw [guna, guna, antya?_congr h, upadha?_congr h]
  cases b.antya? with
  | none => exact h
  | some last =>
    dsimp only
    split
    · exact value_setAntya_congr h _
    · cases b.upadha? with
      | none => exact h
      | some upadha =>
        dsimp only
        split
        · exact value_setUpadha_congr h _
        · exact h

/-- Vṛddhi looks at the value alone. -/
theorem value_vrddhi_congr (h : a.value = b.value) : a.vrddhi.value = b.vrddhi.value := by
  rw [vrddhi, vrddhi, antya?_congr h, upadha?_congr h]
  cases b.antya? with
  | none => exact h
  | some last =>
    dsimp only
    split
    · exact value_setAntya_congr h _
    · split
      · exact value_setUpadha_congr h _
      · exact h

end Term

end Vyakarana
