import Mathlib.Data.List.Basic
import Mathlib.Data.List.Induction
import Vyakarana.Proofs.Values

/-!
# The nearest member of a class

The members of a class are weighed one after the other, with four points for the place of
articulation and one for each of voice, aspiration and manner, and only a better member displaces
the best so far. What comes out is a lexicographic choice: the place first, then the number of other
features, then the order of the class.

* `SoundClass.exists_split_of_closest` — what the weighing leaves
* `SoundClass.IsNearest` — the choice, without weights
* `SoundClass.closest_picks_nearest` — the two agree, and what substitution makes of that
-/

namespace Vyakarana

namespace SoundClass

variable {cls : SoundClass} {sounds : List Sound} {σ ρ τ : Sound}

/-! ## Weighing the members -/

/-- In how many of voice, aspiration and manner the sounds agree. -/
def agreement (σ τ : Sound) : Nat :=
  [τ.isVoiced == σ.isVoiced, τ.isAspirated == σ.isAspirated, τ.manner == σ.manner].count true

theorem agreement_le_three (σ τ : Sound) : agreement σ τ ≤ 3 := List.count_le_length

theorem agreement_self (σ : Sound) : agreement σ σ = 3 := by simp [agreement]

/-- The weight of the place is more than that of the other features together. -/
theorem nearness_eq (σ τ : Sound) :
    nearness σ τ = (if τ.place = σ.place then 4 else 0) + agreement σ τ := by
  have hweight : ∀ b : Bool, b.toNat = [b].count true := by decide
  have hagree : agreement σ τ = (τ.isVoiced == σ.isVoiced).toNat
      + (τ.isAspirated == σ.isAspirated).toNat + (τ.manner == σ.manner).toNat := by
    rw [hweight, hweight, hweight, ← List.count_append, ← List.count_append]
    rfl
  rw [nearness, hagree]
  by_cases hplace : τ.place = σ.place
  · rw [if_pos hplace, beq_iff_eq.mpr hplace, Bool.toNat_true]
    omega
  · rw [if_neg hplace, beq_eq_false_iff_ne.mpr hplace, Bool.toNat_false]
    omega

theorem nearer_ne_none (σ : Sound) (best : Option Sound) (τ : Sound) : nearer σ best τ ≠ none := by
  unfold nearer
  split
  · simp
  · split <;> simp

theorem foldl_nearer_eq_none_iff : sounds.foldl (nearer σ) none = none ↔ sounds = [] := by
  constructor
  · intro h
    rcases List.eq_nil_or_concat sounds with hnil | ⟨front, τ, rfl⟩
    · exact hnil
    · rw [List.concat_eq_append, List.foldl_append, List.foldl_cons, List.foldl_nil] at h
      exact absurd h (nearer_ne_none _ _ _)
  · rintro rfl
    rfl

/-- The best is the first of the members with the greatest weight. -/
theorem exists_split_of_foldl_nearer (h : sounds.foldl (nearer σ) none = some ρ) :
    ∃ before after, sounds = before ++ ρ :: after
      ∧ (∀ τ ∈ before, nearness σ τ < nearness σ ρ)
      ∧ ∀ τ ∈ after, nearness σ τ ≤ nearness σ ρ := by
  induction sounds using List.reverseRecOn generalizing ρ with
  | nil => simp at h
  | append_singleton sounds τ ih =>
    rw [List.foldl_append, List.foldl_cons, List.foldl_nil] at h
    cases hbest : sounds.foldl (nearer σ) none with
    | none =>
      rw [hbest] at h
      obtain rfl := foldl_nearer_eq_none_iff.mp hbest
      obtain rfl := Option.some.inj h
      exact ⟨[], [], rfl, by simp, by simp⟩
    | some best =>
      obtain ⟨before, after, hsounds, hbefore, hafter⟩ := ih hbest
      rw [hbest, nearer] at h
      split at h
      · next hbetter =>
        -- the new member is better than the best so far, and so than all members so far
        obtain rfl := Option.some.inj h
        refine ⟨sounds, [], rfl, fun υ hυ => ?_, by simp⟩
        rw [hsounds, List.mem_append, List.mem_cons] at hυ
        rcases hυ with hυ | rfl | hυ
        · exact Nat.lt_trans (hbefore υ hυ) hbetter
        · exact hbetter
        · exact Nat.lt_of_le_of_lt (hafter υ hυ) hbetter
      · next hworse =>
        obtain rfl := Option.some.inj h
        refine ⟨before, after ++ [τ], by simp [hsounds], hbefore, fun υ hυ => ?_⟩
        rcases List.mem_append.mp hυ with hυ | hυ
        · exact hafter υ hυ
        · rw [List.mem_singleton.mp hυ]
          exact Nat.le_of_not_lt hworse

theorem closest_eq_none_iff : cls.closest σ = none ↔ cls.sounds = [] := foldl_nearer_eq_none_iff

theorem exists_split_of_closest (h : cls.closest σ = some ρ) :
    ∃ before after, cls.sounds = before ++ ρ :: after
      ∧ (∀ τ ∈ before, nearness σ τ < nearness σ ρ)
      ∧ ∀ τ ∈ after, nearness σ τ ≤ nearness σ ρ := exists_split_of_foldl_nearer h

theorem nearness_le_of_closest (h : cls.closest σ = some ρ) (hτ : τ ∈ cls.sounds) :
    nearness σ τ ≤ nearness σ ρ := by
  obtain ⟨before, after, hsounds, hbefore, hafter⟩ := exists_split_of_closest h
  rw [hsounds, List.mem_append, List.mem_cons] at hτ
  rcases hτ with hτ | rfl | hτ
  · exact Nat.le_of_lt (hbefore τ hτ)
  · exact Nat.le_refl _
  · exact hafter τ hτ

/-! ## The choice without weights -/

/-- `ρ` is a member, at the place of `σ` if any member is. Of the members that are at the place of
`σ`, or not, as `ρ` is, none agrees with `σ` in more of the other features, and none that agrees in
as many comes earlier. -/
structure IsNearest (cls : SoundClass) (σ ρ : Sound) : Prop where
  mem : ρ ∈ cls.sounds
  place : (∃ τ ∈ cls.sounds, τ.place = σ.place) → ρ.place = σ.place
  agreement_le : ∀ τ ∈ cls.sounds, (τ.place = σ.place ↔ ρ.place = σ.place) →
    agreement σ τ ≤ agreement σ ρ
  earliest : ∀ τ ∈ cls.sounds, (τ.place = σ.place ↔ ρ.place = σ.place) →
    agreement σ τ = agreement σ ρ → cls.sounds.idxOf ρ ≤ cls.sounds.idxOf τ

theorem nearness_eq_iff (hplace : τ.place = σ.place ↔ ρ.place = σ.place) :
    nearness σ τ = nearness σ ρ ↔ agreement σ τ = agreement σ ρ := by
  simp only [nearness_eq, hplace]
  omega

theorem isNearest_of_closest (h : cls.closest σ = some ρ) : cls.IsNearest σ ρ where
  mem := by
    obtain ⟨before, after, hsounds, -⟩ := exists_split_of_closest h
    simp [hsounds]
  place := by
    rintro ⟨τ, hτ, hplace⟩
    by_contra hother
    have hweights := nearness_le_of_closest h hτ
    rw [nearness_eq, nearness_eq, if_pos hplace, if_neg hother] at hweights
    have hthree := agreement_le_three σ ρ
    omega
  agreement_le := by
    intro τ hτ hplace
    have hweights := nearness_le_of_closest h hτ
    simp only [nearness_eq, hplace] at hweights
    omega
  earliest := by
    intro τ _ hplace hequal
    obtain ⟨before, after, hsounds, hbefore, -⟩ := exists_split_of_closest h
    -- neither `ρ` nor what is as good as `ρ` stands among the members before it
    have hfirst : ∀ υ, nearness σ υ = nearness σ ρ → υ ∉ before := by
      intro υ hυ hmem
      exact Nat.ne_of_lt (hbefore υ hmem) hυ
    rw [hsounds, List.idxOf_append_of_notMem (hfirst ρ rfl),
      List.idxOf_append_of_notMem (hfirst τ ((nearness_eq_iff hplace).mpr hequal)),
      List.idxOf_cons_self]
    omega

/-- There is one nearest member at most. -/
theorem IsNearest.unique (hρ : cls.IsNearest σ ρ) (hτ : cls.IsNearest σ τ) : ρ = τ := by
  have hplace : τ.place = σ.place ↔ ρ.place = σ.place :=
    ⟨fun h => hρ.place ⟨τ, hτ.mem, h⟩, fun h => hτ.place ⟨ρ, hρ.mem, h⟩⟩
  have hequal : agreement σ τ = agreement σ ρ :=
    Nat.le_antisymm (hρ.agreement_le τ hτ.mem hplace) (hτ.agreement_le ρ hρ.mem hplace.symm)
  have hidx : cls.sounds.idxOf ρ = cls.sounds.idxOf τ :=
    Nat.le_antisymm (hρ.earliest τ hτ.mem hplace hequal)
      (hτ.earliest ρ hρ.mem hplace.symm hequal.symm)
  exact (List.idxOf_inj hρ.mem).mp hidx

theorem closest_eq_some_iff : cls.closest σ = some ρ ↔ cls.IsNearest σ ρ := by
  refine ⟨isNearest_of_closest, fun hρ => ?_⟩
  cases hclosest : cls.closest σ with
  | none =>
    have hmem := hρ.mem
    rw [closest_eq_none_iff.mp hclosest] at hmem
    simp at hmem
  | some τ => rw [(isNearest_of_closest hclosest).unique hρ]

theorem features_of_agreement (h : agreement σ τ = 3) :
    τ.isVoiced = σ.isVoiced ∧ τ.isAspirated = σ.isAspirated ∧ τ.manner = σ.manner := by
  have hall := List.count_eq_length.mp h
  simp only [List.forall_mem_cons, eq_comm (a := true), beq_iff_eq] at hall
  exact ⟨hall.1, hall.2.1, hall.2.2.1⟩

/-- What agrees with the nearest member in every feature is no nearer and comes no earlier. -/
theorem IsNearest.self (h : cls.IsNearest σ ρ) : cls.IsNearest ρ ρ where
  mem := h.mem
  place := fun _ => rfl
  agreement_le := by
    intro τ _ _
    rw [agreement_self]
    exact agreement_le_three ρ τ
  earliest := by
    intro τ hτ hplace hequal
    obtain ⟨hvoiced, haspirated, hmanner⟩ :=
      features_of_agreement (hequal.trans (agreement_self ρ))
    refine h.earliest τ hτ ?_ ?_
    · rw [hplace.mpr rfl]
    · rw [agreement, hvoiced, haspirated, hmanner, agreement]

theorem bind_closest (cls : SoundClass) (σ : Sound) :
    (cls.closest σ).bind cls.closest = cls.closest σ := by
  cases h : cls.closest σ with
  | none => rfl
  | some ρ => exact closest_eq_some_iff.mpr (isNearest_of_closest h).self

end SoundClass

/-! ## Substitution by the nearest member -/

namespace Term

variable {t : Term} {target result : SoundClass}

theorem alTasya_of_forall_contains (h : ∀ c ∈ t.value, target.contains c = false) :
    t.alTasya target result = t := by
  rcases t.alTasya_cases target result with hsame | ⟨before, c, after, σ, hvalue, hc, -⟩
  · exact hsame
  · have hnot := h c (by simp [hvalue])
    rw [hc] at hnot
    simp at hnot

theorem alTasya_of_result_eq_nil (h : result.sounds = []) : t.alTasya target result = t := by
  have hnone : ∀ found, (Sound.ofChar? found).bind result.closest = none := by
    intro found
    cases Sound.ofChar? found with
    | none => rfl
    | some σ => exact SoundClass.closest_eq_none_iff.mpr h
  unfold alTasya
  split
  · rfl
  · rw [hnone]

/-- The last sound of the one class gives way to its nearest in the other. -/
theorem exists_alTasya_eq (hmem : ∃ c ∈ t.value, target.contains c = true)
    (hresult : result.sounds ≠ []) :
    ∃ before σ after ρ, t.value = before ++ σ.toChar :: after ∧ σ ∈ target.sounds
      ∧ (∀ c ∈ after, target.contains c = false) ∧ result.closest σ = some ρ
      ∧ t.alTasya target result = t.withValue (before ++ ρ.toChar :: after) := by
  obtain ⟨_, hmem, hc⟩ := hmem
  obtain ⟨before, found, after, hsplit⟩ := exists_splitLast hmem hc
  obtain ⟨hvalue, hfound⟩ := splitLast_eq_some hsplit
  obtain ⟨σ, hσ, hchar⟩ := List.any_eq_true.mp hfound
  obtain rfl := beq_iff_eq.mp hchar
  obtain ⟨ρ, hρ⟩ : ∃ ρ, result.closest σ = some ρ := by
    rw [← Option.ne_none_iff_exists', ne_eq, SoundClass.closest_eq_none_iff]
    exact hresult
  refine ⟨before, σ, after, ρ, hvalue, hσ, forall_after_of_splitLast hsplit, hρ, ?_⟩
  simp only [alTasya, hsplit, Sound.ofChar?_toChar, Option.bind_some, hρ]

end Term

/-- **The nearest member is chosen by place, then by the number of other features, then by the order
of the class.** A class has one for every sound unless it is empty, and that one is nearest to
itself. Substitution puts it in the place of the last sound of the target, and changes nothing else;
without such a sound, or without members to choose from, the term stays. -/
theorem SoundClass.closest_picks_nearest (cls : SoundClass) :
    (∀ σ, cls.closest σ = none ↔ cls.sounds = [])
    ∧ (∀ σ ρ, cls.closest σ = some ρ ↔ cls.IsNearest σ ρ)
    ∧ (∀ σ, (cls.closest σ).bind cls.closest = cls.closest σ)
    ∧ ∀ (t : Term) (target : SoundClass),
      ((∀ c ∈ t.value, target.contains c = false) ∨ cls.sounds = [] → t.alTasya target cls = t)
      ∧ ((∃ c ∈ t.value, target.contains c = true) → cls.sounds ≠ [] →
        ∃ before σ after ρ, t.value = before ++ σ.toChar :: after ∧ σ ∈ target.sounds
          ∧ (∀ c ∈ after, target.contains c = false) ∧ cls.closest σ = some ρ
          ∧ t.alTasya target cls = t.withValue (before ++ ρ.toChar :: after))
      ∧ (t.alTasya target cls).value.length = t.value.length := by
  refine ⟨fun σ => closest_eq_none_iff, fun σ ρ => closest_eq_some_iff, cls.bind_closest, ?_⟩
  intro t target
  refine ⟨?_, Term.exists_alTasya_eq, t.length_alTasya target cls⟩
  rintro (hnone | hempty)
  · exact Term.alTasya_of_forall_contains hnone
  · exact Term.alTasya_of_result_eq_nil hempty

/-- Of the velars `g` is nearest to `j`: all velars are at another place, and `g` is the first that
has voice, no aspiration and the manner of a stop. So `hij` becomes `hig`, and `tan` stays. -/
theorem SoundClass.closest_picks_nearest_ku :
    let ku := Varga.ku.sounds
    let target := SoundClass.ofSounds [.c, .j, .h]
    let hij := Term.plain "hij".toList
    let tan := Term.plain "tan".toList
    ku.IsNearest .j .g ∧ tan.alTasya target ku = tan
      ∧ hij.alTasya target ku = hij.withValue "hig".toList
      ∧ ∃ before σ after ρ, hij.value = before ++ σ.toChar :: after ∧ σ ∈ target.sounds
        ∧ (∀ c ∈ after, target.contains c = false) ∧ ku.closest σ = some ρ
        ∧ hij.alTasya target ku = hij.withValue (before ++ ρ.toChar :: after) := by
  intro ku target hij tan
  obtain ⟨-, hnearest, -, hsubstitution⟩ := closest_picks_nearest ku
  have hall : tan.value.all (!target.contains ·) = true := by decide
  have htan : ∀ c ∈ tan.value, target.contains c = false := by simpa using hall
  exact ⟨(hnearest .j .g).mp (by decide), (hsubstitution tan target).1 (Or.inl htan),
    by decide, (hsubstitution hij target).2.1 ⟨'j', by decide, by decide⟩ (by decide)⟩

end Vyakarana
