import Mathlib.Data.List.Basic
import Vyakarana.Proofs.Values

/-!
# Augments and substitutes

An upadeśa that is put into a term is placed by its markers. A kit, ṭit or mit one is an augment: it
goes between two parts of the value, which loses nothing, and the term records it. Any other is a
substitute: it takes the place of the final sound or of the whole value, and is not recorded.
Markers combine freely, so which of them comes first is part of the rule.

* `Upadesha.Cuts` — where an augment goes, and `Upadesha.Cuts.unique`, that there is one such place
* `Term.tasya_eq_withPart` — what an augment makes of a term
* `Term.tasya_eq_withValue`, `Term.tasya_eq_setAntya` — what a substitute makes of it
* `Term.tasya_places_by_markers` — all of these together
-/

namespace Vyakarana

/-! ## After the last vowel -/

/-- The first text ends in the last vowel of the two together. If they have none, the second is
empty. -/
structure MeetAfterLastVowel (before after : Text) : Prop where
  rest : ∀ c ∈ after, isVowelChar c = false
  ends : (∃ c ∈ before, isVowelChar c = true) → before.getLast?.any isVowelChar = true
  without : (∀ c ∈ before, isVowelChar c = false) → after = []

namespace MeetAfterLastVowel

variable {before after before' after' middle : Text}

theorem eq_nil_of_longer (h : MeetAfterLastVowel before (middle ++ after))
    (hlonger : MeetAfterLastVowel (before ++ middle) after) : middle = [] := by
  by_contra hne
  by_cases hvowel : ∃ c ∈ before, isVowelChar c = true
  · -- the longer text would have to end in a vowel of `middle`
    obtain ⟨c, hc, hcvowel⟩ := hvowel
    have hends := hlonger.ends ⟨c, List.mem_append_left _ hc, hcvowel⟩
    rw [List.getLast?_append_of_ne_nil _ hne, List.getLast?_eq_some_getLast hne, Option.any_some,
      h.rest _ (List.mem_append_left _ (List.getLast_mem hne))] at hends
    exact Bool.false_ne_true hends
  · have hnone : ∀ c ∈ before, isVowelChar c = false := by simpa using hvowel
    exact hne (List.append_eq_nil_iff.mp (h.without hnone)).1

theorem unique (h : MeetAfterLastVowel before after) (h' : MeetAfterLastVowel before' after')
    (hsame : before ++ after = before' ++ after') : before = before' ∧ after = after' := by
  rcases List.append_eq_append_iff.mp hsame with ⟨middle, rfl, rfl⟩ | ⟨middle, rfl, rfl⟩
  · obtain rfl := h.eq_nil_of_longer h'
    simp
  · obtain rfl := h'.eq_nil_of_longer h
    simp

end MeetAfterLastVowel

/-- An augment after the last vowel comes between two parts of the value. -/
theorem Term.exists_insertAfterLastVowel (value augment : Text) :
    ∃ before after, value = before ++ after ∧ MeetAfterLastVowel before after
      ∧ insertAfterLastVowel value augment = before ++ augment ++ after := by
  unfold insertAfterLastVowel
  split
  · next before vowel after hsplit =>
    obtain ⟨hvalue, hvowel⟩ := splitLast_eq_some hsplit
    refine ⟨before ++ [vowel], after, by simp [hvalue], ⟨?_, ?_, ?_⟩, by simp⟩
    · exact forall_after_of_splitLast hsplit
    · intro _
      rw [List.getLast?_concat]
      exact hvowel
    · intro hnone
      have hnot := hnone vowel (List.mem_append_right _ List.mem_cons_self)
      rw [hvowel] at hnot
      simp at hnot
  · next hsplit =>
    have hnone : ∀ c ∈ value, isVowelChar c = false := by
      intro c hc
      refine Bool.eq_false_iff.mpr fun hvowel => ?_
      obtain ⟨_, _, _, hsome⟩ := exists_splitLast hc hvowel
      rw [hsplit] at hsome
      simp at hsome
    refine ⟨value, [], by simp, ⟨by simp, ?_, fun _ => rfl⟩, by simp⟩
    rintro ⟨c, hc, hvowel⟩
    rw [hnone c hc] at hvowel
    exact absurd hvowel Bool.false_ne_true

/-! ## Places -/

namespace Upadesha

variable {u : Upadesha} {value before after before' after' : Text}

/-- A kit, ṭit or mit upadeśa is an augment. -/
def IsAugment (u : Upadesha) : Prop :=
  .kit ∈ u.markers ∨ .wit ∈ u.markers ∨ .mit ∈ u.markers

theorem not_isAugment_iff :
    ¬u.IsAugment ↔ .kit ∉ u.markers ∧ .wit ∉ u.markers ∧ .mit ∉ u.markers := by
  rw [IsAugment, not_or, not_or]

/-- A substitute takes the place of the whole value if it is śit or has several sounds, unless it is
ṅit. -/
def ReplacesAll (u : Upadesha) : Prop :=
  .Nit ∉ u.markers ∧ (.Sit ∈ u.markers ∨ 1 < u.value.length)

/-- The augment goes between the two parts of a value: after the whole if it is kit, else before the
whole if it is ṭit, else after the last vowel. -/
structure Cuts (u : Upadesha) (before after : Text) : Prop where
  kit : .kit ∈ u.markers → after = []
  wit : .kit ∉ u.markers → .wit ∈ u.markers → before = []
  mit : .kit ∉ u.markers → .wit ∉ u.markers → MeetAfterLastVowel before after

/-- An augment goes to one place of a value. -/
theorem Cuts.unique (h : u.Cuts before after) (h' : u.Cuts before' after')
    (hsame : before ++ after = before' ++ after') : before = before' ∧ after = after' := by
  by_cases hkit : .kit ∈ u.markers
  · rw [h.kit hkit, h'.kit hkit, List.append_nil, List.append_nil] at hsame
    exact ⟨hsame, (h.kit hkit).trans (h'.kit hkit).symm⟩
  · by_cases hwit : .wit ∈ u.markers
    · rw [h.wit hkit hwit, h'.wit hkit hwit, List.nil_append, List.nil_append] at hsame
      exact ⟨(h.wit hkit hwit).trans (h'.wit hkit hwit).symm, hsame⟩
    · exact (h.mit hkit hwit).unique (h'.mit hkit hwit) hsame

end Upadesha

/-! ## Substitution -/

namespace Term

variable {t : Term} {u : Upadesha}

/-- An augment comes between two parts of the value, and is recorded. -/
theorem tasya_eq_withPart (t : Term) (h : u.IsAugment) :
    ∃ before after, t.value = before ++ after ∧ u.Cuts before after
      ∧ t.tasya u = t.withPart (before ++ u.value ++ after) u := by
  by_cases hkit : .kit ∈ u.markers
  · refine ⟨t.value, [], by simp, ⟨fun _ => rfl, ?_, ?_⟩, by simp [tasya_of_kit t hkit]⟩
    · exact fun hnot => absurd hkit hnot
    · exact fun hnot => absurd hkit hnot
  · by_cases hwit : .wit ∈ u.markers
    · refine ⟨[], t.value, by simp, ⟨?_, fun _ _ => rfl, ?_⟩, ?_⟩
      · exact fun hyes => absurd hyes hkit
      · exact fun _ hnot => absurd hwit hnot
      · rw [tasya, if_neg hkit, if_pos hwit, List.nil_append]
    · have hmit : .mit ∈ u.markers := (h.resolve_left hkit).resolve_left hwit
      obtain ⟨before, after, hvalue, hmeet, hinsert⟩ :=
        exists_insertAfterLastVowel t.value u.value
      refine ⟨before, after, hvalue, ⟨?_, ?_, fun _ _ => hmeet⟩, ?_⟩
      · exact fun hyes => absurd hyes hkit
      · exact fun _ hyes => absurd hyes hwit
      · rw [tasya, if_neg hkit, if_neg hwit, if_pos hmit, hinsert]

/-- A substitute leaves everything about the term but its value. -/
theorem revalued_tasya_of_substitute (t : Term) (h : ¬u.IsAugment) : Revalued t (t.tasya u) := by
  obtain ⟨hkit, hwit, hmit⟩ := Upadesha.not_isAugment_iff.mp h
  exact t.revalued_tasya hkit hwit hmit

theorem tasya_of_substitute (t : Term) (h : ¬u.IsAugment) :
    t.tasya u = if .Nit ∈ u.markers then t.setAntya u.value
      else if .Sit ∈ u.markers ∨ 1 < u.value.length then t.withValue u.value
      else t.setAntya u.value := by
  obtain ⟨hkit, hwit, hmit⟩ := Upadesha.not_isAugment_iff.mp h
  rw [tasya, if_neg hkit, if_neg hwit, if_neg hmit]

/-- A substitute of the whole is the new value. -/
theorem tasya_eq_withValue (t : Term) (h : ¬u.IsAugment) (hall : u.ReplacesAll) :
    t.tasya u = t.withValue u.value := by
  rw [tasya_of_substitute t h, if_neg hall.1, if_pos hall.2]

/-- Any other substitute takes the place of the final sound. -/
theorem tasya_eq_setAntya (t : Term) (h : ¬u.IsAugment) (hfinal : ¬u.ReplacesAll) :
    t.tasya u = t.setAntya u.value := by
  rw [tasya_of_substitute t h]
  by_cases hNit : .Nit ∈ u.markers
  · rw [if_pos hNit]
  · rw [if_neg hNit, if_neg fun hwhole => hfinal ⟨hNit, hwhole⟩]

theorem value_setAntya_of_nil (h : t.value = []) (replacement : Text) :
    (t.setAntya replacement).value = [] := by
  rw [setAntya, if_pos (List.isEmpty_iff.mpr h), h]

theorem value_setAntya_concat {before : Text} {final : Char} (h : t.value = before ++ [final])
    (replacement : Text) : (t.setAntya replacement).value = before ++ replacement := by
  rw [setAntya, h, if_neg (by simp), List.dropLast_concat]
  rfl

/-- **An upadeśa is placed by its markers**, and only the value and the parts of the term change. An
augment goes to the one place that its markers name, with all sounds of the value kept around it,
and is recorded after the other parts. A substitute is the new value or takes the place of its final
sound, if there is one, and is not recorded. -/
theorem tasya_places_by_markers (t : Term) (u : Upadesha) :
    t.tasya u = { t with value := (t.tasya u).value, parts := (t.tasya u).parts }
    ∧ (u.IsAugment → (t.tasya u).parts = t.parts ++ [u]
      ∧ (∃ before after, t.value = before ++ after ∧ u.Cuts before after)
      ∧ ∀ before after, t.value = before ++ after → u.Cuts before after →
        (t.tasya u).value = before ++ u.value ++ after)
    ∧ (¬u.IsAugment → (t.tasya u).parts = t.parts
      ∧ (u.ReplacesAll → (t.tasya u).value = u.value)
      ∧ (¬u.ReplacesAll → (t.value = [] → (t.tasya u).value = [])
        ∧ ∀ before final, t.value = before ++ [final] →
          (t.tasya u).value = before ++ u.value)) := by
  refine ⟨?_, fun haugment => ?_, fun hsubstitute => ?_⟩
  · by_cases haugment : u.IsAugment
    · obtain ⟨_, _, -, -, htasya⟩ := t.tasya_eq_withPart haugment
      rw [htasya]
      rfl
    · rw [t.revalued_tasya_of_substitute haugment]
      rfl
  · obtain ⟨before, after, hvalue, hcuts, htasya⟩ := t.tasya_eq_withPart haugment
    rw [htasya]
    refine ⟨rfl, ⟨before, after, hvalue, hcuts⟩, fun before' after' hvalue' hcuts' => ?_⟩
    obtain ⟨rfl, rfl⟩ := hcuts.unique hcuts' (hvalue.symm.trans hvalue')
    rfl
  · refine ⟨?_, fun hall => ?_, fun hfinal => ⟨fun hnil => ?_, fun before final hvalue => ?_⟩⟩
    · rw [t.revalued_tasya_of_substitute hsubstitute]
      rfl
    · rw [t.tasya_eq_withValue hsubstitute hall]
      rfl
    · rw [t.tasya_eq_setAntya hsubstitute hfinal, value_setAntya_of_nil hnil]
    · rw [t.tasya_eq_setAntya hsubstitute hfinal, value_setAntya_concat hvalue]

/-- The augment Snam is mit and śit. It goes after the vowel of Bid and makes no substitute of
itself; the substitute iya~N has two sounds but is ṅit, so it takes the place of the final of SrI;
and an empty value has no final that it could take the place of. -/
theorem tasya_places_by_markers_snam :
    let snam := Upadesha.parse "Snam".toList .pratyaya
    let iyan := Upadesha.adesha "iya~N".toList
    snam.IsAugment ∧ .Sit ∈ snam.markers ∧ ¬iyan.IsAugment ∧ ¬iyan.ReplacesAll
      ∧ ((plain "Bid".toList).tasya snam).parts = [snam]
      ∧ ((plain "Bid".toList).tasya snam).value = "Bi".toList ++ snam.value ++ "d".toList
      ∧ ((plain "SrI".toList).tasya iyan).value = "Sr".toList ++ iyan.value
      ∧ ((plain []).tasya iyan).value = [] := by
  intro snam iyan
  have haugment : snam.IsAugment := Or.inr (Or.inr (by decide))
  have hsubstitute : ¬iyan.IsAugment := Upadesha.not_isAugment_iff.mpr (by decide)
  have hfinal : ¬iyan.ReplacesAll := fun hall => hall.1 (by decide)
  have hcuts : snam.Cuts "Bi".toList "d".toList := by
    refine ⟨fun hkit => absurd hkit (by decide), fun _ hwit => absurd hwit (by decide), ?_⟩
    have hvowel : isVowelChar 'i' = true := by decide
    refine fun _ _ => ⟨List.forall_mem_singleton.mpr (by decide), fun _ => hvowel, fun hnone => ?_⟩
    rw [hnone 'i' (by decide)] at hvowel
    simp at hvowel
  obtain ⟨-, hplaced, -⟩ := tasya_places_by_markers (plain "Bid".toList) snam
  obtain ⟨-, -, hreplaced⟩ := tasya_places_by_markers (plain "SrI".toList) iyan
  obtain ⟨-, -, hempty⟩ := tasya_places_by_markers (plain []) iyan
  obtain ⟨hparts, -, hvalue⟩ := hplaced haugment
  exact ⟨haugment, by decide, hsubstitute, hfinal, hparts, hvalue _ _ rfl hcuts,
    ((hreplaced hsubstitute).2.2 hfinal).2 _ 'I' rfl, ((hempty hsubstitute).2.2 hfinal).1 rfl⟩

end Term

end Vyakarana
