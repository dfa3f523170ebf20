import Vyakarana.Proofs.VelarWindows
import Vyakarana.Proofs.VowelRules

/-!
# Verb forms

A stem before its suffix, with an abhyāsa before the stem or not: what a derivation of the verb
works on once reduplication had its turn. The suffix may have any categories besides. Every lookup
finds a fixed place, so that each stage can be written out.

* `VerbForm` — the three terms and what is known of them
* `Strengthening.body_state`, `Strengthening.rtBody_state` — strengthening
* `BeforeVowel.exists_body_state` — the rules before a vowel
* `VowelLoss.body_state_cases` — the loss of vowels
* `Velar.body_state` — the ku series
-/

namespace Vyakarana

/-- A stem before its suffix, after an abhyāsa or not. Before liṭ there is an abhyāsa. -/
structure VerbForm where
  abhyasa : Option Term
  stem : Term
  suffix : Term
  abhyasa_tag : ∀ a, abhyasa = some a → a.hasTag .abhyasa = true
  abhyasa_anga : ∀ a, abhyasa = some a → a.hasTag .anga = false
  stem_anga : stem.hasTag .anga = true
  stem_abhyasa : stem.hasTag .abhyasa = false
  suffix_sounds : suffix.isEmpty = false
  lit : suffix.hasLakshana .liW = true → abhyasa ≠ none

namespace VerbForm

/-- The form as a state. -/
def state (v : VerbForm) (ops : OrderedSet Operation) : State :=
  ⟨v.abhyasa.toList ++ [v.stem, v.suffix], ops⟩

/-- The position of the stem. -/
def place (v : VerbForm) : Nat := v.abhyasa.toList.length

/-- The form with another stem. -/
def withStem (v : VerbForm) (stem : Term) (h : stem.tags = v.stem.tags) : VerbForm :=
  { v with
    stem
    stem_anga := (Term.hasTag_congr h .anga).trans v.stem_anga
    stem_abhyasa := (Term.hasTag_congr h .abhyasa).trans v.stem_abhyasa }

/-- The form with another abhyāsa. -/
def withAbhyasa (v : VerbForm) (abhyasa : Term) (h : abhyasa.hasTag .abhyasa = true)
    (hanga : abhyasa.hasTag .anga = false) : VerbForm :=
  { v with
    abhyasa := some abhyasa
    abhyasa_tag := by
      rintro _ ⟨⟩
      exact h
    abhyasa_anga := by
      rintro _ ⟨⟩
      exact hanga
    lit := fun _ => Option.some_ne_none abhyasa }

variable {v : VerbForm} {ops : OrderedSet Operation} {a b : Term}

/-! ## Lookups -/

theorem find?_anga (v : VerbForm) (ops : OrderedSet Operation) :
    (v.state ops).find? .anga = some (v.stem, v.place) := by
  have hstem := v.stem_anga
  cases ha : v.abhyasa with
  | none => simp [State.find?, state, place, ha, hstem]
  | some a => simp [State.find?, state, place, ha, hstem, v.abhyasa_anga a ha]

theorem find?_abhyasa (ha : v.abhyasa = some a) : (v.state ops).find? .abhyasa = some (a, 0) := by
  simp [State.find?, state, ha, v.abhyasa_tag a ha]

theorem get?_place (v : VerbForm) (ops : OrderedSet Operation) :
    (v.state ops).terms[v.place]? = some v.stem := by
  simp [state, place]

theorem next?_place (v : VerbForm) (ops : OrderedSet Operation) :
    (v.state ops).next? v.place = some (v.suffix, v.place + 1) := by
  cases ha : v.abhyasa <;> simp [State.next?, state, place, ha, v.suffix_sounds]

theorem next?_suffix (v : VerbForm) (ops : OrderedSet Operation) :
    (v.state ops).next? (v.place + 1) = none := by
  cases ha : v.abhyasa <;> simp [State.next?, state, place, ha]

theorem prev?_place (ha : v.abhyasa = some a) :
    (v.state ops).prev? v.place = if a.isEmpty then none else some (a, 0) := by
  cases hempty : a.isEmpty <;> simp [State.prev?, state, place, ha, hempty]

theorem getLast?_terms (v : VerbForm) (ops : OrderedSet Operation) :
    (v.state ops).terms.getLast? = some v.suffix := by
  simp [state]

theorem place_succ_lt_size (v : VerbForm) (ops : OrderedSet Operation) :
    v.place + 1 < (v.state ops).size := by
  simp [state, place, State.size]

theorem replace_place (v : VerbForm) (ops : OrderedSet Operation) (b : Term)
    (h : b.tags = v.stem.tags) :
    (v.state ops).replace v.place b = (v.withStem b h).state ops := by
  simp [State.replace, state, place, withStem]

theorem surface_replace_place (v : VerbForm) (ops : OrderedSet Operation) (b : Term) :
    ((v.state ops).replace v.place b).surface
      = v.abhyasa.toList.flatMap Term.value ++ (b.value ++ v.suffix.value) := by
  simp [State.replace, state, place, State.surface]

theorem replace_abhyasa (ha : v.abhyasa = some a) (h : b.hasTag .abhyasa = true)
    (hanga : b.hasTag .anga = false) :
    (v.state ops).replace 0 b = (v.withAbhyasa b h hanga).state ops := by
  simp [State.replace, state, withAbhyasa, ha]

/-- The window around the stem. -/
theorem at?_place (v : VerbForm) (ops : OrderedSet Operation) :
    Window.at? (v.state ops) v.place
      = some ⟨((v.state ops).prev? v.place).map Prod.fst, v.stem, some v.suffix⟩ := by
  rw [Window.at?, State.get?, get?_place, next?_place]
  rfl

end VerbForm

variable {v : VerbForm} {ops : OrderedSet Operation} {gana : Gana} {a b : Term}

/-! ## Strengthening -/

namespace VerbForm

/-- The form with its stem as strengthening leaves it. -/
def reshaped (gana : Gana) (v : VerbForm) : VerbForm :=
  v.withStem (Strengthening.reshape gana v.stem v.suffix)
    (Strengthening.revalued_reshape gana v.stem v.suffix).tags

/-- The form with its stem as guṇa of stems in ṛ leaves it. -/
def rtReshaped (v : VerbForm) : VerbForm :=
  if v.suffix.hasLakshana .liW && Strengthening.takesRtGuna v.stem then
    v.withStem v.stem.guna (Term.revalued_guna v.stem).tags
  else v

end VerbForm

namespace Strengthening

theorem reshapeAt_place (gana : Gana) (v : VerbForm) (ops : OrderedSet Operation) :
    reshapeAt gana (v.state ops) v.place = (v.reshaped gana).state ops := by
  rw [reshapeAt, change?, State.get?, v.get?_place, v.next?_place]
  dsimp only
  by_cases hsame : reshape gana v.stem v.suffix = v.stem
  · rw [if_pos hsame]
    simp [VerbForm.reshaped, VerbForm.withStem, VerbForm.state, hsame]
  · rw [if_neg hsame]
    exact v.replace_place ops _ _

/-- Nothing comes after the suffix, so it is not reshaped if it is a stem itself. -/
theorem reshapeAt_suffix (gana : Gana) (v : VerbForm) (ops : OrderedSet Operation) :
    reshapeAt gana (v.state ops) (v.place + 1) = v.state ops := by
  rw [reshapeAt, change?, v.next?_suffix]
  cases (v.state ops).get? (v.place + 1) <;> rfl

theorem stems_state (v : VerbForm) (ops : OrderedSet Operation) :
    stems (v.state ops) = [v.place] ∨ stems (v.state ops) = [v.place, v.place + 1] := by
  have hstem := v.stem_anga
  cases hsuffix : v.suffix.hasTag .anga <;> cases ha : v.abhyasa with
  | none => simp [stems, State.findAll, VerbForm.state, VerbForm.place, ha, hstem, hsuffix]
  | some a =>
    simp [stems, State.findAll, VerbForm.state, VerbForm.place, ha, hstem, hsuffix,
      v.abhyasa_anga a ha]

theorem body_state (gana : Gana) (v : VerbForm) (ops : OrderedSet Operation) :
    body gana (v.state ops) = [(v.reshaped gana).state ops] := by
  rcases stems_state v ops with hstems | hstems
  · rw [body, hstems]
    exact congrArg (fun s => [s]) (reshapeAt_place gana v ops)
  · rw [body, hstems]
    show [reshapeAt gana (reshapeAt gana (v.state ops) v.place) (v.place + 1)] = _
    rw [reshapeAt_place]
    exact congrArg (fun s => [s]) (reshapeAt_suffix gana (v.reshaped gana) ops)

theorem rtBody_state (v : VerbForm) (ops : OrderedSet Operation) :
    rtBody (v.state ops) = [v.rtReshaped.state ops] := by
  rw [rtBody, v.find?_anga]
  dsimp only
  rw [v.next?_place, VerbForm.rtReshaped, Option.any_some]
  split
  · rw [v.replace_place]
  · rfl

end Strengthening

/-! ## Rules before a vowel -/

namespace BeforeVowel

open Grammar (aciSet)

theorem applyAt_place (v : VerbForm) (ops : OrderedSet Operation) :
    ∃ b, ∃ h : b.tags = v.stem.tags, Makes v.stem b
      ∧ aciSet.applyAt (v.state ops) v.place = [(v.withStem b h).state ops] := by
  obtain ⟨b, hb, happly⟩ := exists_applyAt_eq (v.get?_place ops)
  have htags := hb.tags (Or.inl v.stem_anga)
  exact ⟨b, htags, hb, happly.trans (congrArg (fun s => [s]) (v.replace_place ops b htags))⟩

theorem applyAt_abhyasa (ha : v.abhyasa = some a) (ops : OrderedSet Operation) :
    ∃ b, ∃ h : b.hasTag .abhyasa = true, ∃ hanga : b.hasTag .anga = false, Makes a b
      ∧ aciSet.applyAt (v.state ops) 0 = [(v.withAbhyasa b h hanga).state ops] := by
  have hget : (v.state ops).terms[0]? = some a := by simp [VerbForm.state, ha]
  obtain ⟨b, hb, happly⟩ := exists_applyAt_eq hget
  have htags := hb.tags (Or.inr (v.abhyasa_tag a ha))
  have habhyasa := (Term.hasTag_congr htags .abhyasa).trans (v.abhyasa_tag a ha)
  have hanga := (Term.hasTag_congr htags .anga).trans (v.abhyasa_anga a ha)
  exact ⟨b, habhyasa, hanga, hb,
    happly.trans (congrArg (fun s => [s]) (VerbForm.replace_abhyasa ha habhyasa hanga))⟩

/-- Nothing comes after the suffix, so it stays if it is an abhyāsa itself. -/
theorem applyAt_suffix (v : VerbForm) (ops : OrderedSet Operation) :
    aciSet.applyAt (v.state ops) (v.place + 1) = [v.state ops] := by
  have hget : (v.state ops).terms[v.place + 1]? = some v.suffix := by
    simp [VerbForm.state, VerbForm.place]
  have hw : Window.at? (v.state ops) (v.place + 1)
      = some ⟨((v.state ops).prev? (v.place + 1)).map Prod.fst, v.suffix, none⟩ := by
    rw [Window.at?, State.get?, hget, v.next?_suffix]
    rfl
  rw [RuleSet.applyAt, hw]
  dsimp only
  rw [apply_of_right_eq_none rfl]
  simp [State.replace, VerbForm.state, VerbForm.place]

/-- The terms that the rules are tried on: the abhyāsa if there is one, else the suffix if that is
an abhyāsa itself, and then the stem. -/
theorem foci_state (v : VerbForm) (ops : OrderedSet Operation) :
    (∃ a, v.abhyasa = some a ∧ foci (v.state ops) v.place = [0, v.place])
      ∨ v.abhyasa = none ∧ (foci (v.state ops) v.place = [v.place]
        ∨ foci (v.state ops) v.place = [v.place + 1, v.place]) := by
  have hstem := v.stem_abhyasa
  cases ha : v.abhyasa with
  | some a =>
    refine Or.inl ⟨a, rfl, ?_⟩
    rw [foci, VerbForm.find?_abhyasa ha]
    rfl
  | none =>
    refine Or.inr ⟨rfl, ?_⟩
    cases hsuffix : v.suffix.hasTag .abhyasa <;>
      simp [foci, State.find?, VerbForm.state, VerbForm.place, ha, hstem, hsuffix]

/-- **What the rules before a vowel make of a verb form**: another one with the same suffix. -/
theorem exists_body_state (v : VerbForm) (ops : OrderedSet Operation) :
    ∃ w : VerbForm, body aciSet (v.state ops) = [w.state ops] ∧ w.suffix = v.suffix
      ∧ Makes v.stem w.stem ∧ Option.Rel Makes v.abhyasa w.abhyasa := by
  have hsame : Option.Rel Makes v.abhyasa v.abhyasa := by
    cases v.abhyasa with
    | none => exact Option.Rel.none
    | some a => exact Option.Rel.some (Makes.refl a)
  rw [body, v.find?_anga]
  dsimp only
  split
  · exact ⟨v, rfl, rfl, Makes.refl _, hsame⟩
  · rcases foci_state v ops with ⟨a, ha, hfoci⟩ | ⟨ha, hfoci | hfoci⟩
    · obtain ⟨b, habhyasa, hanga, hb, hfirst⟩ := applyAt_abhyasa ha ops
      obtain ⟨c, htags, hc, hsecond⟩ := applyAt_place (v.withAbhyasa b habhyasa hanga) ops
      have hplace : v.place = (v.withAbhyasa b habhyasa hanga).place := by
        simp [VerbForm.place, VerbForm.withAbhyasa, ha]
      refine ⟨(v.withAbhyasa b habhyasa hanga).withStem c htags, ?_, rfl, hc,
        ha ▸ Option.Rel.some hb⟩
      rw [hfoci, RuleSet.applyEach, List.flatMap_singleton, hfirst, RuleSet.applyEach,
        List.flatMap_singleton, hplace, hsecond]
      rfl
    · obtain ⟨c, htags, hc, hstem⟩ := applyAt_place v ops
      refine ⟨v.withStem c htags, ?_, rfl, hc, hsame⟩
      rw [hfoci, RuleSet.applyEach, List.flatMap_singleton, hstem]
      rfl
    · obtain ⟨c, htags, hc, hstem⟩ := applyAt_place v ops
      refine ⟨v.withStem c htags, ?_, rfl, hc, hsame⟩
      rw [hfoci, RuleSet.applyEach, List.flatMap_singleton, applyAt_suffix, RuleSet.applyEach,
        List.flatMap_singleton, hstem]
      rfl

end BeforeVowel

/-! ## Loss of vowels -/

namespace VerbForm

/-- The form with `e` in its stem and without the sounds of its abhyāsa. -/
def eSubstituted (v : VerbForm) (a : Term) (ha : v.abhyasa = some a) : VerbForm :=
  (v.withAbhyasa a.lopa (v.abhyasa_tag a ha) (v.abhyasa_anga a ha)).withStem
    (v.stem.alTasya (.ofSounds [.a, .A]) (.ofSounds [.e])) (Term.revalued_alTasya _ _ _).tags

end VerbForm

namespace LitE

theorem status_state (gana : Gana) (ha : v.abhyasa = some a) (ops : OrderedSet Operation) :
    status gana (v.state ops)
      = if !v.suffix.hasLakshana .liW then some .inapplicable
        else if admitsE v.suffix then some (verdict gana a v.stem) else none := by
  rw [status, VerbForm.find?_abhyasa ha, v.find?_anga]
  dsimp only
  rw [v.next?_place]

/-- Without an abhyāsa before the stem the group gives no other state. -/
theorem successors_state_of_none (gana : Gana) (ha : v.abhyasa = none)
    (ops : OrderedSet Operation) :
    successors gana (v.state ops) = [] ∨ successors gana (v.state ops) = [v.state ops] := by
  have hlit : v.suffix.hasLakshana .liW = false := by
    cases hlit : v.suffix.hasLakshana .liW with
    | false => rfl
    | true => exact absurd ha (v.lit hlit)
  rw [successors, status, v.find?_anga]
  cases (v.state ops).find? .abhyasa with
  | none => exact Or.inl rfl
  | some placed =>
    dsimp only
    rw [v.next?_place]
    dsimp only
    rw [hlit]
    exact Or.inr rfl

theorem substituted_state (ha : v.abhyasa = some a) (ops : OrderedSet Operation) :
    substituted (v.state ops) = some ((v.eSubstituted a ha).state ops) := by
  have hplace : v.place
      = (v.withAbhyasa a.lopa (v.abhyasa_tag a ha) (v.abhyasa_anga a ha)).place := by
    simp [VerbForm.place, VerbForm.withAbhyasa, ha]
  rw [substituted, VerbForm.find?_abhyasa ha, v.find?_anga]
  dsimp only
  rw [VerbForm.replace_abhyasa (b := a.lopa) ha (v.abhyasa_tag a ha) (v.abhyasa_anga a ha), hplace,
    VerbForm.replace_place]
  rfl

/-- The group gives another state in liṭ only, where its verdict is not against it. -/
theorem successors_state (gana : Gana) (v : VerbForm) (ops : OrderedSet Operation) :
    successors gana (v.state ops) = [] ∨ successors gana (v.state ops) = [v.state ops]
      ∨ ∃ a, ∃ ha : v.abhyasa = some a, v.suffix.hasLakshana .liW = true
        ∧ verdict gana a v.stem ≠ .inapplicable
        ∧ (successors gana (v.state ops) = [(v.eSubstituted a ha).state ops]
          ∨ successors gana (v.state ops) = [(v.eSubstituted a ha).state ops, v.state ops]) := by
  rcases Option.eq_none_or_eq_some v.abhyasa with ha | ⟨a, ha⟩
  · rcases successors_state_of_none gana ha ops with h | h
    · exact Or.inl h
    · exact Or.inr (Or.inl h)
  · rw [successors, status_state gana ha, substituted_state ha]
    cases hlit : v.suffix.hasLakshana .liW with
    | false => exact Or.inr (Or.inl rfl)
    | true =>
      cases hadmits : admitsE v.suffix with
      | false => exact Or.inl rfl
      | true =>
        cases hverdict : verdict gana a v.stem with
        | inapplicable => exact Or.inr (Or.inl rfl)
        | mandatory => exact Or.inr (Or.inr ⟨a, ha, rfl, by simp [hverdict], Or.inl rfl⟩)
        | optional => exact Or.inr (Or.inr ⟨a, ha, rfl, by simp [hverdict], Or.inr rfl⟩)

end LitE

namespace VowelLoss

/-- **What the loss of vowels makes of a verb form.** The stem changes and nothing else, or the
e-substitution takes place, alone or as the first of two choices. -/
theorem body_state_cases (gana : Gana) (v : VerbForm) (ops : OrderedSet Operation) :
    (∃ b, ∃ h : b.tags = v.stem.tags, body gana (v.state ops) = [(v.withStem b h).state ops])
      ∨ ∃ a, ∃ ha : v.abhyasa = some a, v.suffix.hasLakshana .liW = true
        ∧ LitE.verdict gana a v.stem ≠ .inapplicable
        ∧ (body gana (v.state ops) = [(v.eSubstituted a ha).state ops]
          ∨ body gana (v.state ops) = [(v.eSubstituted a ha).state ops, v.state ops]) := by
  rw [body, v.find?_anga]
  dsimp only
  rw [v.getLast?_terms]
  dsimp only
  rw [if_pos (v.place_succ_lt_size ops), lossIn]
  split
  · rw [v.replace_place ops _ (Term.revalued_setAntya v.stem []).tags]
    exact Or.inl ⟨_, (Term.revalued_setAntya v.stem []).tags, rfl⟩
  · split
    · rw [v.replace_place ops _ (Term.revalued_setUpadha v.stem []).tags]
      exact Or.inl ⟨_, (Term.revalued_setUpadha v.stem []).tags, rfl⟩
    · rcases LitE.successors_state gana v ops with h | h | ⟨a, ha, hlit, hverdict, h | h⟩
      · rw [h]
        exact Or.inl ⟨v.stem, rfl, rfl⟩
      · rw [h]
        exact Or.inl ⟨v.stem, rfl, rfl⟩
      · rw [h]
        exact Or.inr ⟨a, ha, hlit, hverdict, Or.inl rfl⟩
      · rw [h]
        exact Or.inr ⟨a, ha, hlit, hverdict, Or.inr rfl⟩

end VowelLoss

/-! ## The ku series -/

namespace Velar

open Grammar (kuSet)

theorem body_state (v : VerbForm) (ops : OrderedSet Operation) :
    body kuSet (v.state ops)
      = (kuSet.apply ⟨((v.state ops).prev? v.place).map Prod.fst, v.stem, some v.suffix⟩).map
          fun w => (v.state ops).replace v.place w.cur := by
  rw [body, v.find?_anga]
  dsimp only
  rw [RuleSet.applyAt, v.at?_place]

/-- An abhyāsa that has lost its sounds is not seen. -/
theorem body_state_of_silent (ha : v.abhyasa = some a) (hempty : a.isEmpty = true)
    (ops : OrderedSet Operation) : body kuSet (v.state ops) = [v.state ops] := by
  have hunseen : ¬Window.After ⟨none, v.stem, some v.suffix⟩ .abhyasa := by
    rintro ⟨_, ⟨⟩, -⟩
  rw [body_state, VerbForm.prev?_place ha, hempty, if_pos rfl, Option.map_none,
    apply_of_not_after hunseen, List.map_singleton, v.replace_place ops v.stem rfl]
  rfl

/-- **What the ku series makes of a verb form**: one or two, with other stems that are as long and
have different values. -/
theorem exists_body_state (v : VerbForm) (ops : OrderedSet Operation) :
    ∃ stems : List Term, body kuSet (v.state ops) = stems.map ((v.state ops).replace v.place)
      ∧ stems.length ≤ 2 ∧ (stems.map Term.value).Nodup
      ∧ ∀ b ∈ stems, b.tags = v.stem.tags ∧ b.value.length = v.stem.value.length := by
  refine ⟨(kuSet.apply ⟨((v.state ops).prev? v.place).map Prod.fst, v.stem, some v.suffix⟩).map
    Window.cur, ?_, ?_, ?_, ?_⟩
  · rw [body_state, List.map_map]
    rfl
  · rw [List.length_map]
    exact kuSet.length_apply_le_two _
  · rw [List.map_map]
    exact kuSet.nodup_values_apply _
  · intro b hb
    obtain ⟨w, hw, rfl⟩ := List.mem_map.mp hb
    have hevolves := evolves_of_mem_apply (P := True) (n := 5) rfl hw trivial (Or.inl v.stem_anga)
    exact ⟨hevolves.tags, length_value_of_mem_apply hw⟩

end Velar

end Vyakarana
