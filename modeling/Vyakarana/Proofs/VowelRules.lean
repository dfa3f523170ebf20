import Vyakarana.Proofs.Priority
import Vyakarana.Proofs.Values

/-!
# What the rules before a vowel make of a term

The rules before a vowel never fork, so they make one term of another. All that they do is to put
iyaṅ or uvaṅ, `y` or another semivowel in the place of a sound of the i or the u kind, or to put vuk
after the last sound. A term with sounds keeps some, and all sounds of other kinds stay.

* `BeforeVowel.Rewritten` — what the rules make of a window, by the rule that decides
* `BeforeVowel.Makes` — in some window the rules turn one term into another
* `BeforeVowel.Makes.cases` — what the other one can be
* `BeforeVowel.exists_applyAt_eq` — the rules on a state
-/

namespace Vyakarana.BeforeVowel

open Grammar (aciSet)

variable {a b : Term} {c : Char} {r : WindowRule} {w : Window}

/-! ## The single rules -/

theorem mandatory (hr : r ∈ rules) : r.Mandatory := decide_ne_optional hr

theorem tasya_of_Nit (a : Term) {u : Upadesha}
    (h : Marker.kit ∉ u.markers ∧ Marker.wit ∉ u.markers ∧ Marker.mit ∉ u.markers
      ∧ Marker.Nit ∈ u.markers) : a.tasya u = a.setAntya u.value := by
  obtain ⟨hkit, hwit, hmit, hNit⟩ := h
  rw [Term.tasya, if_neg hkit, if_neg hwit, if_neg hmit, if_pos hNit]

/-- Iyaṅ and uvaṅ take the place of the final sound. -/
theorem apply_iyanOrUvan (a : Term) (right : Option Term) :
    (iyanOrUvan a).apply a right = a.setAntya ['i', 'y']
      ∨ (iyanOrUvan a).apply a right = a.setAntya ['u', 'v'] := by
  unfold iyanOrUvan
  split
  · exact Or.inl (tasya_of_Nit a (by decide))
  · exact Or.inr (tasya_of_Nit a (by decide))

/-- 6.4.77 and 6.4.78 put iyaṅ or uvaṅ in the place of a final of the i or the u kind. -/
theorem iyanOrUvan_of_changes (hr : r = iyanUvan ∨ r = abhyasaIyanUvan) (h : r.Changes w) :
    w.cur.endsIn iOrU = true
      ∧ (r.apply w = [w.withCur (w.cur.setAntya ['i', 'y'])]
        ∨ r.apply w = [w.withCur (w.cur.setAntya ['u', 'v'])]) := by
  have hmem : r ∈ rules := by rcases hr with rfl | rfl <;> simp [rules]
  have happlies := h.1
  obtain ⟨sub, hsub, happly⟩ := h.exists_substitute (mandatory hmem)
  have hrule : w.cur.endsIn iOrU = true ∧ sub = iyanOrUvan w.cur := by
    rcases hr with rfl | rfl
    · simp only [WindowRule.appliesTo, iyanUvan, WindowRule.holds, Option.all_some, Context.and,
        Context.endsIn, Option.any_some, Bool.and_eq_true] at happlies
      exact ⟨happlies.1.2.2, (Decision.substitute.inj hsub).symm⟩
    · simp only [WindowRule.appliesTo, abhyasaIyanUvan, WindowRule.holds, Option.all_some,
        Context.and, Context.endsIn, Option.any_some, Bool.and_eq_true] at happlies
      simp only [abhyasaIyanUvan] at hsub
      split at hsub
      · simp at hsub
      · exact ⟨happlies.1.2.2, (Decision.substitute.inj hsub).symm⟩
  obtain ⟨hends, rfl⟩ := hrule
  refine ⟨hends, ?_⟩
  rcases apply_iyanOrUvan w.cur w.right with hterm | hterm
  · rw [happly, hterm]
    exact Or.inl rfl
  · rw [happly, hterm]
    exact Or.inr rfl

/-- 6.4.81 asks for the root iṇ as it is taught, and for a vowel after it. -/
theorem appliesTo_inoYan_iff : inoYan.appliesTo w = true
    ↔ w.cur.hasTag .dhatu = true ∧ w.cur.clean = ['i'] ∧ w.cur.hasMarker .Rit = true
      ∧ vowelFollows w.right = true := by
  simp [inoYan, WindowRule.appliesTo, WindowRule.holds, Context.and, Context.hasTag,
    Context.cleanIn, Context.anyMarker, Term.anyMarker, and_assoc]

/-- It puts `y` in the place of the final, whatever that is. -/
theorem apply_inoYan (h : inoYan.appliesTo w = true) :
    inoYan.apply w = [w.withCur (w.cur.setAntya ['y'])] := if_pos h

/-- 6.4.82 puts a semivowel in the place of a final of the i kind. -/
theorem yan_of_changes (h : anekacYan.Changes w) : w.cur.endsIn anyI = true
    ∧ anekacYan.apply w = [w.withCur (w.cur.alTasya anyI (Pratyahara.sounds .yaR))] := by
  have happlies := h.1
  obtain ⟨sub, hsub, happly⟩ := h.exists_substitute (mandatory (by simp [rules]))
  simp only [anekacYan] at hsub
  split at hsub
  · obtain rfl := Decision.substitute.inj hsub
    simp only [WindowRule.appliesTo, anekacYan, WindowRule.holds, Option.all_some, Context.and,
      Context.endsIn, Option.any_some, Bool.and_eq_true] at happlies
    exact ⟨happlies.1.2.2, happly⟩
  · simp at hsub

/-- 6.4.88 puts vuk after the root bhū as long as it is unchanged. -/
theorem vuk_of_changes (h : bhuvoVuk.Changes w) :
    w.cur.clean = ['B', 'U'] ∧ w.cur.value = ['B', 'U']
      ∧ bhuvoVuk.apply w = [w.withCur (w.cur.withPart (w.cur.value ++ ['v']) (.agama vuk))] := by
  have happlies := h.1
  obtain ⟨sub, hsub, happly⟩ := h.exists_substitute (mandatory (by simp [rules]))
  simp only [bhuvoVuk] at hsub
  split at hsub
  · simp at hsub
  · next hvalue =>
    obtain rfl := Decision.substitute.inj hsub
    simp only [WindowRule.appliesTo, bhuvoVuk, WindowRule.holds, Option.all_some, Context.and,
      Context.cleanIn, Option.any_some, Bool.and_eq_true, List.contains_iff_mem,
      List.mem_singleton] at happlies
    simp only [Bool.or_eq_true, bne_iff_ne, not_or, not_not] at hvalue
    have hvuk := Term.tasya_of_kit w.cur (u := .agama vuk) (by decide)
    exact ⟨happlies.1.2.2, hvalue.1, happly.trans (congrArg (fun b => [w.withCur b]) hvuk)⟩

/-! ## The rules in their order -/

/-- The rules are tried from the last one on. -/
theorem apply_eq (w : Window) : aciSet.apply w
    = if bhuvoVuk.Changes w then bhuvoVuk.apply w
      else if anekacYan.Changes w then anekacYan.apply w
      else if inoYan.Changes w then inoYan.apply w
      else if abhyasaIyanUvan.Changes w then abhyasaIyanUvan.apply w
      else if iyanUvan.Changes w then iyanUvan.apply w
      else [w] := by
  rw [aciSet, RuleSet.apply_number_of_mandatory fun _ => mandatory]
  show RuleSet.apply ⟨[] ++ [iyanUvan] ++ [abhyasaIyanUvan] ++ [inoYan] ++ [anekacYan]
    ++ [bhuvoVuk], 0⟩ w = _
  simp only [RuleSet.apply_concat]
  rfl

/-- What the rules turn the term in the middle of a window into, by the rule that decides. A final
of the i or the u kind gives way to iyaṅ or uvaṅ only if 6.4.81 leaves it. -/
inductive Rewritten (w : Window) : Term → Prop where
  | same (hino : ¬inoYan.Changes w) : Rewritten w w.cur
  | iyan (hends : w.cur.endsIn iOrU = true) (hino : ¬inoYan.Changes w) :
    Rewritten w (w.cur.setAntya ['i', 'y'])
  | uvan (hends : w.cur.endsIn iOrU = true) (hino : ¬inoYan.Changes w) :
    Rewritten w (w.cur.setAntya ['u', 'v'])
  | ino (happlies : inoYan.appliesTo w = true) : Rewritten w (w.cur.setAntya ['y'])
  | yan (hends : w.cur.endsIn anyI = true) :
    Rewritten w (w.cur.alTasya anyI (Pratyahara.sounds .yaR))
  | vuk (hclean : w.cur.clean = ['B', 'U']) (hvalue : w.cur.value = ['B', 'U']) :
    Rewritten w (w.cur.withPart (w.cur.value ++ ['v']) (.agama vuk))

/-- **What the rules before a vowel make of a window.** -/
theorem exists_rewritten (w : Window) : ∃ b, Rewritten w b ∧ aciSet.apply w = [w.withCur b] := by
  rw [apply_eq]
  by_cases hvuk : bhuvoVuk.Changes w
  · obtain ⟨hclean, hvalue, happly⟩ := vuk_of_changes hvuk
    rw [if_pos hvuk]
    exact ⟨_, .vuk hclean hvalue, happly⟩
  rw [if_neg hvuk]
  by_cases hyan : anekacYan.Changes w
  · obtain ⟨hends, happly⟩ := yan_of_changes hyan
    rw [if_pos hyan]
    exact ⟨_, .yan hends, happly⟩
  rw [if_neg hyan]
  by_cases hino : inoYan.Changes w
  · rw [if_pos hino]
    exact ⟨_, .ino hino.1, apply_inoYan hino.1⟩
  rw [if_neg hino]
  by_cases habhyasa : abhyasaIyanUvan.Changes w
  · rw [if_pos habhyasa]
    obtain ⟨hends, happly | happly⟩ := iyanOrUvan_of_changes (by simp) habhyasa
    · exact ⟨_, .iyan hends hino, happly⟩
    · exact ⟨_, .uvan hends hino, happly⟩
  rw [if_neg habhyasa]
  by_cases hdhatu : iyanUvan.Changes w
  · rw [if_pos hdhatu]
    obtain ⟨hends, happly | happly⟩ := iyanOrUvan_of_changes (by simp) hdhatu
    · exact ⟨_, .iyan hends hino, happly⟩
    · exact ⟨_, .uvan hends hino, happly⟩
  · rw [if_neg hdhatu]
    exact ⟨_, .same hino, rfl⟩

/-! ## What becomes of a term -/

/-- In some window the rules turn the first term into the second. -/
def Makes (a b : Term) : Prop := ∃ w : Window, w.cur = a ∧ ∃ w' ∈ aciSet.apply w, w'.cur = b

theorem Makes.tags (h : Makes a b) (ha : a.IsFocus) : b.tags = a.tags := by
  obtain ⟨w, rfl, w', hw', rfl⟩ := h
  have hevolves : w.cur.Evolves 0 True w'.cur := evolves_of_mem_apply (n := 0) rfl hw' ha
  exact hevolves.tags

theorem Makes.clean (h : Makes a b) (ha : a.IsFocus) : b.clean = a.clean := by
  obtain ⟨w, rfl, w', hw', rfl⟩ := h
  have hevolves : w.cur.Evolves 0 True w'.cur := evolves_of_mem_apply (n := 0) rfl hw' ha
  exact hevolves.clean

theorem appliesTo_of_right_eq_none {r : WindowRule} (hr : r ∈ rules) {w : Window}
    (h : w.right = none) : r.appliesTo w = false := by
  simp only [rules, List.mem_cons, List.not_mem_nil, or_false] at hr
  rcases hr with rfl | rfl | rfl | rfl | rfl
  all_goals
    rw [WindowRule.appliesTo, h]
    exact Bool.and_false _

/-- Every rule asks for a right neighbour. -/
theorem apply_of_right_eq_none {w : Window} (h : w.right = none) : aciSet.apply w = [w] :=
  RuleSet.apply_of_not_applies (m := 0) rfl fun _ hr => appliesTo_of_right_eq_none hr h

theorem Makes.refl (a : Term) : Makes a a := by
  have hpass := apply_of_right_eq_none (w := ⟨none, a, none⟩) rfl
  exact ⟨⟨none, a, none⟩, rfl, ⟨none, a, none⟩, hpass ▸ List.mem_singleton_self _, rfl⟩

theorem exists_apply_eq (w : Window) : ∃ w', aciSet.apply w = [w'] := by
  obtain ⟨b, -, happly⟩ := exists_rewritten w
  exact ⟨_, happly⟩

/-- One state comes of a state, with another term at the position. -/
theorem exists_applyAt_eq {s : State} {i : Nat} (ha : s.terms[i]? = some a) :
    ∃ b, Makes a b ∧ aciSet.applyAt s i = [s.replace i b] := by
  have hw : Window.at? s i = some ⟨(s.prev? i).map Prod.fst, a, (s.next? i).map Prod.fst⟩ :=
    Option.map_eq_some_iff.mpr ⟨a, ha, rfl⟩
  obtain ⟨w', hw'⟩ := exists_apply_eq ⟨(s.prev? i).map Prod.fst, a, (s.next? i).map Prod.fst⟩
  refine ⟨w'.cur, ⟨⟨_, a, _⟩, rfl, w', hw' ▸ List.mem_singleton_self w', rfl⟩, ?_⟩
  rw [RuleSet.applyAt, hw]
  dsimp only
  rw [hw']
  rfl

/-! ## The values -/

/-- **What the rules before a vowel can make of a term.** -/
theorem Makes.cases (h : Makes a b) :
    b = a
      ∨ (a.endsIn iOrU = true ∧ (b = a.setAntya ['i', 'y'] ∨ b = a.setAntya ['u', 'v']))
      ∨ (a.clean = ['i'] ∧ b = a.setAntya ['y'])
      ∨ b = a.alTasya anyI (Pratyahara.sounds .yaR)
      ∨ b = a.withPart (a.value ++ ['v']) (.agama vuk) := by
  obtain ⟨w, rfl, w', hw', rfl⟩ := h
  obtain ⟨b, hb, happly⟩ := exists_rewritten w
  rw [happly, List.mem_singleton] at hw'
  subst hw'
  cases hb with
  | same => exact Or.inl rfl
  | iyan hends => exact Or.inr (Or.inl ⟨hends, Or.inl rfl⟩)
  | uvan hends => exact Or.inr (Or.inl ⟨hends, Or.inr rfl⟩)
  | ino happlies =>
    exact Or.inr (Or.inr (Or.inl ⟨(appliesTo_inoYan_iff.mp happlies).2.1, rfl⟩))
  | yan => exact Or.inr (Or.inr (Or.inr (Or.inl rfl)))
  | vuk => exact Or.inr (Or.inr (Or.inr (Or.inr rfl)))

/-- A term with sounds keeps some. -/
theorem Makes.isEmpty (h : Makes a b) (ha : a.isEmpty = false) : b.isEmpty = false := by
  rcases h.cases with rfl | ⟨-, rfl | rfl⟩ | ⟨-, rfl⟩ | rfl | rfl
  · exact ha
  · exact Term.isEmpty_setAntya ha (List.cons_ne_nil _ _)
  · exact Term.isEmpty_setAntya ha (List.cons_ne_nil _ _)
  · exact Term.isEmpty_setAntya ha (List.cons_ne_nil _ _)
  · rw [Term.isEmpty_eq_false_iff, ← List.length_pos_iff] at ha ⊢
    rwa [Term.length_alTasya]
  · exact Term.isEmpty_eq_false_iff.mpr (List.append_ne_nil_of_right_ne_nil _ (by simp))

theorem iOrU_contains_of_anyI (h : anyI.contains c = true) : iOrU.contains c = true := by
  exact SoundClass.of_contains (iOrU.contains · = true) h (by decide)

/-- Sounds that are not of the i or the u kind stay, but for the root i. -/
theorem Makes.mem (h : Makes a b) (hclean : a.clean ≠ ['i']) (hmem : c ∈ a.value)
    (hother : iOrU.contains c = false) : c ∈ b.value := by
  have hfinal : a.endsIn iOrU = true → a.antya? ≠ some c := by
    intro hends hc
    rw [Term.endsIn, hc, Option.any_some, hother] at hends
    exact Bool.false_ne_true hends
  rcases h.cases with rfl | ⟨hends, rfl | rfl⟩ | ⟨hi, -⟩ | rfl | rfl
  · exact hmem
  · exact Term.mem_setAntya hmem (hfinal hends)
  · exact Term.mem_setAntya hmem (hfinal hends)
  · exact absurd hi hclean
  · refine Term.mem_alTasya hmem ?_
    rw [Bool.eq_false_iff] at hother ⊢
    exact fun hc => hother (iOrU_contains_of_anyI hc)
  · exact List.mem_append_left _ hmem

end Vyakarana.BeforeVowel
