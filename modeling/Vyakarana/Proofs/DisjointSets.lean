import Vyakarana.Proofs.Declines
import Vyakarana.Proofs.Numbering

/-!
# Rule sets that share no identities

Declined rules are recorded by identity. A rule compares windows to see whether it changed one, and
the declined rules are part of what it compares. Still, to decline a rule of one set neither hides a
change from the rules of a disjoint set nor makes one up: it is carried along.

* `WindowRule.apply_decline` — a rule on which another one was declined
* `RuleSet.apply_decline_of_disjoint` — declined rules do not leak between disjoint sets
-/

namespace Vyakarana

variable {w w' : Window} {r : WindowRule} {id other : RuleId}

/-! ## A rule on which another one was declined -/

/-- A declined rule shows no difference between terms of which one may have another rule declined
on it. -/
theorem Term.decline_inj {s t : Term} (hne : other ≠ id)
    (hdeclined : s.declined = t.declined ∨ s.declined = t.declined.insert id)
    (h : s.decline other = t.decline other) : s = t := by
  have hsame : s.declined = t.declined := by
    rcases hdeclined with hsame | hmore
    · exact hsame
    · -- the rule is recorded on `t` as well, so nothing was added
      have hsets : (t.declined.insert id).insert other = t.declined.insert other := by
        rw [← hmore]
        exact congrArg Term.declined h
      have hmem : id ∈ t.declined.insert other := by
        rw [← hsets, OrderedSet.insert_comm]
        exact OrderedSet.mem_insert.mpr (Or.inl rfl)
      rcases OrderedSet.mem_insert.mp hmem with heq | hold
      · exact absurd heq.symm hne
      · rw [hmore, OrderedSet.insert_of_mem hold]
  calc s = (s.decline other).withDeclined s.declined := rfl
    _ = (t.decline other).withDeclined t.declined := by rw [h, hsame]
    _ = t := rfl

namespace WindowRule

theorem appliesTo_decline (hr : r.OverlooksDeclines) (w : Window) (other : RuleId) :
    r.appliesTo (w.decline other) = r.appliesTo w := by
  have hcur : holds r.cur (some (w.decline other).cur) = holds r.cur (some w.cur) := by
    cases hc : r.cur with
    | none => rfl
    | some c => exact hr.cur c hc w.cur _
  rw [appliesTo, hcur]
  rfl

/-- What is substituted has the other rule declined as well. -/
theorem apply_decline_of_same {sub sub' : Substitution}
    (hdeclined : (sub.apply w.cur w.right).declined = w.cur.declined)
    (same : sub'.apply (w.cur.withDeclined (w.cur.declined.insert other)) w.right
      = (sub.apply w.cur w.right).withDeclined (w.cur.declined.insert other)) :
    sub'.apply (w.decline other).cur w.right = (sub.apply w.cur w.right).decline other := by
  rw [Term.decline, hdeclined]
  exact same

/-- Every outcome has the other rule declined as well, and there are no others. -/
theorem apply_decline (hr : r.OverlooksDeclines) (hne : other ≠ r.id) (w : Window) :
    r.apply (w.decline other) = (r.apply w).map (·.decline other) := by
  have hkeeps := hr.keepsDeclines w
  have hsame : (r.decide w).SameBut w (w.cur.declined.insert other) (r.decide (w.decline other)) :=
    hr.decides w _
  rw [apply, apply, appliesTo_decline hr]
  split
  · generalize r.decide w = d at hkeeps hsame
    generalize r.decide (w.decline other) = d' at hsame
    cases hsame with
    | unchanged => rfl
    | @substitute sub sub' same =>
      have hterm := apply_decline_of_same (hkeeps sub (Or.inl rfl)) same
      show [w.withCur (sub'.apply (w.decline other).cur w.right)] = _
      rw [hterm]
      rfl
    | @optional sub sub' same =>
      have hterm := apply_decline_of_same (hkeeps sub (Or.inr rfl)) same
      have hown : (w.decline other).cur.isDeclined r.id = w.cur.isDeclined r.id := by
        simp [Window.decline, Window.withCur, Term.isDeclined, Ne.symm hne]
      have hcomm : (w.cur.decline other).decline r.id = (w.cur.decline r.id).decline other := by
        simp only [Term.decline, OrderedSet.insert_comm]
      simp only [outcomes, hown]
      show (if (w.cur.isDeclined r.id || (sub'.apply (w.decline other).cur w.right).value
        == w.cur.value) = true then [w.withCur ((w.cur.decline other).decline r.id)]
        else [w.withCur ((w.cur.decline other).decline r.id),
          w.withCur (sub'.apply (w.decline other).cur w.right)]) = _
      rw [hterm, hcomm]
      show (if (w.cur.isDeclined r.id || (sub.apply w.cur w.right).value == w.cur.value) = true
        then _ else _) = _
      split
      · rfl
      · rfl
  · rfl

/-- The other declined rule neither hides a change nor makes one up. -/
theorem any_ne_apply_decline (hr : r.OverlooksDeclines) (hne : other ≠ r.id) (w : Window) :
    (r.apply (w.decline other)).any (· != w.decline other) = (r.apply w).any (· != w) := by
  rw [any_ne_apply, any_ne_apply, apply_decline hr hne, List.map_map, List.any_map, List.any_map,
    Bool.eq_iff_iff, List.any_eq_true, List.any_eq_true]
  refine exists_congr fun w' => and_congr_right fun hw' => ?_
  have hiff : w'.cur.decline other = w.cur.decline other ↔ w'.cur = w.cur := by
    constructor
    · exact Term.decline_inj hne (declined_of_mem_apply hr.keepsDeclines hw')
    · intro h
      rw [h]
  simp [Window.decline, Window.withCur, hiff]

end WindowRule

/-! ## A set on which a rule of another set was declined -/

namespace RuleSet

variable {set : RuleSet}

theorem changes?_decline (hr : r.OverlooksDeclines) (hne : other ≠ r.id) (w : Window) :
    changes? (w.decline other) r
      = (changes? w r).map fun won => (won.1, won.2.map (·.decline other)) := by
  rw [changes?, changes?, WindowRule.appliesTo_decline hr, WindowRule.any_ne_apply_decline hr hne,
    WindowRule.apply_decline hr hne]
  split
  · rfl
  · rfl

theorem apply_decline (hset : ∀ r ∈ set.rules, r.OverlooksDeclines)
    (hne : ∀ r ∈ set.rules, other ≠ r.id) (w : Window) :
    set.apply (w.decline other) = (set.apply w).map (·.decline other) := by
  have hwon : set.winner? (w.decline other)
      = (set.winner? w).map fun won => (won.1, won.2.map (·.decline other)) := by
    rw [winner?, winner?, List.map_findSome?]
    refine findSome?_eq_of_forall_mem fun r hr => ?_
    have hmem : r ∈ set.rules := List.mem_reverse.mp hr
    exact changes?_decline (hset r hmem) (hne r hmem) w
  rw [apply, hwon, apply]
  cases set.winner? w with
  | none => rfl
  | some won => rfl

/-- **Declined rules do not leak between disjoint sets.** Of sets that are accepted together, one
whose rules overlook declined rules makes the same of a window on which a rule of another one was
declined, with that rule declined on every outcome. The rules of the grammar overlook declined
rules. -/
theorem apply_decline_of_disjoint :
    (∀ r ∈ BeforeVowel.rules ++ Velar.rules, r.OverlooksDeclines)
      ∧ ∀ {sets : List (String × RuleSet)} {i j : Nat} {x y : String × RuleSet},
        ensureDisjoint sets = .ok () → sets[i]? = some x → sets[j]? = some y → i ≠ j →
        x.2.Registered → y.2.Registered → (∀ r ∈ y.2.rules, r.OverlooksDeclines) →
        ∀ r ∈ x.2.rules, ∀ w, y.2.apply (w.decline r.id) = (y.2.apply w).map (·.decline r.id) := by
  constructor
  · intro r hr
    rcases List.mem_append.mp hr with hr | hr
    · exact BeforeVowel.overlooksDeclines r hr
    · exact Velar.overlooksDeclines r hr
  · intro sets i j x y hsets hx hy hij hregx hregy hoverlooks r hr w
    have hdisjoint := overlap?_of_ensureDisjoint hsets hx hy hij
    exact apply_decline hoverlooks
      (fun r' hr' => id_ne_of_overlap? hregx hregy hdisjoint hr hr') w

/-- With 6.4.77 declined, 7.3.58 is still optional for the root ci. -/
theorem apply_decline_of_disjoint_ci :
    ensureDisjoint [("anga_aci", Grammar.aciSet), ("anga_ku", Grammar.kuSet)] = .ok ()
      ∧ (Grammar.kuSet.apply (ciBeforeLit.decline 0)).map
          (fun w => (w.cur.value, w.cur.declined.toList))
        = [("ci".toList, [0, 8]), ("ki".toList, [0])] := by
  have hsets : ensureDisjoint [("anga_aci", Grammar.aciSet), ("anga_ku", Grammar.kuSet)] = .ok () :=
    rfl
  have hcarried := apply_decline_of_disjoint.2 (i := 0) (j := 1) hsets rfl rfl (by decide)
    ⟨BeforeVowel.rules, 0, rfl⟩ ⟨Velar.rules, 5, rfl⟩
    (Grammar.overlooksDeclines Grammar.kuSet (by simp))
    { BeforeVowel.iyanUvan with id := 0 } List.mem_cons_self ciBeforeLit
  refine ⟨hsets, ?_⟩
  rw [hcarried]
  decide

end RuleSet

end Vyakarana
