import Vyakarana.Proofs.Declines
import Vyakarana.Proofs.Numbering

/-!
# The priority of later rules

Several rules of a set may change one window. Of these the one registered last decides alone. A rule
that does not apply, or that leaves the window as it was, leaves the decision to the rules before it.

* `WindowRule.Changes` — a rule changes a window
* `RuleSet.Prevails` — the rule of a set that decides about a window
* `RuleSet.apply_concat` — a set with one more rule
* `RuleSet.last_registered_decides` — which rule decides, and what the outcomes of a set have in common
-/

namespace Vyakarana

variable {r : WindowRule} {w : Window} {id : RuleId}

/-! ## Rules that change a window -/

namespace WindowRule

/-- The rule applies to the window, and some outcome differs from it. -/
def Changes (r : WindowRule) (w : Window) : Prop :=
  r.appliesTo w = true ∧ ∃ w' ∈ r.apply w, w' ≠ w

instance : Decidable (r.Changes w) :=
  inferInstanceAs (Decidable (r.appliesTo w = true ∧ ∃ w' ∈ r.apply w, w' ≠ w))

theorem apply_ne_nil (r : WindowRule) (w : Window) : r.apply w ≠ [] := by
  unfold apply
  split
  · exact outcomes_ne_nil _ _ _
  · simp

theorem nodup_values_apply (r : WindowRule) (w : Window) :
    ((r.apply w).map fun w' => w'.cur.value).Nodup := by
  unfold apply
  split
  · exact nodup_values_outcomes _ _ _
  · simp

/-- A rule that does not change the window lets it through. -/
theorem apply_of_not_changes (h : ¬r.Changes w) : r.apply w = [w] := by
  by_cases happlies : r.appliesTo w = true
  · have hsame : ∀ w' ∈ r.apply w, w' = w := by
      intro w' hw'
      by_contra hne
      exact h ⟨happlies, w', hw', hne⟩
    have hnodup := r.nodup_values_apply w
    cases hw : r.apply w with
    | nil => exact absurd hw (r.apply_ne_nil w)
    | cons a rest =>
      cases rest with
      | nil => rw [hsame a (by simp [hw])]
      | cons b rest =>
        -- two outcomes would have different values
        have ha := hsame a (by simp [hw])
        have hb := hsame b (by simp [hw])
        simp [hw, ha, hb] at hnodup
  · rw [apply, if_neg happlies]

/-- What is left open is offered if it was not declined and has an effect. -/
theorem outcomes_optional_eq (id : RuleId) (w : Window) (sub : Substitution) :
    outcomes id w (.optional sub)
      = if id ∉ w.cur.declined ∧ (sub.apply w.cur w.right).value ≠ w.cur.value then
          [w.decline id, w.withCur (sub.apply w.cur w.right)]
        else [w.decline id] := by
  rw [← ite_not]
  refine if_congr ?_ rfl rfl
  simp only [Term.isDeclined, Bool.or_eq_true, decide_eq_true_eq, beq_iff_eq]
  tauto

/-- Only an option has two outcomes: first the window on which it is declined, which it was not
before, then the one on which it is taken. -/
theorem of_apply_eq_pair {declined accepted : Window} (h : r.apply w = [declined, accepted]) :
    r.id ∉ w.cur.declined ∧ declined = w.decline r.id ∧ accepted.cur.value ≠ w.cur.value := by
  unfold apply at h
  split at h
  · cases hd : r.decide w with
    | unchanged => simp [hd, outcomes] at h
    | substitute sub => simp [hd, outcomes] at h
    | optional sub =>
      rw [hd, outcomes_optional_eq] at h
      split at h
      · next hoffered =>
        simp only [List.cons.injEq, and_true] at h
        obtain ⟨rfl, rfl⟩ := h
        exact ⟨hoffered.1, rfl, hoffered.2⟩
      · simp at h
  · simp at h

/-! ### Mandatory rules -/

/-- The rule leaves nothing open: it substitutes, or it changes nothing. -/
def Mandatory (r : WindowRule) : Prop := ∀ w sub, r.decide w ≠ .optional sub

/-- What changes a window is a substitution. -/
theorem Changes.exists_substitute (h : r.Changes w) (hr : r.Mandatory) :
    ∃ sub, r.decide w = .substitute sub ∧ r.apply w = [w.withCur (sub.apply w.cur w.right)] := by
  obtain ⟨happlies, w', hw', hne⟩ := h
  rw [apply, if_pos happlies] at hw' ⊢
  cases hd : r.decide w with
  | unchanged =>
    rw [hd] at hw'
    exact absurd (List.mem_singleton.mp hw') hne
  | substitute sub => exact ⟨sub, rfl, rfl⟩
  | optional sub => exact absurd hd (hr w sub)

/-- A mandatory rule records nothing, so its identity does not matter. -/
theorem Mandatory.apply_withId (hr : r.Mandatory) (id : RuleId) (w : Window) :
    apply { r with id } w = r.apply w := by
  show (if r.appliesTo w then outcomes id w (r.decide w) else [w]) = r.apply w
  rw [apply]
  cases hd : r.decide w with
  | unchanged => rfl
  | substitute sub => rfl
  | optional sub => exact absurd hd (hr w sub)

theorem Mandatory.changes_withId (hr : r.Mandatory) (id : RuleId) (w : Window) :
    Changes { r with id } w ↔ r.Changes w := by
  rw [Changes, hr.apply_withId]
  rfl

end WindowRule

/-! ## The rule that decides -/

namespace RuleSet

variable {rules : List WindowRule} {set : RuleSet}

/-- The rule changes the window, and no rule registered after it does. -/
structure Prevails (set : RuleSet) (w : Window) (r : WindowRule) : Prop where
  changes : r.Changes w
  last : ∃ before after, set.rules = before ++ r :: after ∧ ∀ r' ∈ after, ¬r'.Changes w

theorem changes?_eq (w : Window) (r : WindowRule) :
    changes? w r = if r.Changes w then some (r, r.apply w) else none := by
  unfold changes?
  refine if_congr ?_ rfl rfl
  simp [WindowRule.Changes]

theorem winner?_of_prevails (h : set.Prevails w r) : set.winner? w = some (r, r.apply w) := by
  obtain ⟨before, after, hsplit, hafter⟩ := h.last
  have hreverse : set.rules.reverse = after.reverse ++ r :: before.reverse := by simp [hsplit]
  refine List.findSome?_eq_some_iff.mpr ⟨_, r, _, hreverse, ?_, ?_⟩
  · rw [changes?_eq, if_pos h.changes]
  · intro r' hr'
    rw [changes?_eq, if_neg (hafter r' (List.mem_reverse.mp hr'))]

theorem winner?_eq_none_iff : set.winner? w = none ↔ ∀ r ∈ set.rules, ¬r.Changes w := by
  simp [winner?, List.findSome?_eq_none_iff, changes?_eq]

theorem apply_of_prevails (h : set.Prevails w r) : set.apply w = r.apply w := by
  rw [apply, winner?_of_prevails h]

theorem apply_of_unchanged (h : ∀ r ∈ set.rules, ¬r.Changes w) : set.apply w = [w] := by
  rw [apply, winner?_eq_none_iff.mpr h]

/-- Some rule decides, if any changes the window. -/
theorem prevails_or_unchanged (set : RuleSet) (w : Window) :
    (∃ r, set.Prevails w r) ∨ ∀ r ∈ set.rules, ¬r.Changes w := by
  cases hwin : set.winner? w with
  | none => exact Or.inr (winner?_eq_none_iff.mp hwin)
  | some won =>
    obtain ⟨later, r, earlier, hsplit, hr, hlater⟩ := List.findSome?_eq_some_iff.mp hwin
    have hrules : set.rules = earlier.reverse ++ r :: later.reverse := by
      simpa using congrArg List.reverse hsplit
    rw [changes?_eq] at hr
    split at hr
    · next hchanges =>
      refine Or.inl ⟨r, hchanges, earlier.reverse, later.reverse, hrules, fun r' hr' hlate => ?_⟩
      have hnone := hlater r' (List.mem_reverse.mp hr')
      rw [changes?_eq, if_pos hlate] at hnone
      simp at hnone
    · simp at hr

/-- If one rule of a set applies, and no other, it decides. -/
theorem apply_of_only (hr : r ∈ set.rules)
    (honly : ∀ r' ∈ set.rules, r'.appliesTo w = true → r' = r) : set.apply w = r.apply w := by
  rcases set.prevails_or_unchanged w with ⟨r', hr'⟩ | hnone
  · obtain ⟨before, after, hsplit, -⟩ := hr'.last
    obtain rfl := honly r' (by simp [hsplit]) hr'.changes.1
    exact apply_of_prevails hr'
  · rw [apply_of_unchanged hnone, WindowRule.apply_of_not_changes (hnone r hr)]

/-- **A set with one more rule.** The last rule decides if it changes the window, and the rules
before it decide otherwise. -/
theorem apply_concat (rules : List WindowRule) (r : WindowRule) (first : RuleId) (w : Window) :
    apply ⟨rules ++ [r], first⟩ w
      = if r.Changes w then r.apply w else apply ⟨rules, first⟩ w := by
  have hwin : winner? ⟨rules ++ [r], first⟩ w = (changes? w r).or (winner? ⟨rules, first⟩ w) := by
    rw [winner?, List.reverse_append, List.findSome?_append]
    simp [winner?]
  rw [apply, hwin, changes?_eq]
  by_cases hchanges : r.Changes w
  · simp [hchanges]
  · simp [hchanges, apply]

/-- Mandatory rules do the same whatever their identities. -/
theorem apply_number_of_mandatory (h : ∀ r ∈ rules, r.Mandatory) (first : RuleId) (w : Window) :
    apply ⟨number first rules, first⟩ w = apply ⟨rules, 0⟩ w := by
  -- from the last rule, which decides first, to the one registered first
  induction rules using List.reverseRecOn with
  | nil => rfl
  | append_singleton rules r ih =>
    have hr : r.Mandatory := h r (by simp)
    have hrules := ih fun r' hr' => h r' (by simp [hr'])
    rw [number_append, number, number, apply_concat, apply_concat, hrules]
    exact if_congr (hr.changes_withId _ w) (hr.apply_withId _ w) rfl

/-! ## Outcomes of any set -/

theorem neighbours_of_mem_apply {w' : Window} (h : w' ∈ set.apply w) :
    w'.left = w.left ∧ w'.right = w.right := by
  rcases mem_apply h with rfl | ⟨r, -, -, ⟨sub, -, rfl⟩ | ⟨sub, -, rfl⟩⟩
  all_goals exact ⟨rfl, rfl⟩

/-- Two outcomes come of an option, which the rule that decides leaves open. -/
theorem of_apply_eq_pair {declined accepted : Window} (h : set.apply w = [declined, accepted]) :
    declined ≠ accepted ∧ ∃ r, set.Prevails w r ∧ set.apply w = r.apply w
      ∧ r.id ∉ w.cur.declined ∧ declined = w.decline r.id := by
  rcases set.prevails_or_unchanged w with ⟨r, hr⟩ | hnone
  · have hwon := apply_of_prevails hr
    obtain ⟨hopen, rfl, hvalue⟩ := WindowRule.of_apply_eq_pair (hwon ▸ h)
    refine ⟨?_, r, hr, hwon, hopen, rfl⟩
    rintro rfl
    exact hvalue rfl
  · rw [apply_of_unchanged hnone] at h
    simp at h

/-- **The rule registered last has priority.** A registered set takes one more rule of a new name,
which then decides alone about every window that it changes; about every other window the set
decides as before. A set without rules lets every window through. Whatever its rules, a set gives
one window or two, with the neighbours as they were. If there are two, they differ, and the first is
the window with the rule that decides declined on it, which it was not before. -/
theorem last_registered_decides :
    (∀ {set : RuleSet} {r : WindowRule}, set.Registered → r.name ∉ set.rules.map WindowRule.name →
      ∃ more, build (set.rules ++ [r]) set.firstId = .ok more ∧ ∀ w,
        let last := { r with id := set.nextId }
        (last.Changes w → more.apply w = last.apply w)
          ∧ (¬last.Changes w → more.apply w = set.apply w))
    ∧ (∀ first, ∃ bare, build [] first = .ok bare ∧ ∀ w, bare.apply w = [w])
    ∧ ∀ (set : RuleSet) (w : Window),
      ((set.apply w).length = 1 ∨ (set.apply w).length = 2)
        ∧ (∀ w' ∈ set.apply w, w'.left = w.left ∧ w'.right = w.right)
        ∧ ∀ declined accepted, set.apply w = [declined, accepted] →
          declined ≠ accepted ∧ ∃ r, set.Prevails w r ∧ set.apply w = r.apply w
            ∧ r.id ∉ w.cur.declined ∧ declined = w.decline r.id := by
  refine ⟨fun hset hnew => ?_, fun first => ?_, fun set w => ⟨?_, ?_, ?_⟩⟩
  · refine ⟨_, hset.build_concat hnew, fun w => ⟨fun hchanges => ?_, fun hchanges => ?_⟩⟩
    · rw [apply_concat, if_pos hchanges]
    · rw [apply_concat, if_neg hchanges]
  · exact ⟨⟨[], first⟩, rfl, fun w => apply_of_unchanged (by simp)⟩
  · have hpos := List.length_pos_iff.mpr (set.apply_ne_nil w)
    have hle := set.length_apply_le_two w
    omega
  · exact fun w' => neighbours_of_mem_apply
  · exact fun declined accepted => of_apply_eq_pair

/-- The rule 7.3.58 registered after the other ku rules: it decides about the root ci, where it is
optional, and leaves the root ji to 7.3.57. -/
theorem last_registered_decides_ku :
    let mandatory : RuleSet :=
      ⟨number 5 [Velar.abhyasacCa, Velar.herAcani, Velar.sanlitorJeh], 5⟩
    let optional : WindowRule := { Velar.vibhasaCeh with id := 8 }
    let jiBeforeLit : Window := ciBeforeLit.withCur (.dhatu "ji".toList)
    mandatory.Registered ∧ Velar.vibhasaCeh.name ∉ mandatory.rules.map WindowRule.name
      ∧ build (mandatory.rules ++ [Velar.vibhasaCeh]) 5 = .ok Grammar.kuSet
      ∧ Grammar.kuSet.apply ciBeforeLit = optional.apply ciBeforeLit
      ∧ (optional.apply ciBeforeLit).length = 2 ∧ mandatory.apply ciBeforeLit = [ciBeforeLit]
      ∧ Grammar.kuSet.apply jiBeforeLit = mandatory.apply jiBeforeLit
      ∧ mandatory.apply jiBeforeLit ≠ [jiBeforeLit] := by
  intro mandatory optional jiBeforeLit
  have hset : mandatory.Registered := ⟨mandatory.rules, 5, rfl⟩
  have hnew : Velar.vibhasaCeh.name ∉ mandatory.rules.map WindowRule.name := by decide
  have hbuild : build (mandatory.rules ++ [Velar.vibhasaCeh]) 5 = .ok Grammar.kuSet := rfl
  obtain ⟨more, hmore, hdecides⟩ := last_registered_decides.1 hset hnew
  obtain rfl := Except.ok.inj (hbuild.symm.trans hmore)
  exact ⟨hset, hnew, hbuild, (hdecides ciBeforeLit).1 (by decide), by decide, by decide,
    (hdecides jiBeforeLit).2 (by decide), by decide⟩

end RuleSet

end Vyakarana
