import Vyakarana.Proofs.AlikeWindows
import Vyakarana.Proofs.Gates
import Vyakarana.Proofs.StandardGrammar

/-!
# Declined rules

A term records the optional rules that were declined on it. No context and no substitution of the
grammar looks at that record or changes it: to decline is the one thing that adds to it. So the
record only grows from window to window, and a rule that is in it is not offered again.

* `Term.withDeclined` — a term that differs in its declined rules alone
* `WindowRule.OverlooksDeclines` — rules that take no notice of declined rules
* `RuleSet.declined_of_mem_apply` — what one application adds to the record
* `RuleSet.declined_of_run` — an option that was declined is never offered again
-/

namespace Vyakarana

variable {t : Term} {w w' : Window} {r : WindowRule} {id : RuleId} {ids : OrderedSet RuleId}

/-! ## Other declined rules -/

/-- The term with other declined rules. -/
def Term.withDeclined (t : Term) (ids : OrderedSet RuleId) : Term := { t with declined := ids }

/-- The window with other declined rules on the term in the middle. -/
def Window.withDeclined (w : Window) (ids : OrderedSet RuleId) : Window :=
  w.withCur (w.cur.withDeclined ids)

/-- The window with one more declined rule on the term in the middle. -/
def Window.decline (w : Window) (id : RuleId) : Window := w.withCur (w.cur.decline id)

namespace Term

@[simp] theorem declined_withDeclined (t : Term) (ids : OrderedSet RuleId) :
    (t.withDeclined ids).declined = ids := rfl

@[simp] theorem value_withDeclined (t : Term) (ids : OrderedSet RuleId) :
    (t.withDeclined ids).value = t.value := rfl

@[simp] theorem declined_decline (t : Term) (id : RuleId) :
    (t.decline id).declined = t.declined.insert id := rfl

/-- To decline a rule again changes nothing. -/
theorem decline_of_mem (h : id ∈ t.declined) : t.decline id = t := by
  rw [decline, OrderedSet.insert_of_mem h]

theorem setAntya_withDeclined (t : Term) (ids : OrderedSet RuleId) (replacement : Text) :
    (t.withDeclined ids).setAntya replacement = (t.setAntya replacement).withDeclined ids := by
  by_cases h : t.value.isEmpty
  · simp [setAntya, h]
  · simp [setAntya, h]
    rfl

theorem alTasya_withDeclined (t : Term) (ids : OrderedSet RuleId) (target result : SoundClass) :
    (t.withDeclined ids).alTasya target result = (t.alTasya target result).withDeclined ids := by
  simp only [alTasya, value_withDeclined]
  split
  · rfl
  · split
    · rfl
    · rfl

theorem tasya_withDeclined (t : Term) (ids : OrderedSet RuleId) (u : Upadesha) :
    (t.withDeclined ids).tasya u = (t.tasya u).withDeclined ids := by
  unfold tasya
  split
  · rfl
  split
  · rfl
  split
  · rfl
  split
  · exact t.setAntya_withDeclined ids u.value
  split
  · rfl
  · exact t.setAntya_withDeclined ids u.value

end Term

/-! ## Rules that overlook declined rules -/

/-- The context does not look at declined rules. -/
def Context.OverlooksDeclines (c : Context) : Prop :=
  ∀ (t : Term) (ids : OrderedSet RuleId), c (some (t.withDeclined ids)) = c (some t)

/-- The substitution neither looks at declined rules nor changes them. -/
def Substitution.OverlooksDeclines (sub : Substitution) : Prop :=
  ∀ (t : Term) (right : Option Term) (ids : OrderedSet RuleId),
    sub.apply (t.withDeclined ids) right = (sub.apply t right).withDeclined ids

/-- A decision on a window and one on the window with other declined rules that come to the same:
both substitute or neither does, and what is substituted differs in the declined rules alone, of
which each keeps its own. -/
inductive Decision.SameBut (w : Window) (ids : OrderedSet RuleId) : Decision → Decision → Prop where
  | unchanged : SameBut w ids .unchanged .unchanged
  | substitute {sub other : Substitution}
    (same : other.apply (w.cur.withDeclined ids) w.right
      = (sub.apply w.cur w.right).withDeclined ids) :
    SameBut w ids (.substitute sub) (.substitute other)
  | optional {sub other : Substitution}
    (same : other.apply (w.cur.withDeclined ids) w.right
      = (sub.apply w.cur w.right).withDeclined ids) :
    SameBut w ids (.optional sub) (.optional other)

namespace WindowRule

/-- Neither the contexts of the rule nor what it decides, once carried out, read or write the
declined rules of the term in the middle. -/
structure OverlooksDeclines (r : WindowRule) : Prop where
  cur : ∀ c, r.cur = some c → c.OverlooksDeclines
  decides : ∀ (w : Window) (ids : OrderedSet RuleId),
    (r.decide w).SameBut w ids (r.decide (w.withDeclined ids))

/-- What the rule substitutes has the declined rules of the term that it takes the place of. -/
def KeepsDeclines (r : WindowRule) : Prop :=
  ∀ (w : Window) (sub : Substitution), (r.decide w).Offers sub →
    (sub.apply w.cur w.right).declined = w.cur.declined

/-- Rules that decide without a look at declined rules, and whose substitutions overlook them. -/
theorem overlooksDeclines_of_decide_eq (hcur : ∀ c, r.cur = some c → c.OverlooksDeclines)
    (hdecide : ∀ (w : Window) (ids : OrderedSet RuleId),
      r.decide (w.withDeclined ids) = r.decide w)
    (hsub : ∀ (w : Window) (sub : Substitution), (r.decide w).Offers sub →
      sub.OverlooksDeclines) : r.OverlooksDeclines where
  cur := hcur
  decides := by
    intro w ids
    rw [hdecide]
    cases hd : r.decide w with
    | unchanged => exact .unchanged
    | substitute sub => exact .substitute (hsub w sub (Or.inl hd) w.cur w.right ids)
    | optional sub => exact .optional (hsub w sub (Or.inr hd) w.cur w.right ids)

/-- Such rules keep declined rules: with the same ones declined they decide the same. -/
theorem OverlooksDeclines.keepsDeclines (h : r.OverlooksDeclines) : r.KeepsDeclines := by
  intro w sub hoffers
  have hsame : (r.decide w).SameBut w w.cur.declined (r.decide w) := h.decides w w.cur.declined
  have hdeclined : sub.apply w.cur w.right
      = (sub.apply w.cur w.right).withDeclined w.cur.declined := by
    rcases hoffers with hd | hd
    · rw [hd] at hsame
      cases hsame with
      | substitute same => exact same
    · rw [hd] at hsame
      cases hsame with
      | optional same => exact same
  rw [hdeclined, Term.declined_withDeclined]

/-- The identity has no part in this. -/
theorem OverlooksDeclines.withId (h : r.OverlooksDeclines) (id : RuleId) :
    OverlooksDeclines { r with id } := ⟨h.cur, h.decides⟩

end WindowRule

theorem RuleSet.overlooksDeclines_of_rules_eq {set : RuleSet} {n : RuleId}
    {rules : List WindowRule} (hset : set.rules = number n rules)
    (h : ∀ r ∈ rules, r.OverlooksDeclines) : ∀ r ∈ set.rules, r.OverlooksDeclines := by
  intro r hr
  obtain ⟨r₀, hr₀, heq⟩ := exists_of_mem_number (hset ▸ hr)
  rw [heq]
  exact (h r₀ hr₀).withId r.id

/-! ## The rules that there are -/

namespace BeforeVowel

theorem overlooksDeclines_iyanOrUvan (t : Term) : (iyanOrUvan t).OverlooksDeclines := by
  intro t' right ids
  unfold iyanOrUvan
  split
  · exact t'.tasya_withDeclined ids _
  · exact t'.tasya_withDeclined ids _

theorem overlooksDeclines_of_offers {sub : Substitution} (hr : r ∈ rules)
    (h : (r.decide w).Offers sub) : sub.OverlooksDeclines := by
  rcases h with h | h
  · simp only [rules, List.mem_cons, List.not_mem_nil, or_false] at hr
    rcases hr with rfl | rfl | rfl | rfl | rfl
    · obtain rfl := Decision.substitute.inj h
      exact overlooksDeclines_iyanOrUvan w.cur
    · simp only [abhyasaIyanUvan] at h
      split at h
      · simp at h
      · obtain rfl := Decision.substitute.inj h
        exact overlooksDeclines_iyanOrUvan w.cur
    · obtain rfl := Decision.substitute.inj h
      exact fun t _ ids => t.setAntya_withDeclined ids _
    · simp only [anekacYan] at h
      split at h
      · obtain rfl := Decision.substitute.inj h
        exact fun t _ ids => t.alTasya_withDeclined ids _ _
      · simp at h
    · simp only [bhuvoVuk] at h
      split at h
      · simp at h
      · obtain rfl := Decision.substitute.inj h
        exact fun t _ ids => t.tasya_withDeclined ids _
  · exact absurd h (decide_ne_optional hr w sub)

theorem overlooksDeclines : ∀ r ∈ rules, r.OverlooksDeclines := by
  intro r hr
  refine WindowRule.overlooksDeclines_of_decide_eq ?_ ?_
    fun w sub => overlooksDeclines_of_offers hr
  · simp only [rules, List.mem_cons, List.not_mem_nil, or_false] at hr
    rcases hr with rfl | rfl | rfl | rfl | rfl
    all_goals
      rintro _ ⟨⟩ t ids
      rfl
  · simp only [rules, List.mem_cons, List.not_mem_nil, or_false] at hr
    rcases hr with rfl | rfl | rfl | rfl | rfl
    all_goals
      intro w ids
      rfl

end BeforeVowel

namespace Velar

theorem overlooksDeclines : ∀ r ∈ rules, r.OverlooksDeclines := by
  intro r hr
  refine WindowRule.overlooksDeclines_of_decide_eq ?_ ?_ ?_
  · simp only [rules, List.mem_cons, List.not_mem_nil, or_false] at hr
    rcases hr with rfl | rfl | rfl | rfl
    all_goals
      rintro _ ⟨⟩ t ids
      rfl
  · simp only [rules, List.mem_cons, List.not_mem_nil, or_false] at hr
    rcases hr with rfl | rfl | rfl | rfl
    all_goals
      intro w ids
      rfl
  · intro w sub hoffers t right ids
    obtain ⟨targets, rfl⟩ := eq_toKu_of_offers hr hoffers
    exact t.alTasya_withDeclined ids targets _

end Velar

theorem Grammar.overlooksDeclines :
    ∀ set ∈ [Grammar.aciSet, Grammar.kuSet], ∀ r ∈ set.rules, r.OverlooksDeclines := by
  intro set hset
  rcases List.mem_pair.mp hset with rfl | rfl
  · exact RuleSet.overlooksDeclines_of_rules_eq rfl BeforeVowel.overlooksDeclines
  · exact RuleSet.overlooksDeclines_of_rules_eq rfl Velar.overlooksDeclines

/-! ## What an application adds -/

namespace WindowRule

theorem declined_of_mem_apply (hr : r.KeepsDeclines) (h : w' ∈ r.apply w) :
    w'.cur.declined = w.cur.declined ∨ w'.cur.declined = w.cur.declined.insert r.id := by
  rw [apply] at h
  split at h
  · rcases mem_outcomes h with rfl | ⟨sub, hoffers, rfl⟩ | ⟨sub, -, rfl⟩
    · exact Or.inl rfl
    · exact Or.inl (hr w sub hoffers)
    · exact Or.inr rfl
  · rw [List.mem_singleton.mp h]
    exact Or.inl rfl

/-- A declined rule that decides to leave the window, or to leave it open, leaves it. -/
theorem apply_of_declined (hid : r.id ∈ w.cur.declined)
    (h : r.appliesTo w = false ∨ r.decide w = .unchanged ∨ ∃ sub, r.decide w = .optional sub) :
    r.apply w = [w] := by
  have hdeclined : w.cur.isDeclined r.id = true := by simpa [Term.isDeclined] using hid
  rw [apply]
  rcases h with h | h | ⟨sub, h⟩
  · simp [h]
  · simp [h, outcomes]
  · simp [h, outcomes, hdeclined, Term.decline_of_mem hid, Window.withCur]

end WindowRule

namespace RuleSet

variable {set : RuleSet} {sets : List RuleSet} {ws : Nat → Window} {n i j : Nat}

/-- One application adds at most the identity of one rule of the set. -/
theorem declined_of_mem_apply (hset : ∀ r ∈ set.rules, r.KeepsDeclines) (h : w' ∈ set.apply w) :
    w'.cur.declined = w.cur.declined
      ∨ ∃ r ∈ set.rules, w'.cur.declined = w.cur.declined.insert r.id := by
  rcases set.apply_cases w with hpass | ⟨r, hr, happlies, hwon⟩
  · rw [hpass] at h
    rw [List.mem_singleton.mp h]
    exact Or.inl rfl
  · have hmem : w' ∈ r.apply w := by
      rw [WindowRule.apply, if_pos happlies, ← hwon]
      exact h
    exact (WindowRule.declined_of_mem_apply (hset r hr) hmem).imp_right fun heq => ⟨r, hr, heq⟩

/-- The second window is an outcome of one of the sets on the first. -/
def Follows (sets : List RuleSet) (w w' : Window) : Prop := ∃ set ∈ sets, w' ∈ set.apply w

theorem Follows.declined (hsets : ∀ set ∈ sets, ∀ r ∈ set.rules, r.KeepsDeclines)
    (h : Follows sets w w') :
    w'.cur.declined = w.cur.declined
      ∨ ∃ set ∈ sets, ∃ r ∈ set.rules, w'.cur.declined = w.cur.declined.insert r.id := by
  obtain ⟨set, hset, hmem⟩ := h
  exact (declined_of_mem_apply (hsets set hset) hmem).imp_right fun hr => ⟨set, hset, hr⟩

theorem Follows.mem_declined (hsets : ∀ set ∈ sets, ∀ r ∈ set.rules, r.KeepsDeclines)
    (h : Follows sets w w') (hid : id ∈ w.cur.declined) : id ∈ w'.cur.declined := by
  rcases h.declined hsets with hsame | ⟨set, -, r, -, hmore⟩
  · rwa [hsame]
  · rw [hmore]
    exact OrderedSet.mem_insert.mpr (Or.inr hid)

theorem mem_declined_of_run (hsets : ∀ set ∈ sets, ∀ r ∈ set.rules, r.KeepsDeclines)
    (hrun : ∀ i < n, Follows sets (ws i) (ws (i + 1))) (hij : i ≤ j) (hj : j ≤ n)
    (hid : id ∈ (ws i).cur.declined) : id ∈ (ws j).cur.declined := by
  induction j, hij using Nat.le_induction with
  | base => exact hid
  | succ j _ ih => exact (hrun j hj).mem_declined hsets (ih (Nat.le_of_lt hj))

/-- **A declined option is never offered again.** In a run of windows, each an outcome of one of the
sets on the one before it, the declined rules of the term in the middle grow, by one rule at a time
at most. Once a rule is among them, it leaves every later window on which it does not apply, decides
to change nothing or would be optional. Two sets may even share identities. -/
theorem declined_of_run (hsets : ∀ set ∈ sets, ∀ r ∈ set.rules, r.KeepsDeclines)
    (hrun : ∀ i < n, Follows sets (ws i) (ws (i + 1))) :
    (∀ i j, i ≤ j → j ≤ n → ∀ id ∈ (ws i).cur.declined, id ∈ (ws j).cur.declined)
      ∧ (∀ i < n, (ws (i + 1)).cur.declined = (ws i).cur.declined
        ∨ ∃ set ∈ sets, ∃ r ∈ set.rules,
          (ws (i + 1)).cur.declined = (ws i).cur.declined.insert r.id)
      ∧ ∀ (r : WindowRule) (i j : Nat), i ≤ j → j ≤ n → r.id ∈ (ws i).cur.declined →
        (r.appliesTo (ws j) = false ∨ r.decide (ws j) = .unchanged
          ∨ ∃ sub, r.decide (ws j) = .optional sub) →
        r.apply (ws j) = [ws j] := by
  refine ⟨?_, ?_, ?_⟩
  · intro i j hij hj id hid
    exact mem_declined_of_run hsets hrun hij hj hid
  · intro i hi
    exact (hrun i hi).declined hsets
  · intro r i j hij hj hid hcases
    exact WindowRule.apply_of_declined (mem_declined_of_run hsets hrun hij hj hid) hcases

/-- The root ci after its abhyāsa and before liṭ, where 7.3.58 is optional. -/
def ciBeforeLit : Window where
  left := some (.abhyasa "ci".toList)
  cur := .dhatu "ci".toList
  right := some ((Term.vibhakti "atus".toList).withLakshana [.liW])

theorem declined_of_run_ci :
    let ws : Nat → Window := fun i => if i = 0 then ciBeforeLit else ciBeforeLit.decline 8
    let optional : WindowRule := { Velar.vibhasaCeh with id := 8 }
    (∀ i < 2, Follows [Grammar.aciSet, Grammar.kuSet] (ws i) (ws (i + 1)))
      ∧ (optional.apply (ws 0)).length = 2 ∧ 8 ∈ (ws 1).cur.declined
      ∧ optional.apply (ws 2) = [ws 2] := by
  intro ws optional
  have hoffered : (optional.apply ciBeforeLit).length = 2 := by decide
  have hfirst : ciBeforeLit.decline 8 ∈ Grammar.kuSet.apply ciBeforeLit := by decide
  have hlater : ciBeforeLit.decline 8 ∈ Grammar.kuSet.apply (ciBeforeLit.decline 8) := by decide
  have hrun : ∀ i < 2, Follows [Grammar.aciSet, Grammar.kuSet] (ws i) (ws (i + 1)) := by
    intro i hi
    have hku : Grammar.kuSet ∈ [Grammar.aciSet, Grammar.kuSet] := by simp
    cases i with
    | zero => exact ⟨Grammar.kuSet, hku, hfirst⟩
    | succ i => exact ⟨Grammar.kuSet, hku, hlater⟩
  have hsets : ∀ set ∈ [Grammar.aciSet, Grammar.kuSet], ∀ r ∈ set.rules, r.KeepsDeclines :=
    fun set hset r hr => (Grammar.overlooksDeclines set hset r hr).keepsDeclines
  have hdeclined : 8 ∈ (ws 1).cur.declined := by decide
  obtain ⟨-, -, hleaves⟩ := declined_of_run hsets hrun
  exact ⟨hrun, hoffered, hdeclined,
    hleaves optional 1 2 (by decide) (by decide) hdeclined (Or.inr (Or.inr ⟨_, rfl⟩))⟩

end RuleSet

end Vyakarana
