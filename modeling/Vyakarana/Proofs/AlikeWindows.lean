import Vyakarana.Proofs.RuleSet
import Vyakarana.Stem.BeforeVowel
import Vyakarana.Stem.Velar

/-!
# Windows that the rules do not tell apart

The rules on windows look at the left neighbour only for whether it is an abhyāsa. So windows that
agree on that, on the term in the middle and on its right neighbour have the same outcomes, but for
the left neighbour that they show.

* `Window.Alike` — windows that agree in this way
* `RuleSet.map_cur_apply` — what a set makes of the term in the middle
-/

namespace Vyakarana

/-! ## Alike windows -/

/-- The windows show the same term and the same right neighbour, and to the left of both there is
an abhyāsa or of neither. -/
structure Window.Alike (w v : Window) : Prop where
  cur : v.cur = w.cur
  right : v.right = w.right
  left : v.left.any (·.hasTag .abhyasa) = w.left.any (·.hasTag .abhyasa)

namespace WindowRule

variable {id : RuleId} {w v w' : Window} {d : Decision} {r : WindowRule}

/-- The rule does not tell alike windows apart. -/
structure SeesAlike (r : WindowRule) : Prop where
  applies : ∀ {w v : Window}, w.Alike v → r.appliesTo v = r.appliesTo w
  decides : ∀ {w v : Window}, w.Alike v → r.decide v = r.decide w

/-- The only question that may be asked about the left neighbour is whether it is an abhyāsa. -/
theorem appliesTo_congr (hleft : r.left = none ∨ r.left = some (.hasTag .abhyasa))
    (h : w.Alike v) : r.appliesTo v = r.appliesTo w := by
  have hholds : holds r.left v.left = holds r.left w.left := by
    rcases hleft with hnone | hsome
    · rw [hnone]
      rfl
    · rw [hsome]
      exact h.left
  rw [appliesTo, hholds, h.cur, h.right, appliesTo]

/-- An outcome is the window with another term in the middle. -/
theorem eq_withCur_of_mem_outcomes (h : w' ∈ outcomes id w d) : w' = w.withCur w'.cur := by
  rcases mem_outcomes h with rfl | ⟨sub, -, rfl⟩ | ⟨sub, -, rfl⟩
  · rfl
  · rfl
  · rfl

theorem map_cur_outcomes (h : w.Alike v) (id : RuleId) (d : Decision) :
    (outcomes id v d).map Window.cur = (outcomes id w d).map Window.cur := by
  cases d with
  | unchanged => simp [outcomes, h.cur]
  | substitute sub => simp [outcomes, Window.withCur, h.cur, h.right]
  | optional sub =>
    simp only [outcomes, h.cur, h.right]
    split
    · rfl
    · rfl

theorem map_cur_apply (hr : r.SeesAlike) (h : w.Alike v) :
    (r.apply v).map Window.cur = (r.apply w).map Window.cur := by
  rw [apply, apply, hr.applies h, hr.decides h]
  split
  · exact map_cur_outcomes h r.id _
  · simp [h.cur]

/-- Whether a rule changes a window is seen from the terms in the middle. -/
theorem any_ne_apply (r : WindowRule) (w : Window) :
    (r.apply w).any (· != w) = ((r.apply w).map Window.cur).any (· != w.cur) := by
  have hmem : ∀ w' ∈ r.apply w, w' = w.withCur w'.cur := by
    intro w' hw'
    rw [apply] at hw'
    split at hw'
    · exact eq_withCur_of_mem_outcomes hw'
    · rw [List.mem_singleton.mp hw']
      rfl
  rw [List.any_map, Bool.eq_iff_iff, List.any_eq_true, List.any_eq_true]
  refine exists_congr fun w' => and_congr_right fun hw' => ?_
  have hiff : w' = w ↔ w'.cur = w.cur := by
    constructor
    · rintro rfl
      rfl
    · intro hcur
      rw [hmem w' hw', hcur]
      rfl
  simp [hiff]

end WindowRule

namespace RuleSet

variable {set : RuleSet} {w v : Window}

theorem findSome?_eq_of_forall_mem {α β : Type} {f g : α → Option β} {xs : List α}
    (h : ∀ x ∈ xs, f x = g x) : xs.findSome? f = xs.findSome? g := by
  induction xs with
  | nil => rfl
  | cons x xs ih =>
    rw [List.findSome?_cons, List.findSome?_cons, h x List.mem_cons_self]
    cases g x with
    | none => exact ih fun y hy => h y (List.mem_cons_of_mem x hy)
    | some b => rfl

/-- The terms that a rule makes of the middle one, if it changes it. -/
theorem map_cur_changes? {r : WindowRule} (hr : r.SeesAlike) (h : w.Alike v) :
    (changes? v r).map (fun won => won.2.map Window.cur)
      = (changes? w r).map fun won => won.2.map Window.cur := by
  have hcur := WindowRule.map_cur_apply hr h
  have hsame : (r.appliesTo v && (r.apply v).any (· != v))
      = (r.appliesTo w && (r.apply w).any (· != w)) := by
    rw [WindowRule.any_ne_apply, WindowRule.any_ne_apply, hcur, h.cur, hr.applies h]
  rw [changes?, changes?, hsame]
  split
  · exact congrArg some hcur
  · rfl

theorem map_cur_apply_eq (set : RuleSet) (w : Window) :
    (set.apply w).map Window.cur
      = ((set.winner? w).map fun won => won.2.map Window.cur).getD [w.cur] := by
  unfold apply
  cases set.winner? w with
  | none => rfl
  | some won => rfl

/-- **What a set makes of the term in the middle is the same for alike windows.** -/
theorem map_cur_apply (hset : ∀ r ∈ set.rules, r.SeesAlike) (h : w.Alike v) :
    (set.apply v).map Window.cur = (set.apply w).map Window.cur := by
  have hwon : (set.winner? v).map (fun won => won.2.map Window.cur)
      = (set.winner? w).map fun won => won.2.map Window.cur := by
    rw [winner?, winner?, List.map_findSome?, List.map_findSome?]
    exact findSome?_eq_of_forall_mem fun r hr =>
      map_cur_changes? (hset r (List.mem_reverse.mp hr)) h
  rw [map_cur_apply_eq, map_cur_apply_eq, hwon, h.cur]

theorem seesAlike_of_rules_eq {n : RuleId} {rules : List WindowRule}
    (hset : set.rules = number n rules) (h : ∀ r ∈ rules, r.SeesAlike) :
    ∀ r ∈ set.rules, r.SeesAlike := by
  intro r hr
  obtain ⟨r₀, hr₀, heq⟩ := exists_of_mem_number (hset ▸ hr)
  rw [heq]
  exact ⟨(h r₀ hr₀).applies, (h r₀ hr₀).decides⟩

end RuleSet

/-! ## The rules that there are -/

namespace BeforeVowel

theorem meetsSavarna_congr {w v : Window} (h : w.Alike v) : meetsSavarna v = meetsSavarna w := by
  rw [meetsSavarna, meetsSavarna, h.cur, h.right]

theorem isAnekacAsamyoga_congr {w v : Window} (h : w.Alike v) :
    isAnekacAsamyoga v = isAnekacAsamyoga w := by
  rw [isAnekacAsamyoga, isAnekacAsamyoga, h.cur, h.left]

theorem seesAlike : ∀ r ∈ rules, r.SeesAlike := by
  intro r hr
  simp only [rules, List.mem_cons, List.not_mem_nil, or_false] at hr
  rcases hr with rfl | rfl | rfl | rfl | rfl
  · refine ⟨WindowRule.appliesTo_congr (Or.inl rfl), fun h => ?_⟩
    simp only [iyanUvan, h.cur]
  · refine ⟨WindowRule.appliesTo_congr (Or.inl rfl), fun h => ?_⟩
    simp only [abhyasaIyanUvan, meetsSavarna_congr h, h.cur]
  · exact ⟨WindowRule.appliesTo_congr (Or.inl rfl), fun _ => rfl⟩
  · refine ⟨WindowRule.appliesTo_congr (Or.inl rfl), fun h => ?_⟩
    simp only [anekacYan, isAnekacAsamyoga_congr h]
  · refine ⟨WindowRule.appliesTo_congr (Or.inl rfl), fun h => ?_⟩
    simp only [bhuvoVuk, h.cur]

end BeforeVowel

namespace Velar

theorem seesAlike : ∀ r ∈ rules, r.SeesAlike := by
  intro r hr
  simp only [rules, List.mem_cons, List.not_mem_nil, or_false] at hr
  rcases hr with rfl | rfl | rfl | rfl
  all_goals exact ⟨WindowRule.appliesTo_congr (Or.inr rfl), fun _ => rfl⟩

end Velar

end Vyakarana
