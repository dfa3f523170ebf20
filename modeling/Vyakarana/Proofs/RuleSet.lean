import Vyakarana.Proofs.Evolution
import Vyakarana.RuleSet.OnState

/-!
# What rule sets yield

A rule set always yields: the window as it was, or the outcomes of one of its rules. Each outcome
is the window as it was, the window with the substitution carried out, or the window on which the
rule is recorded as declined. On states, one position after the other is worked on.

* `RuleSet.mem_apply` — the outcomes of a set
* `RuleSet.mem_applyAt`, `RuleSet.applyEach_induction` — the outcomes on states
-/

namespace Vyakarana

/-! ## Outcomes of a rule -/

/-- The most outcomes that a decision has. -/
def Decision.forks : Decision → Nat
  | .unchanged | .substitute _ => 1
  | .optional _ => 2

/-- The decision is to carry the substitution out, if need be after leaving it open. -/
def Decision.Offers (sub : Substitution) (d : Decision) : Prop :=
  d = .substitute sub ∨ d = .optional sub

namespace WindowRule

variable {id : RuleId} {w w' : Window} {d : Decision}

theorem outcomes_optional (id : RuleId) (w : Window) (sub : Substitution) :
    outcomes id w (.optional sub) = [w.withCur (w.cur.decline id)]
      ∨ outcomes id w (.optional sub)
        = [w.withCur (w.cur.decline id), w.withCur (sub.apply w.cur w.right)] := by
  by_cases h : (w.cur.isDeclined id || (sub.apply w.cur w.right).value == w.cur.value) = true
  · exact Or.inl (if_pos h)
  · exact Or.inr (if_neg h)

theorem outcomes_ne_nil (id : RuleId) (w : Window) (d : Decision) : outcomes id w d ≠ [] := by
  cases d with
  | unchanged => exact List.cons_ne_nil _ _
  | substitute sub => exact List.cons_ne_nil _ _
  | optional sub => rcases outcomes_optional id w sub with h | h <;> simp [h]

theorem length_outcomes_le (id : RuleId) (w : Window) (d : Decision) :
    (outcomes id w d).length ≤ d.forks := by
  cases d with
  | unchanged => exact Nat.le_refl _
  | substitute sub => exact Nat.le_refl _
  | optional sub => rcases outcomes_optional id w sub with h | h <;> simp [h, Decision.forks]

/-- An outcome is the window itself, the accepted substitution or the declined one. -/
theorem mem_outcomes (h : w' ∈ outcomes id w d) :
    w' = w ∨ (∃ sub, d.Offers sub ∧ w' = w.withCur (sub.apply w.cur w.right))
      ∨ ∃ sub, d = .optional sub ∧ w' = w.withCur (w.cur.decline id) := by
  cases d with
  | unchanged => exact Or.inl (List.mem_singleton.mp h)
  | substitute sub => exact Or.inr (Or.inl ⟨sub, Or.inl rfl, List.mem_singleton.mp h⟩)
  | optional sub =>
    have hcases : w' = w.withCur (w.cur.decline id)
        ∨ w' = w.withCur (sub.apply w.cur w.right) := by
      rcases outcomes_optional id w sub with heq | heq
      · rw [heq] at h
        exact Or.inl (List.mem_singleton.mp h)
      · rw [heq] at h
        simpa using h
    rcases hcases with hdeclined | haccepted
    · exact Or.inr (Or.inr ⟨sub, rfl, hdeclined⟩)
    · exact Or.inr (Or.inl ⟨sub, Or.inr rfl, haccepted⟩)

/-- The outcomes differ in the value of the term in the middle. -/
theorem nodup_values_outcomes (id : RuleId) (w : Window) (d : Decision) :
    ((outcomes id w d).map fun w' => w'.cur.value).Nodup := by
  cases d with
  | unchanged => exact List.pairwise_singleton _ _
  | substitute sub => exact List.pairwise_singleton _ _
  | optional sub =>
    simp only [outcomes]
    split
    · exact List.pairwise_singleton _ _
    · next hcond =>
      simp only [Bool.or_eq_true, not_or, beq_iff_eq] at hcond
      exact List.nodup_cons.mpr ⟨fun hmem => hcond.2 (List.mem_singleton.mp hmem).symm,
        List.pairwise_singleton _ _⟩

end WindowRule

/-! ## Outcomes of a set -/

namespace RuleSet

variable {set : RuleSet} {w w' : Window} {s t : State} {i n : Nat}

/-- Numbering changes identities only. -/
theorem exists_of_mem_number {id : RuleId} {rules : List WindowRule} {r : WindowRule}
    (h : r ∈ number id rules) : ∃ r₀ ∈ rules, r = { r₀ with id := r.id } := by
  induction rules generalizing id with
  | nil => simp [number] at h
  | cons r₀ rules ih =>
    rw [number] at h
    rcases List.mem_cons.mp h with rfl | h
    · exact ⟨r₀, List.mem_cons_self, rfl⟩
    · obtain ⟨r₁, hmem, heq⟩ := ih h
      exact ⟨r₁, List.mem_cons_of_mem _ hmem, heq⟩

/-- The window passes through, or one of the rules that apply decides. -/
theorem apply_cases (set : RuleSet) (w : Window) :
    set.apply w = [w] ∨ ∃ r ∈ set.rules, r.appliesTo w = true
      ∧ set.apply w = WindowRule.outcomes r.id w (r.decide w) := by
  unfold apply
  split
  · next r windows hwin =>
    obtain ⟨r₀, hmem, hchanges⟩ := List.exists_of_findSome?_eq_some hwin
    unfold changes? at hchanges
    split at hchanges
    · next hcond =>
      obtain ⟨rfl, rfl⟩ := Prod.mk.inj (Option.some.inj hchanges)
      have happlies : r₀.appliesTo w = true := (Bool.and_eq_true_iff.mp hcond).1
      refine Or.inr ⟨r₀, List.mem_reverse.mp hmem, happlies, ?_⟩
      rw [WindowRule.apply, if_pos happlies]
    · simp at hchanges
  · exact Or.inl rfl

/-- A window to which no rule applies stays. -/
theorem apply_of_not_applies {m : RuleId} {rules : List WindowRule}
    (hset : set.rules = number m rules) (h : ∀ r ∈ rules, r.appliesTo w = false) :
    set.apply w = [w] := by
  rcases set.apply_cases w with hpass | ⟨r, hr, happlies, -⟩
  · exact hpass
  · obtain ⟨r₀, hr₀, heq⟩ := exists_of_mem_number (hset ▸ hr)
    rw [heq] at happlies
    exact absurd happlies (Bool.eq_false_iff.mp (h r₀ hr₀))

theorem apply_ne_nil (set : RuleSet) (w : Window) : set.apply w ≠ [] := by
  rcases set.apply_cases w with h | ⟨r, -, -, h⟩
  · simp [h]
  · rw [h]
    exact WindowRule.outcomes_ne_nil _ _ _

theorem nodup_values_apply (set : RuleSet) (w : Window) :
    ((set.apply w).map fun w' => w'.cur.value).Nodup := by
  rcases set.apply_cases w with hw | ⟨r, -, -, hw⟩
  · rw [hw]
    exact List.pairwise_singleton _ _
  · rw [hw]
    exact WindowRule.nodup_values_outcomes _ _ _

theorem length_apply_le (hn : 0 < n) (h : ∀ r ∈ set.rules, ∀ w, (r.decide w).forks ≤ n)
    (w : Window) : (set.apply w).length ≤ n := by
  rcases set.apply_cases w with hw | ⟨r, hmem, -, hw⟩
  · rw [hw]
    exact hn
  · rw [hw]
    exact Nat.le_trans (WindowRule.length_outcomes_le _ _ _) (h r hmem w)

/-- No rule gives more than two outcomes. -/
theorem length_apply_le_two (set : RuleSet) (w : Window) : (set.apply w).length ≤ 2 := by
  refine length_apply_le Nat.two_pos ?_ w
  intro r _ v
  cases r.decide v with
  | unchanged => exact Nat.le_succ 1
  | substitute sub => exact Nat.le_succ 1
  | optional sub => exact Nat.le_refl 2

theorem mem_apply (h : w' ∈ set.apply w) :
    w' = w ∨ ∃ r ∈ set.rules, r.appliesTo w = true
      ∧ ((∃ sub, (r.decide w).Offers sub ∧ w' = w.withCur (sub.apply w.cur w.right))
        ∨ ∃ sub, r.decide w = .optional sub ∧ w' = w.withCur (w.cur.decline r.id)) := by
  rcases set.apply_cases w with hw | ⟨r, hmem, happlies, hw⟩
  · rw [hw] at h
    exact Or.inl (List.mem_singleton.mp h)
  · rw [hw] at h
    rcases WindowRule.mem_outcomes h with hsame | hchanged
    · exact Or.inl hsame
    · exact Or.inr ⟨r, hmem, happlies, hchanged⟩

/-! ## Outcomes on a state -/

theorem applyAt_ne_nil (set : RuleSet) (s : State) (i : Nat) : set.applyAt s i ≠ [] := by
  unfold applyAt
  split
  · simp
  · next w _ => simpa using set.apply_ne_nil w

theorem length_applyAt_le (h : ∀ w, (set.apply w).length ≤ n) (s : State) (i : Nat) :
    (set.applyAt s i).length ≤ n := by
  unfold applyAt
  split
  · next =>
    -- a window that passes through has one outcome, so `n` is not zero
    have w : Window := ⟨none, .plain [], none⟩
    exact Nat.le_trans (List.length_pos_iff.mpr (set.apply_ne_nil w)) (h w)
  · next w _ =>
    rw [List.length_map]
    exact h w

theorem mem_applyAt (h : t ∈ set.applyAt s i) :
    t = s ∨ ∃ w, Window.at? s i = some w ∧ ∃ w' ∈ set.apply w, t = s.replace i w'.cur := by
  unfold applyAt at h
  split at h
  · exact Or.inl (List.mem_singleton.mp h)
  · next w hw =>
    obtain ⟨w', hw', rfl⟩ := List.mem_map.mp h
    exact Or.inr ⟨w, hw, w', hw', rfl⟩

theorem ops_applyAt (h : t ∈ set.applyAt s i) : t.ops = s.ops := by
  rcases mem_applyAt h with rfl | ⟨w, -, w', -, rfl⟩
  · rfl
  · rfl

/-- What holds of the terms under the windows holds of the state. -/
theorem evolves_applyAt {id : RuleId} (ht : t ∈ set.applyAt s i)
    (h : ∀ w, s.terms[i]? = some w.cur → ∀ w' ∈ set.apply w,
      w.cur.Evolves id (s.find? .anga = some (w.cur, i)) w'.cur) : s.Evolves id t := by
  rcases mem_applyAt ht with rfl | ⟨w, hw, w', hw', rfl⟩
  · exact State.Evolves.refl _
  · have hcur := State.get?_of_at? hw
    exact State.evolves_replace hcur (h w hcur w' hw')

/-- A set that never forks gives one state, at however many positions it is applied. -/
theorem exists_applyEach_eq (h : ∀ w, (set.apply w).length ≤ 1) (s : State)
    (positions : List Nat) : ∃ t, set.applyEach [s] positions = [t] := by
  induction positions generalizing s with
  | nil => exact ⟨s, rfl⟩
  | cons i rest ih =>
    have hpos := List.length_pos_iff.mpr (set.applyAt_ne_nil s i)
    have hle := length_applyAt_le h s i
    obtain ⟨u, hu⟩ := List.length_eq_one_iff.mp (Nat.le_antisymm hle hpos)
    obtain ⟨t, ht⟩ := ih u
    refine ⟨t, ?_⟩
    rw [applyEach, List.flatMap_singleton, hu, ht]

/-- What every application keeps holds of every outcome. -/
theorem applyEach_induction {motive : State → Prop} {states : List State} {positions : List Nat}
    (hstep : ∀ i ∈ positions, ∀ s, motive s → ∀ t ∈ set.applyAt s i, motive t)
    (hstart : ∀ s ∈ states, motive s) (ht : t ∈ set.applyEach states positions) : motive t := by
  induction positions generalizing states with
  | nil => exact hstart t ht
  | cons i rest ih =>
    refine ih (fun j hj => hstep j (List.mem_cons_of_mem _ hj)) ?_ ht
    intro u hu
    obtain ⟨s, hs, hmem⟩ := List.mem_flatMap.mp hu
    exact hstep i List.mem_cons_self s (hstart s hs) u hmem

end RuleSet

end Vyakarana
