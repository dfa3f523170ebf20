import Mathlib.Order.CompleteLattice.Basic
import Mathlib.Data.ENat.Lattice
import Vyakarana.Proofs.Tree

/-!
# The search walks along the preorder

`Search.walk` keeps the open branches on a stack and stops at two limits. Its record is a prefix of
the preorder of the derivation tree, and what remains to be said is where the prefix ends.

* `map_node_walk` — the visited branches are the first nodes of the preorder
* `walk_stops` — the walk stops for want of nodes, of steps or of wanted leaves
* `leaves_lt_of_walk` — it does not stop later than the last wanted leaf
* `walk_exhausted_iff` — it is exhausted when no branch is left
-/

namespace Vyakarana

open Search

/-- The node that a branch of the stack stands for. -/
def Search.Branch.node (b : Branch) : Node := ⟨b.state, b.path.reverse⟩

namespace Pipeline

variable {p : Pipeline}

/-! ## Steps and firings -/

/-- A stage that fires yields something. -/
theorem successors_ne_nil {rules : List Rule} {s : State} {f : Firing}
    (h : fire? rules s = some f) : f.successors ≠ [] := by
  induction rules with
  | nil => simp [fire?] at h
  | cons r rules ih =>
    rw [fire?] at h
    split at h
    · exact ih h
    · next hne =>
      rw [← Option.some.inj h]
      exact hne

theorem step_eq_nil_iff {s : State} : p.step s = [] ↔ fire? p.stages s = none := by
  unfold step
  cases hf : fire? p.stages s with
  | none => simp
  | some f => simp [successors_ne_nil hf]

theorem isLeaf_node_iff {b : Branch} : p.isLeaf b.node = true ↔ fire? p.stages b.state = none := by
  rw [isLeaf, List.isEmpty_iff, ← step_eq_nil_iff]
  rfl

theorem children_node_of_fire {b : Branch} {f : Firing} (h : fire? p.stages b.state = some f) :
    p.children b.node = (b.extend f).map Branch.node := by
  simp [children, Branch.node, Branch.extend, step, h]

theorem children_node_of_none {b : Branch} (h : fire? p.stages b.state = none) :
    p.children b.node = [] := by
  simp [children, Branch.node, step, h]

/-- The number of leaves among the first nodes that are taken off a stack. -/
def leavesPopped (p : Pipeline) (k : Nat) (xs : List Node) : Nat :=
  (p.popped k xs).countP p.isLeaf

/-! ## What a walk visits -/

variable {maxResults steps found : Nat} {bs : List Branch}

@[simp] theorem visits_after (t : Trail) (v : Visit) : (t.after v).visits = v :: t.visits := rfl

@[simp] theorem ending_after (t : Trail) (v : Visit) : (t.after v).ending = t.ending := rfl

theorem length_walk_le : (walk p maxResults steps found bs).visits.length ≤ steps := by
  fun_induction walk p maxResults steps found bs with
  | case1 => simp
  | case2 => simp
  | case3 steps found b rest f hf ih => simpa using ih
  | case4 => simp
  | case5 steps found b rest hf hle ih => simpa using ih

/-- The visited branches are the first nodes of the preorder. -/
theorem map_node_walk :
    (walk p maxResults steps found bs).visits.map (fun v => v.branch.node)
      = p.popped (walk p maxResults steps found bs).visits.length (bs.map Branch.node) := by
  fun_induction walk p maxResults steps found bs with
  | case1 => simp
  | case2 => simp [popped]
  | case3 steps found b rest f hf ih =>
    rw [visits_after, List.map_cons, List.map_cons, List.length_cons, popped,
      children_node_of_fire hf, ← List.map_append, ih]
  | case4 => simp [popped]
  | case5 steps found b rest hf hle ih =>
    rw [visits_after, List.map_cons, List.map_cons, List.length_cons, popped,
      children_node_of_none hf, List.nil_append, ih]

/-- Each visit records what fired on its branch. -/
theorem fired_of_mem_walk {v : Visit} (hv : v ∈ (walk p maxResults steps found bs).visits) :
    v.fired = fire? p.stages v.branch.state := by
  fun_induction walk p maxResults steps found bs with
  | case1 => simp at hv
  | case2 => simp at hv
  | case3 steps found b rest f hf ih =>
    rcases List.mem_cons.mp hv with rfl | hv
    · exact hf.symm
    · exact ih hv
  | case4 steps found b rest hf =>
    rw [List.mem_singleton.mp hv]
    exact hf.symm
  | case5 steps found b rest hf hle ih =>
    rcases List.mem_cons.mp hv with rfl | hv
    · exact hf.symm
    · exact ih hv

/-- A visit ends a derivation when its node is a leaf. -/
theorem derivation?_of_fired {v : Visit} (h : v.fired = fire? p.stages v.branch.state) :
    v.derivation? = if p.isLeaf v.branch.node then some v.branch.node.derivation else none := by
  unfold Visit.derivation?
  cases hf : v.fired with
  | none =>
    rw [if_pos (isLeaf_node_iff.mpr (h.symm.trans hf))]
    rfl
  | some f =>
    rw [if_neg]
    rw [isLeaf_node_iff, ← h, hf]
    simp

theorem filterMap_derivation? {vs : List Visit}
    (h : ∀ v ∈ vs, v.fired = fire? p.stages v.branch.state) :
    vs.filterMap Visit.derivation?
      = ((vs.map (fun v => v.branch.node)).filter p.isLeaf).map Node.derivation := by
  induction vs with
  | nil => rfl
  | cons v vs ih =>
    have hv := derivation?_of_fired (h v List.mem_cons_self)
    have hvs := ih fun w hw => h w (List.mem_cons_of_mem _ hw)
    rw [List.map_cons]
    by_cases hl : p.isLeaf v.branch.node = true
    · rw [if_pos hl] at hv
      rw [List.filterMap_cons_some hv, List.filter_cons_of_pos hl, List.map_cons, hvs]
    · rw [if_neg hl] at hv
      rw [List.filterMap_cons_none hv, List.filter_cons_of_neg hl, hvs]

/-! ## Where a walk ends -/

/-- A walk is exhausted when it leaves no branch on the stack. -/
theorem walk_exhausted_iff :
    (walk p maxResults steps found bs).ending = .exhausted
      ↔ p.remaining (walk p maxResults steps found bs).visits.length (bs.map Branch.node) = [] := by
  fun_induction walk p maxResults steps found bs with
  | case1 => simp [remaining]
  | case2 => simp [remaining]
  | case3 steps found b rest f hf ih =>
    rw [ending_after, ih, visits_after, List.length_cons, List.map_cons, remaining,
      children_node_of_fire hf, List.map_append]
  | case4 steps found b rest hf =>
    cases rest <;> simp [remaining, children_node_of_none hf]
  | case5 steps found b rest hf hle ih =>
    rw [ending_after, ih, visits_after, List.length_cons, List.map_cons, remaining,
      children_node_of_none hf, List.nil_append]

theorem leavesPopped_succ_of_fire {b : Branch} {rest : List Branch} {f : Firing}
    (hf : fire? p.stages b.state = some f) (k : Nat) :
    p.leavesPopped (k + 1) ((b :: rest).map Branch.node)
      = p.leavesPopped k ((b.extend f ++ rest).map Branch.node) := by
  have hl : ¬ p.isLeaf b.node = true := by rw [isLeaf_node_iff, hf]; simp
  rw [leavesPopped, List.map_cons, popped, children_node_of_fire hf, ← List.map_append,
    List.countP_cons_of_neg hl]
  rfl

theorem leavesPopped_succ_of_none {b : Branch} (rest : List Branch)
    (hf : fire? p.stages b.state = none) (k : Nat) :
    p.leavesPopped (k + 1) ((b :: rest).map Branch.node)
      = p.leavesPopped k (rest.map Branch.node) + 1 := by
  rw [leavesPopped, List.map_cons, popped, children_node_of_none hf, List.nil_append,
    List.countP_cons_of_pos (isLeaf_node_iff.mpr hf)]
  rfl

/-- A walk stops when no branch is left, or no step, or no further result is wanted. -/
theorem walk_stops :
    p.remaining (walk p maxResults steps found bs).visits.length (bs.map Branch.node) = []
      ∨ (walk p maxResults steps found bs).visits.length = steps
      ∨ max 1 (maxResults - found)
          ≤ p.leavesPopped (walk p maxResults steps found bs).visits.length
              (bs.map Branch.node) := by
  fun_induction walk p maxResults steps found bs with
  | case1 => simp [remaining]
  | case2 => simp
  | case3 steps found b rest f hf ih =>
    rw [visits_after, List.length_cons, leavesPopped_succ_of_fire hf, List.map_cons, remaining,
      children_node_of_fire hf, ← List.map_append, Nat.add_right_cancel_iff]
    exact ih
  | case4 steps found b rest hf hle =>
    have hone := leavesPopped_succ_of_none rest hf 0
    refine Or.inr (Or.inr ?_)
    rw [List.length_singleton, hone]
    omega
  | case5 steps found b rest hf hle ih =>
    rw [visits_after, List.length_cons, leavesPopped_succ_of_none rest hf, List.map_cons, remaining,
      children_node_of_none hf, List.nil_append, Nat.add_right_cancel_iff]
    rcases ih with ih | ih | ih
    · exact Or.inl ih
    · exact Or.inr (Or.inl ih)
    · exact Or.inr (Or.inr (by omega))

/-- Before the last visit of a walk a further result is wanted. -/
theorem leaves_lt_of_walk {j : Nat}
    (hj : j < (walk p maxResults steps found bs).visits.length) :
    p.leavesPopped j (bs.map Branch.node) < max 1 (maxResults - found) := by
  fun_induction walk p maxResults steps found bs generalizing j with
  | case1 => simp at hj
  | case2 => simp at hj
  | case3 steps found b rest f hf ih =>
    cases j with
    | zero => simp [leavesPopped, popped]
    | succ j =>
      rw [leavesPopped_succ_of_fire hf]
      exact ih (by simpa using hj)
  | case4 =>
    obtain rfl : j = 0 := by simpa using hj
    simp [leavesPopped, popped]
  | case5 steps found b rest hf hle ih =>
    cases j with
    | zero => simp [leavesPopped, popped]
    | succ j =>
      have := ih (j := j) (by simpa using hj)
      rw [leavesPopped_succ_of_none rest hf]
      omega

/-! ## The search from a start state -/

section Root

variable (p) (limits : Limits) (start : State)

theorem map_node_search :
    (p.search limits start).visits.map (fun v => v.branch.node)
      = p.popped (p.search limits start).visits.length [⟨start, []⟩] :=
  map_node_walk

theorem derivations_derive :
    (p.derive limits start).derivations
      = ((p.popped (p.search limits start).visits.length [⟨start, []⟩]).filter p.isLeaf).map
          Node.derivation := by
  rw [← map_node_search]
  exact filterMap_derivation? fun v hv => fired_of_mem_walk hv

theorem truncated_derive_eq_false_iff :
    (p.derive limits start).truncated = false
      ↔ p.remaining (p.search limits start).visits.length [⟨start, []⟩] = [] := by
  have hex : (p.search limits start).ending = .exhausted
      ↔ p.remaining (p.search limits start).visits.length [⟨start, []⟩] = [] := walk_exhausted_iff
  rw [← hex]
  simp [derive, Trail.outcome]

theorem leavesPopped_le_of_search {j : Nat} (hj : j < (p.search limits start).visits.length) :
    p.leavesPopped j [⟨start, []⟩] < max 1 limits.maxResults :=
  leaves_lt_of_walk hj

theorem search_stops :
    p.remaining (p.search limits start).visits.length [⟨start, []⟩] = []
      ∨ (p.search limits start).visits.length = limits.maxSteps
      ∨ max 1 limits.maxResults
          ≤ p.leavesPopped (p.search limits start).visits.length [⟨start, []⟩] :=
  walk_stops

end Root

/-! ## The place of a leaf -/

/-- The place in the preorder, counted from one, of the `m`th leaf of the tree of `x`. -/
noncomputable def leafPosition (p : Pipeline) (x : Node) (m : Nat) : ℕ∞ :=
  ⨅ (k : Nat) (_ : m ≤ ((p.preorder x).take k).countP p.isLeaf), (k : ℕ∞)

theorem leafPosition_le {x : Node} {m k : Nat} (h : m ≤ p.leavesPopped k [x]) :
    p.leafPosition x m ≤ k := by
  refine iInf₂_le k ?_
  rw [take_preorder]
  exact h

theorem le_leafPosition {x : Node} {m k : Nat} (h : ∀ j < k, p.leavesPopped j [x] < m) :
    (k : ℕ∞) ≤ p.leafPosition x m := by
  refine le_iInf₂ fun j hj => ?_
  rw [take_preorder] at hj
  rw [Nat.cast_le]
  by_contra hlt
  exact Nat.not_lt.mpr hj (h j (Nat.not_le.mp hlt))

theorem le_length'_preorder {x : Node} {k : Nat} (h : (p.popped k [x]).length = k) :
    (k : ℕ∞) ≤ (p.preorder x).length' := by
  cases k with
  | zero => simp
  | succ k =>
    by_contra hlt
    have hle : (p.preorder x).length' ≤ k := by
      rw [not_le, Nat.cast_add, Nat.cast_one] at hlt
      exact Order.le_of_lt_add_one hlt
    rw [length'_preorder_le_iff, remaining_eq_nil_iff] at hle
    omega

/-- **The search is the depth-first enumeration of the derivation tree, cut off by the limits.**

It expands the first nodes of the preorder: as many as there are steps, or nodes, or as it takes to
meet the last wanted leaf, whichever is least. -/
theorem derive_eq_preorder (p : Pipeline) (limits : Limits) (start : State) :
    ∃ k : Nat,
      (k : ℕ∞) = min (limits.maxSteps : ℕ∞)
        (min (p.preorder ⟨start, []⟩).length'
          (p.leafPosition ⟨start, []⟩ (max 1 limits.maxResults)))
      ∧ (p.derive limits start).expansions = k
      ∧ (p.derive limits start).derivations
          = (((p.preorder ⟨start, []⟩).take k).filter p.isLeaf).map Node.derivation
      ∧ ((p.derive limits start).truncated = true
          ↔ (k : ℕ∞) < (p.preorder ⟨start, []⟩).length') := by
  have hlen := congrArg List.length (p.map_node_search limits start)
  rw [List.length_map] at hlen
  refine ⟨(p.search limits start).visits.length, le_antisymm ?_ ?_, rfl, ?_, ?_⟩
  · refine le_min (Nat.cast_le.mpr length_walk_le) (le_min (le_length'_preorder hlen.symm) ?_)
    exact le_leafPosition fun j hj => p.leavesPopped_le_of_search limits start hj
  · rcases p.search_stops limits start with hrem | hsteps | hleaves
    · exact min_le_of_right_le (min_le_of_left_le ((p.length'_preorder_le_iff _ _).mpr hrem))
    · exact min_le_of_left_le (Nat.cast_le.mpr hsteps.ge)
    · exact min_le_of_right_le (min_le_of_right_le (leafPosition_le hleaves))
  · rw [take_preorder]
    exact p.derivations_derive limits start
  · rw [← not_le, length'_preorder_le_iff, ← truncated_derive_eq_false_iff]
    simp

/-! ## Finite trees -/

section Finite

variable {f : Node → List Node} (hf : ∀ x, f x = x :: (p.children x).flatMap f)
include hf

theorem popped_append_remaining (k : Nat) (xs : List Node) :
    p.popped k xs ++ (p.remaining k xs).flatMap f = xs.flatMap f := by
  induction k generalizing xs with
  | zero => simp [popped, remaining]
  | succ k ih =>
    cases xs with
    | nil => simp [remaining]
    | cons x xs =>
      rw [popped, remaining, List.cons_append, ih, List.flatMap_append, List.flatMap_cons, hf x,
        List.cons_append]

/-- A finite tree has a leaf. -/
theorem exists_leaf (x : Node) : ∃ y ∈ f x, p.isLeaf y = true := by
  induction hn : (f x).length using Nat.strongRecOn generalizing x with
  | _ n ih =>
    cases hc : p.children x with
    | nil =>
      refine ⟨x, by rw [hf x]; exact List.mem_cons_self, ?_⟩
      rw [isLeaf, List.isEmpty_iff]
      exact List.map_eq_nil_iff.mp hc
    | cons c cs =>
      have hx : f x = x :: (f c ++ cs.flatMap f) := by rw [hf x, hc, List.flatMap_cons]
      obtain ⟨y, hy, hl⟩ := ih (f c).length (by rw [← hn, hx]; simp) c rfl
      exact ⟨y, by rw [hx]; simp [hy], hl⟩

/-- With limits that are no less than the numbers of nodes and leaves, a search of a finite tree
finds every leaf. -/
theorem derive_eq_of_finite {limits : Limits} {start : State}
    (hsteps : (f ⟨start, []⟩).length ≤ limits.maxSteps)
    (hresults : (f ⟨start, []⟩).countP p.isLeaf ≤ limits.maxResults) :
    p.derive limits start
      = { derivations := ((f ⟨start, []⟩).filter p.isLeaf).map Node.derivation
          expansions := (f ⟨start, []⟩).length
          truncated := false } := by
  have hsplit := popped_append_remaining hf (p.search limits start).visits.length [⟨start, []⟩]
  rw [List.flatMap_singleton] at hsplit
  have hlen := congrArg List.length (p.map_node_search limits start)
  rw [List.length_map] at hlen
  have hrem : p.remaining (p.search limits start).visits.length [⟨start, []⟩] = [] := by
    rcases p.search_stops limits start with hrem | hk | hleaves
    · exact hrem
    · rw [remaining_eq_nil_iff, p.popped_eq_take_of_eq hf, List.flatMap_singleton,
        List.length_take]
      omega
    · -- every leaf was met, so no branch is left: it would lead to another leaf
      have hcount := congrArg (List.countP p.isLeaf) hsplit
      rw [List.countP_append] at hcount
      rw [leavesPopped] at hleaves
      cases hr : p.remaining (p.search limits start).visits.length [⟨start, []⟩] with
      | nil => rfl
      | cons y ys =>
        exfalso
        obtain ⟨z, hz, hl⟩ := exists_leaf hf y
        have hpos : 0 < (List.flatMap f (y :: ys)).countP p.isLeaf := by
          rw [List.countP_pos_iff]
          exact ⟨z, by rw [List.flatMap_cons]; exact List.mem_append_left _ hz, hl⟩
        rw [hr] at hcount
        omega
  rw [hrem, List.flatMap_nil, List.append_nil] at hsplit
  have htrunc := (p.truncated_derive_eq_false_iff limits start).mpr hrem
  have hder := p.derivations_derive limits start
  rw [hsplit] at hder hlen
  have hexp : (p.derive limits start).expansions = (f ⟨start, []⟩).length := hlen
  rw [← hder, ← hexp, ← htrunc]

/-- A search of a finite tree that is not truncated finds a leaf. -/
theorem derivations_ne_nil_of_finite {limits : Limits} {start : State}
    (htrunc : (p.derive limits start).truncated = false) :
    (p.derive limits start).derivations ≠ [] := by
  rw [p.truncated_derive_eq_false_iff limits start] at htrunc
  have hall := popped_append_remaining hf (p.search limits start).visits.length [⟨start, []⟩]
  rw [htrunc, List.flatMap_nil, List.append_nil, List.flatMap_singleton] at hall
  obtain ⟨leaf, hmem, hleaf⟩ := exists_leaf hf (⟨start, []⟩ : Node)
  rw [p.derivations_derive limits start, hall]
  exact List.ne_nil_of_mem (List.mem_map.mpr ⟨leaf, List.mem_filter.mpr ⟨hmem, hleaf⟩, rfl⟩)

end Finite

end Pipeline

end Vyakarana
