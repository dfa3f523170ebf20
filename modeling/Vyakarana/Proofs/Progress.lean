import Mathlib.Algebra.Ring.GeomSum
import Mathlib.Order.CompletePartialOrder
import Vyakarana.Proofs.Gates
import Vyakarana.Proofs.Schedule

/-!
# Progress

A stage behind a `once` gate records an operation whenever it fires. If no body forgets an operation
again, the recorded operations grow with every step. There are six of them, so every path is short
and every search comes to an end, whatever the stages do to the terms.

* `Rule.Advances` — a rule that records an operation for good
* `Pipeline.descends_of_advances` — every step leaves fewer operations to be attempted
* `Pipeline.Path.nodup_firings` — no stage fires twice on a path
* `Pipeline.paths_and_search_bounded` — the bounds on paths and searches
-/

namespace Vyakarana

/-! ## What is left to attempt -/

namespace State

variable {s t : State}

/-- The operations attempted so far. -/
def attempted (s : State) : Set Operation := {op | op ∈ s.ops}

/-- The number of operations that are left to be attempted. -/
def left (s : State) : Nat := 6 - s.ops.size

theorem size_ops_le (s : State) : s.ops.size ≤ 6 := by
  have hall : s.ops.toList ⊆ Vocabulary.all := fun op _ => by cases op <;> decide
  exact s.ops.nodup_toList.length_le_of_subset hall

theorem size_ops_lt (h : s.attempted ⊂ t.attempted) : s.ops.size < t.ops.size := by
  obtain ⟨hsub, op, hnew, hold⟩ := Set.ssubset_iff_exists.mp h
  -- the new operation and the old ones are all among the operations of `t`
  have hnodup : (op :: s.ops.toList).Nodup := List.nodup_cons.mpr ⟨hold, s.ops.nodup_toList⟩
  have hle := hnodup.length_le_of_subset (List.cons_subset.mpr ⟨hnew, fun _ hx => hsub hx⟩)
  exact hle

theorem left_lt (h : s.attempted ⊂ t.attempted) : t.left < s.left := by
  have hlt := size_ops_lt h
  have hle := t.size_ops_le
  unfold left
  omega

end State

/-! ## Rules that record for good -/

namespace Rule

variable {r : Rule} {op : Operation} {s t : State}

/-- The rule has a `once` gate, and its body forgets no operation. -/
structure Advances (r : Rule) : Prop where
  gated : ∃ op, Gate.once op ∈ r.gates
  keeps : ∀ {s t : State}, t ∈ r.body s → s.attempted ⊆ t.attempted

theorem mem_produces_iff : op ∈ r.produces ↔ Gate.once op ∈ r.gates := by
  induction r with
  | plain => simp [produces, gates]
  | once inner need ih => simp [produces, gates, ih, or_comm]
  | require inner need ih => simp [produces, gates, ih]

/-- What a rule yields, its body yields from the state with the operations of its gates. -/
theorem mem_body_of_mem_apply (h : t ∈ r.apply s) :
    r.IsOpen s.ops ∧ t ∈ r.body (s.record r.produces) := by
  have hopen := isOpen_of_apply_ne_nil (List.ne_nil_of_mem h)
  rw [apply_of_isOpen hopen] at h
  exact ⟨hopen, h⟩

theorem length_apply_le {b : Nat} (h : ∀ s, (r.body s).length ≤ b) (s : State) :
    (r.apply s).length ≤ b := by
  by_cases hopen : r.IsOpen s.ops
  · rw [apply_of_isOpen hopen]
    exact h _
  · rw [apply_of_not_isOpen hopen]
    exact Nat.zero_le b

/-- What was recorded stays, and the operations of the `once` gates are added to it. -/
theorem Advances.attempted_subset (h : r.Advances) (ht : t ∈ r.apply s) :
    s.attempted ⊆ t.attempted ∧ ∀ op ∈ r.produces, op ∈ t.ops := by
  have hsub := h.keeps (mem_body_of_mem_apply ht).2
  exact ⟨fun op hop => hsub (OrderedSet.mem_insertAll.mpr (Or.inl hop)),
    fun op hop => hsub (OrderedSet.mem_insertAll.mpr (Or.inr hop))⟩

/-- An operation is recorded that was not recorded before. -/
theorem Advances.attempted_ssubset (h : r.Advances) (ht : t ∈ r.apply s) :
    s.attempted ⊂ t.attempted := by
  obtain ⟨hsub, hrecorded⟩ := h.attempted_subset ht
  obtain ⟨op, hgate⟩ := h.gated
  have hop := mem_produces_iff.mpr hgate
  have hfresh := (mem_body_of_mem_apply ht).1.fresh op hop
  exact Set.ssubset_iff_exists.mpr ⟨hsub, op, hrecorded op hop, hfresh⟩

end Rule

namespace Pipeline

variable {p : Pipeline} {s t : State} {steps : List Step} {stage : String}

/-! ## The stages that fire -/

/-- The position of the stage that fires on a state, or the number of stages if none does. -/
def firing (p : Pipeline) (s : State) : Nat := p.stages.findIdx fun r => !(r.apply s).isEmpty

/-- The positions of the stages that fire along a path. -/
def firings (p : Pipeline) : State → List Step → List Nat
  | _, [] => []
  | s, a :: steps => p.firing s :: firings p a.state steps

theorem fire?_eq (rules : List Rule) (s : State) :
    fire? rules s = (rules[rules.findIdx fun r => !(r.apply s).isEmpty]?).map
      fun r => ⟨r.name, r.apply s⟩ := by
  induction rules with
  | nil => rfl
  | cons r rules ih =>
    rw [fire?, List.findIdx_cons]
    cases hr : r.apply s with
    | nil => simpa [hr] using ih
    | cons t ts => simp [hr]

/-- A step is taken by the stage that fires. -/
theorem step_eq (p : Pipeline) (s : State) :
    p.step s = match p.stages[p.firing s]? with
      | some r => (r.apply s).map (r.name, ·)
      | none => [] := by
  rw [step, fire?_eq, firing]
  cases p.stages[p.stages.findIdx fun r => !(r.apply s).isEmpty]? with
  | none => rfl
  | some r => rfl

theorem exists_of_mem_step (h : (stage, t) ∈ p.step s) :
    ∃ r, p.stages[p.firing s]? = some r ∧ r.name = stage ∧ t ∈ r.apply s := by
  rw [step_eq] at h
  cases hr : p.stages[p.firing s]? with
  | none => simp [hr] at h
  | some r =>
    simp only [hr, List.mem_map, Prod.mk.injEq] at h
    obtain ⟨_, ht, hname, rfl⟩ := h
    exact ⟨r, rfl, hname, ht⟩

/-- The stages at the positions have the names that the steps record. -/
theorem Path.name_firings (h : p.Path s steps t) :
    (p.firings s steps).map (fun i => p.stages[i]?.map Rule.name)
      = steps.map fun a => some a.stage := by
  induction h with
  | refl => rfl
  | step first _ ih =>
    obtain ⟨r, hr, hname, -⟩ := exists_of_mem_step first
    rw [firings, List.map_cons, List.map_cons, ih, hr, Option.map_some, hname]

/-! ## Paths -/

section Advances

variable (h : ∀ r ∈ p.stages, r.Advances)

include h

theorem attempted_ssubset_of_mem_step {a : String × State} (ha : a ∈ p.step s) :
    s.attempted ⊂ a.2.attempted := by
  obtain ⟨r, hr, -, ht⟩ := exists_of_mem_step ha
  exact (h r (List.mem_of_getElem? hr)).attempted_ssubset ht

/-- Every step leaves fewer operations to be attempted. -/
theorem descends_of_advances : p.Descends State.left :=
  fun _ _ ha => State.left_lt (attempted_ssubset_of_mem_step h ha)

theorem Path.isChain_attempted (hp : p.Path s steps t) :
    (s :: steps.map Step.state).IsChain fun u v => u.attempted ⊂ v.attempted := by
  induction hp with
  | refl s => exact List.isChain_singleton s
  | step first _ ih =>
    exact List.isChain_cons_cons.mpr ⟨attempted_ssubset_of_mem_step h first, ih⟩

/-- What was recorded at the start of a path is recorded at its end. -/
theorem Path.attempted_subset (hp : p.Path s steps t) : s.attempted ⊆ t.attempted := by
  induction hp with
  | refl => exact subset_rfl
  | step first _ ih => exact (attempted_ssubset_of_mem_step h first).subset.trans ih

theorem Path.length_le (hp : p.Path s steps t) : steps.length ≤ s.left := by
  induction hp with
  | refl => exact Nat.zero_le _
  | @step s t u stage steps first _ ih =>
    have hlt : t.left < s.left := descends_of_advances h _ _ first
    rw [List.length_cons]
    omega

/-- A stage does not fire once an operation is recorded that it records itself. -/
theorem Path.not_mem_firings (hp : p.Path s steps t) {i : Nat} {r : Rule} {op : Operation}
    (hr : p.stages[i]? = some r) (hop : op ∈ r.produces) (hs : op ∈ s.ops) :
    i ∉ p.firings s steps := by
  induction hp with
  | refl => exact List.not_mem_nil
  | step first _ ih =>
    obtain ⟨r', hr', -, ht⟩ := exists_of_mem_step first
    have hsub := (attempted_ssubset_of_mem_step h first).subset
    rw [firings, List.mem_cons, not_or]
    refine ⟨?_, ih (hsub hs)⟩
    rintro rfl
    obtain rfl := Option.some.inj (hr.symm.trans hr')
    exact (Rule.mem_body_of_mem_apply ht).1.fresh op hop hs

/-- No stage fires twice on a path. -/
theorem Path.nodup_firings (hp : p.Path s steps t) : (p.firings s steps).Nodup := by
  induction hp with
  | refl => exact List.nodup_nil
  | step first rest ih =>
    obtain ⟨r, hr, -, ht⟩ := exists_of_mem_step first
    have hadvances := h r (List.mem_of_getElem? hr)
    obtain ⟨op, hgate⟩ := hadvances.gated
    have hop := Rule.mem_produces_iff.mpr hgate
    refine List.nodup_cons.mpr ⟨?_, ih⟩
    -- the rest of the path starts with an operation of the stage recorded
    exact rest.not_mem_firings h hr hop ((hadvances.attempted_subset ht).2 op hop)

end Advances

/-! ## Searches -/

theorem length_children_le {b : Nat} (h : ∀ r ∈ p.stages, ∀ s, (r.body s).length ≤ b) (x : Node) :
    (p.children x).length ≤ b := by
  rw [children, List.length_map, step_eq]
  cases hr : p.stages[p.firing x.state]? with
  | none => exact Nat.zero_le b
  | some r =>
    rw [List.length_map]
    exact Rule.length_apply_le (h r (List.mem_of_getElem? hr)) x.state

/-- A tree in which every node has at most `b` children, cut at a depth. -/
theorem length_enumerate_le {b : Nat} (h : ∀ x, (p.children x).length ≤ b) (depth : Nat)
    (x : Node) : (p.enumerate depth x).length ≤ ∑ i ∈ Finset.range depth, b ^ i := by
  induction depth generalizing x with
  | zero => exact Nat.zero_le _
  | succ depth ih =>
    have hsum := sum_map_le fun y (_ : y ∈ p.children x) => ih y
    have hmul := Nat.mul_le_mul_right (∑ i ∈ Finset.range depth, b ^ i) (h x)
    -- the node itself, and below it at most `b` trees that are cut one level earlier
    rw [enumerate, List.length_cons, List.length_flatMap, geom_sum_succ]
    omega

/-- **Stages that record for good come to an end.** Along every path the recorded operations grow
with each step, no stage fires twice, and there are no more steps than operations are left. A
search with limits that are no less than the size of a tree of that height is not truncated. -/
theorem paths_and_search_bounded (h : ∀ r ∈ p.stages, r.Advances) {b : Nat}
    (hforks : ∀ r ∈ p.stages, ∀ s, (r.body s).length ≤ b) (s : State) :
    (∀ steps t, p.Path s steps t →
      (s :: steps.map Step.state).IsChain (fun u v => u.attempted ⊂ v.attempted)
      ∧ (p.firings s steps).Nodup
      ∧ (p.firings s steps).map (fun i => p.stages[i]?.map Rule.name)
        = steps.map (fun a => some a.stage)
      ∧ steps.length ≤ 6 - s.ops.size)
    ∧ ∀ limits : Limits, ∑ i ∈ Finset.range (6 - s.ops.size + 1), b ^ i ≤ limits.maxSteps →
      ∑ i ∈ Finset.range (6 - s.ops.size + 1), b ^ i ≤ limits.maxResults →
      (p.derive limits s).truncated = false := by
  constructor
  · intro steps t hp
    exact ⟨hp.isChain_attempted h, hp.nodup_firings h, hp.name_firings, hp.length_le h⟩
  · intro limits hsteps hresults
    have htree : (p.tree State.left ⟨s, []⟩).length
        ≤ ∑ i ∈ Finset.range (6 - s.ops.size + 1), b ^ i :=
      length_enumerate_le (length_children_le hforks) _ _
    have hleaves := (List.countP_le_length (p := p.isLeaf)).trans htree
    rw [derive_eq_of_finite (descends_of_advances h).tree_eq (htree.trans hsteps)
      (hleaves.trans hresults)]

/-- Two stages that fork, the second of which records an operation of its own accord too. -/
theorem paths_and_search_bounded_forked :
    let first := (Rule.silent "first" fun s => [s, s]).once .dvirvacana
    let second := ((Rule.silent "second" fun s => [s, s.addOp .angaKu]).require .dvirvacana).once .rt
    let p : Pipeline := ⟨[first, second]⟩
    let s := State.ofTerms [.dhatu "kf".toList]
    let steps : List Step := [⟨"first", s.record [.dvirvacana]⟩,
      ⟨"second", s.record [.dvirvacana, .rt, .angaKu]⟩]
    (∀ r ∈ p.stages, r.Advances) ∧ (∀ r ∈ p.stages, ∀ s, (r.body s).length ≤ 2)
      ∧ p.Path s steps (s.record [.dvirvacana, .rt, .angaKu]) ∧ p.firings s steps = [0, 1]
      ∧ (p.firings s steps).Nodup ∧ steps.length ≤ 6 - s.ops.size
      ∧ (p.derive ⟨127, 127⟩ s).truncated = false := by
  intro first second p s steps
  have hadvances : ∀ r ∈ p.stages, r.Advances := by
    simp only [p, List.forall_mem_cons, List.not_mem_nil, false_implies, implies_true, and_true]
    refine ⟨⟨⟨.dvirvacana, by decide⟩, ?_⟩, ⟨⟨.rt, by decide⟩, ?_⟩⟩
    · intro s t ht
      have hts : t = s := by simpa [first, Rule.silent, Rule.body] using ht
      exact hts ▸ subset_rfl
    · intro s t ht
      have hts : t = s ∨ t = s.addOp .angaKu := by
        simpa [second, Rule.silent, Rule.body] using ht
      rcases hts with rfl | rfl
      · exact subset_rfl
      · exact fun op hop => OrderedSet.mem_insert.mpr (Or.inr hop)
  have hforks : ∀ r ∈ p.stages, ∀ s, (r.body s).length ≤ 2 := by
    simp [p, first, second, Rule.silent, Rule.body]
  have hpath : p.Path s steps (s.record [.dvirvacana, .rt, .angaKu]) :=
    Path.step (by decide) (Path.step (by decide) (Path.refl _))
  obtain ⟨hpaths, hsearch⟩ := paths_and_search_bounded hadvances hforks s
  obtain ⟨-, hnodup, -, hlength⟩ := hpaths steps _ hpath
  exact ⟨hadvances, hforks, hpath, by decide, hnodup, hlength,
    hsearch ⟨127, 127⟩ (by decide) (by decide)⟩

end Pipeline

end Vyakarana
