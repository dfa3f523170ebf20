import Mathlib.Order.Bounds.Basic
import Vyakarana.Proofs.GateLists
import Vyakarana.Proofs.Progress

/-!
# Confluence

In a pipeline of plain stages the recorded operations alone decide which stage fires. The search
takes the first stage that is ready and starts again from the first, so the order of the stages
decides when each has its turn, but not what is recorded in the end: the operations of every stage
whose requirements can be met at all.

* `PlainStage.next?`, `PlainStage.of_mem_step` — the stage that fires, by the recorded operations
* `PlainStage.stages_eq_of_paths` — all ways to a leaf fire the same stages
* `PlainStage.isLeast_of_leaf` — what is recorded at a leaf is a least closed set
* `PlainStage.record_confluent` — both for searches, and for every order of the stages
-/

namespace Vyakarana

open Pipeline

/-- A stage that records one operation and waits for others, which are looked up before it. It
yields on every state that it is ready for, and leaves the record of operations alone. -/
structure PlainStage where
  name : String
  /-- The operation that the stage records. -/
  op : Operation
  /-- The operations that the stage waits for. -/
  needs : List Operation
  body : State → List State
  remarks : State → List Remark
  yields : ∀ s, body s ≠ []
  ops_eq : ∀ {s t}, t ∈ body s → t.ops = s.ops

/-- When the set has all operations that a stage requires, it has those that the stage records. -/
def Pipeline.ClosedUnder (stages : List Rule) (ops : Set Operation) : Prop :=
  ∀ r ∈ stages, (∀ need ∈ r.requires, need ∈ ops) → ∀ op ∈ r.produces, op ∈ ops

namespace PlainStage

variable {σ : PlainStage} {stages : List PlainStage} {ops : OrderedSet Operation} {p : Pipeline}
  {s s' t t' : State} {steps steps' : List Step} {stage : String}

/-! ## The gates of a plain stage -/

/-- The stage as a rule: the `once` gate stands inside, the requirements outside. -/
def rule (σ : PlainStage) : Rule :=
  ((Rule.plain σ.name σ.body σ.remarks).once σ.op).behind (σ.needs.map .require)

theorem requires_rule (σ : PlainStage) : σ.rule.requires = σ.needs := by
  rw [rule, Rule.requires_behind, Gate.required_map_require]
  rfl

theorem produces_rule (σ : PlainStage) : σ.rule.produces = [σ.op] := by
  rw [rule, Rule.produces_behind, Gate.recorded_map_require]
  rfl

theorem name_rule (σ : PlainStage) : σ.rule.name = σ.name := Rule.name_behind

theorem body_rule (σ : PlainStage) : σ.rule.body = σ.body := Rule.body_behind

theorem isOpen_rule_iff : σ.rule.IsOpen ops ↔ σ.op ∉ ops ∧ ∀ need ∈ σ.needs, need ∈ ops := by
  rw [rule, Rule.isOpen_behind_iff, Gate.allOpen_map_require, Gate.recorded_map_require,
    Rule.isOpen_once_iff, and_iff_left Rule.isOpen_plain]
  exact and_comm

/-- The stage fires on a state on which the operations are recorded. -/
def isReady (σ : PlainStage) (ops : OrderedSet Operation) : Bool :=
  decide (σ.op ∉ ops ∧ ∀ need ∈ σ.needs, need ∈ ops)

theorem isReady_iff : σ.isReady ops = true ↔ σ.op ∉ ops ∧ ∀ need ∈ σ.needs, need ∈ ops :=
  decide_eq_true_iff

theorem apply_rule (σ : PlainStage) (s : State) :
    σ.rule.apply s = if σ.isReady s.ops then σ.body (s.addOp σ.op) else [] := by
  by_cases hopen : σ.rule.IsOpen s.ops
  · rw [if_pos (isReady_iff.mpr (isOpen_rule_iff.mp hopen)), Rule.apply_of_isOpen hopen, body_rule,
      produces_rule]
    rfl
  · rw [if_neg fun hready => hopen (isOpen_rule_iff.mpr (isReady_iff.mp hready)),
      Rule.apply_of_not_isOpen hopen]

theorem advances_rule (σ : PlainStage) : σ.rule.Advances where
  gated := ⟨σ.op, Rule.mem_produces_iff.mp (by simp [produces_rule])⟩
  keeps := by
    intro s t ht
    rw [body_rule] at ht
    unfold State.attempted
    rw [σ.ops_eq ht]

theorem closedUnder_iff {C : Set Operation} :
    ClosedUnder (stages.map rule) C ↔ ∀ σ ∈ stages, (∀ need ∈ σ.needs, need ∈ C) → σ.op ∈ C := by
  simp [ClosedUnder, requires_rule, produces_rule]

/-! ## Steps -/

/-- The stage that fires when the operations are recorded: the first that is ready. -/
def next? (stages : List PlainStage) (ops : OrderedSet Operation) : Option PlainStage :=
  stages.find? (·.isReady ops)

theorem mem_and_ready_of_next? (h : next? stages ops = some σ) :
    σ ∈ stages ∧ σ.op ∉ ops ∧ ∀ need ∈ σ.needs, need ∈ ops := by
  unfold next? at h
  have hready := List.find?_some h
  exact ⟨List.mem_of_find?_eq_some h, isReady_iff.mp hready⟩

theorem fire?_eq_next? (stages : List PlainStage) (s : State) :
    fire? (stages.map rule) s
      = (next? stages s.ops).map fun σ => ⟨σ.name, σ.body (s.addOp σ.op)⟩ := by
  induction stages with
  | nil => rfl
  | cons σ stages ih =>
    rw [List.map_cons, fire?, apply_rule, next?, List.find?_cons]
    cases hready : σ.isReady s.ops with
    | false => simpa [next?] using ih
    | true =>
      -- a stage that is ready yields something, so the scan stops here
      cases hbody : σ.body (s.addOp σ.op) with
      | nil => exact absurd hbody (σ.yields _)
      | cons u us => simp [hbody, name_rule]

/-- Nothing fires when the recorded operations are closed. -/
theorem step_eq_nil_iff_closedUnder (hp : p.stages = stages.map rule) :
    p.step s = [] ↔ ClosedUnder p.stages s.attempted := by
  rw [step_eq_nil_iff, hp, fire?_eq_next?, Option.map_eq_none_iff, next?, List.find?_eq_none,
    closedUnder_iff]
  refine forall₂_congr fun σ _ => ?_
  rw [isReady_iff, not_and]
  constructor
  · intro h hneeds
    exact Classical.byContradiction fun hnew => h hnew hneeds
  · intro h hnew hneeds
    exact hnew (h hneeds)

/-- A step records the operation of the next stage. -/
theorem of_mem_step (hp : p.stages = stages.map rule) (h : (stage, t) ∈ p.step s) :
    ∃ σ, next? stages s.ops = some σ ∧ stage = σ.name ∧ t.ops = s.ops.insert σ.op := by
  unfold Pipeline.step at h
  rw [hp, fire?_eq_next?] at h
  cases hnext : next? stages s.ops with
  | none => simp [hnext] at h
  | some σ =>
    simp only [hnext, Option.map_some, List.mem_map, Prod.mk.injEq] at h
    obtain ⟨_, ht, rfl, rfl⟩ := h
    exact ⟨σ, rfl, rfl, σ.ops_eq ht⟩

/-- Steps from states with the same record fire the same stage and leave the same record. -/
theorem step_congr (hp : p.stages = stages.map rule) (hops : s'.ops = s.ops) {stage' : String}
    (h : (stage, t) ∈ p.step s) (h' : (stage', t') ∈ p.step s') :
    stage' = stage ∧ t'.ops = t.ops := by
  obtain ⟨σ, hσ, rfl, ht⟩ := of_mem_step hp h
  obtain ⟨σ', hσ', rfl, ht'⟩ := of_mem_step hp h'
  obtain rfl := Option.some.inj (hσ.symm.trans (hops ▸ hσ'))
  exact ⟨rfl, by rw [ht, ht', hops]⟩

/-! ## Paths to a leaf -/

/-- **All ways to a leaf fire the same stages**, whatever forks they take. -/
theorem stages_eq_of_paths (hp : p.stages = stages.map rule) (hpath : p.Path s steps t)
    (hleaf : p.step t = []) (hpath' : p.Path s' steps' t') (hleaf' : p.step t' = [])
    (hops : s'.ops = s.ops) : steps'.map Step.stage = steps.map Step.stage := by
  have hover : ∀ {u v : State}, v.ops = u.ops → (p.step v = [] ↔ p.step u = []) := by
    intro u v huv
    rw [step_eq_nil_iff_closedUnder hp, step_eq_nil_iff_closedUnder hp, State.attempted, huv]
    rfl
  -- the paths go side by side: their states have the same record, and nothing else matters
  induction hpath generalizing s' steps' with
  | refl s =>
    cases hpath' with
    | refl => rfl
    | step first' _ =>
      rw [(hover hops).mpr hleaf] at first'
      exact absurd first' List.not_mem_nil
  | step first _ ih =>
    cases hpath' with
    | refl =>
      rw [(hover hops).mp hleaf'] at first
      exact absurd first List.not_mem_nil
    | step first' rest' =>
      obtain ⟨hstage, hnext⟩ := step_congr hp hops first first'
      rw [List.map_cons, List.map_cons, ih hleaf rest' hnext, hstage]

/-- Nothing is recorded that a closed set need not have. -/
theorem attempted_subset_of_closedUnder (hp : p.stages = stages.map rule)
    (hpath : p.Path s steps t) {C : Set Operation} (hC : ClosedUnder p.stages C)
    (hs : s.attempted ⊆ C) : t.attempted ⊆ C := by
  induction hpath with
  | refl => exact hs
  | @step s t u stage steps first _ ih =>
    obtain ⟨σ, hσ, -, ht⟩ := of_mem_step hp first
    refine ih fun op hop => ?_
    rw [State.attempted, Set.mem_ofPred_eq, ht, OrderedSet.mem_insert] at hop
    rcases hop with rfl | hop
    · obtain ⟨hmem, -, hneeds⟩ := mem_and_ready_of_next? hσ
      exact closedUnder_iff.mp (hp ▸ hC) σ hmem fun need hneed => hs (hneeds need hneed)
    · exact hs hop

theorem advances (hp : p.stages = stages.map rule) : ∀ r ∈ p.stages, r.Advances := by
  rw [hp]
  intro r hr
  obtain ⟨σ, -, rfl⟩ := List.mem_map.mp hr
  exact σ.advances_rule

/-- **What is recorded at a leaf** is the least closed set with what was recorded at the start. -/
theorem isLeast_of_leaf (hp : p.stages = stages.map rule) (hpath : p.Path s steps t)
    (hleaf : p.step t = []) :
    IsLeast {C | s.attempted ⊆ C ∧ ClosedUnder p.stages C} t.attempted := by
  refine ⟨⟨hpath.attempted_subset (advances hp), (step_eq_nil_iff_closedUnder hp).mp hleaf⟩, ?_⟩
  rintro C ⟨hs, hC⟩
  exact attempted_subset_of_closedUnder hp hpath hC hs

/-! ## Searches -/

/-- Which sets are closed does not depend on the order of the stages. -/
theorem closedUnder_perm {others : List PlainStage} (hperm : others.Perm stages) {C : Set Operation} :
    ClosedUnder (others.map rule) C ↔ ClosedUnder (stages.map rule) C := by
  rw [closedUnder_iff, closedUnder_iff]
  exact forall_congr' fun σ => imp_congr_left hperm.mem_iff

/-- **Searches are confluent.** All derivations of a state fire the same stages in the same order,
and record the least set that is closed under the stages and has what was recorded before. The
order in which the stages are put together does not matter for that set. -/
theorem record_confluent (h : Pipeline.build (stages.map rule) = .ok p) (limits : Limits)
    (s : State) :
    (∀ d ∈ (p.derive limits s).derivations, ∀ e ∈ (p.derive limits s).derivations,
      e.history.map Step.stage = d.history.map Step.stage)
    ∧ (∀ d ∈ (p.derive limits s).derivations,
      IsLeast {C | s.attempted ⊆ C ∧ ClosedUnder p.stages C} d.state.attempted)
    ∧ ((p.derive limits s).truncated = false → (p.derive limits s).derivations ≠ [])
    ∧ ∀ others : List PlainStage, others.Perm stages →
      ∃ q, Pipeline.build (others.map rule) = .ok q
        ∧ ∀ limits' : Limits, ∀ e ∈ (q.derive limits' s).derivations,
          ∀ d ∈ (p.derive limits s).derivations, e.state.ops = d.state.ops := by
  have hp : p.stages = stages.map rule := by rw [(build_eq_ok_iff.mp h).1]
  have hleast : ∀ d ∈ (p.derive limits s).derivations,
      IsLeast {C | s.attempted ⊆ C ∧ ClosedUnder p.stages C} d.state.attempted := by
    intro d hd
    obtain ⟨hpath, hleaf⟩ := path_of_mem_derivations hd
    exact isLeast_of_leaf hp hpath hleaf
  refine ⟨fun d hd e he => ?_, hleast, ?_, fun others hperm => ?_⟩
  · obtain ⟨hd, hdleaf⟩ := path_of_mem_derivations hd
    obtain ⟨he, heleaf⟩ := path_of_mem_derivations he
    exact stages_eq_of_paths hp hd hdleaf he heleaf rfl
  · exact derivations_ne_nil_of_finite (descends_of_advances (advances hp)).tree_eq
  · refine ⟨_, build_eq_ok_of_perm h (hperm.map rule), fun limits' e he d hd => ?_⟩
    obtain ⟨hpath, hleaf⟩ := path_of_mem_derivations he
    have hother := isLeast_of_leaf rfl hpath hleaf
    simp only [closedUnder_perm hperm, ← hp] at hother
    have hsame : e.state.attempted = d.state.attempted := hother.unique (hleast d hd)
    exact OrderedSet.ext_mem fun op => Set.ext_iff.mp hsame op

/-- A stage that yields its state twice. -/
def twofold (name : String) (op : Operation) (needs : List Operation) : PlainStage where
  name := name
  op := op
  needs := needs
  body := fun s => [s, s]
  remarks := fun _ => []
  yields := fun _ => List.cons_ne_nil _ _
  ops_eq := by simp

/-- Guṇa stands before the reduplication that it waits for, and the last stage waits for itself. -/
theorem record_confluent_three :
    let first := twofold "rt" .rt [.dvirvacana]
    let second := twofold "dvirvacana" .dvirvacana []
    let third := twofold "ku" .angaKu [.angaKu]
    let stages := [first, second, third]
    let p : Pipeline := ⟨stages.map rule⟩
    let s := State.ofTerms [.dhatu "kf".toList]
    let d : Derivation := ⟨s.record [.rt, .dvirvacana],
      [⟨"dvirvacana", s.record [.dvirvacana]⟩, ⟨"rt", s.record [.rt, .dvirvacana]⟩]⟩
    Pipeline.build (stages.map rule) = .ok p
      ∧ (p.derive ⟨100, 100⟩ s).derivations = [d, d, d, d]
      ∧ IsLeast {C | s.attempted ⊆ C ∧ ClosedUnder p.stages C} d.state.attempted
      ∧ ∃ q, Pipeline.build ([third, second, first].map rule) = .ok q
        ∧ ∀ e ∈ (q.derive ⟨100, 100⟩ s).derivations, e.state.ops = d.state.ops := by
  intro first second third stages p s d
  have hbuild : Pipeline.build (stages.map rule) = .ok p := rfl
  have hderive : (p.derive ⟨100, 100⟩ s).derivations = [d, d, d, d] := rfl
  have hd : d ∈ (p.derive ⟨100, 100⟩ s).derivations := hderive ▸ List.mem_cons_self
  obtain ⟨-, hleast, -, hothers⟩ := record_confluent hbuild ⟨100, 100⟩ s
  obtain ⟨q, hq, hsame⟩ := hothers [third, second, first] (List.reverse_perm stages)
  exact ⟨hbuild, hderive, hleast d hd, q, hq, fun e he => hsame ⟨100, 100⟩ e he d hd⟩

end PlainStage

end Vyakarana
