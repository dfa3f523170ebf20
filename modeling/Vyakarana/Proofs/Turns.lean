import Vyakarana.Proofs.Schedule

/-!
# Stages in turn

In a scheduled pipeline every stage has its turn once, in order. A stage that is closed at its turn
is passed over for good; one that is open takes the state on to each of its successors. So the
pipeline can be followed stage by stage.

* `Pipeline.Turns`, `ScheduledBy.turns_of_path` — paths, stage by stage
* `Pipeline.sweep`, `ScheduledBy.map_state_leaves` — leaves, stage by stage
* `ScheduledBy.derivations_sublist`, `ScheduledBy.path_of_mem_derivations` — searches find leaves
-/

namespace Vyakarana

namespace Pipeline

/-- The steps lead from one state to another while the rules have their turns in order. -/
inductive Turns : List Rule → State → List Step → State → Prop where
  | stop (rules : List Rule) (s : State) : Turns rules s [] s
  | pass {r : Rule} {rules : List Rule} {s t : State} {steps : List Step} (idle : r.apply s = [])
      (rest : Turns rules s steps t) : Turns (r :: rules) s steps t
  | fire {r : Rule} {rules : List Rule} {s t u : State} {steps : List Step}
      (first : t ∈ r.apply s) (rest : Turns rules t steps u) :
      Turns (r :: rules) s (⟨r.name, t⟩ :: steps) u

/-- The states to which a state is taken when every rule had its turn, in order. -/
def sweep : List Rule → State → List State
  | [], s => [s]
  | r :: rules, s =>
    match r.apply s with
    | [] => sweep rules s
    | states => states.flatMap (sweep rules)

variable {p : Pipeline} {slots post : List Slot} {slot : Slot} {r : Rule} {rules : List Rule}
  {s t : State} {steps : List Step} {x y : Node}

theorem sweep_cons_of_nil (h : r.apply s = []) : sweep (r :: rules) s = sweep rules s := by
  rw [sweep, h]

theorem sweep_cons_of_ne_nil (h : r.apply s ≠ []) :
    sweep (r :: rules) s = (r.apply s).flatMap (sweep rules) := by
  rw [sweep]
  split
  · next hnil => exact absurd hnil h
  · rfl

/-- A rule that yields one state takes the sweep on to it. -/
theorem sweep_cons_of_singleton (h : r.apply s = [t]) :
    sweep (r :: rules) s = sweep rules t := by
  rw [sweep_cons_of_ne_nil (by rw [h]; exact List.cons_ne_nil t []), h, List.flatMap_singleton]

/-! ## Turns that are over -/

/-- The stages that are not among `rules`, which are the last ones, had their turns. -/
def Awaits (p : Pipeline) (slots : List Slot) (s : State) (post : List Slot) (rules : List Rule) :
    Prop :=
  ∃ pre idle, slots = pre ++ post ∧ p.stages = idle ++ rules
    ∧ List.Forall₂ Slot.Governs pre idle ∧ ∀ slot ∈ pre, slot.isOpen s.has s.ops = false

theorem apply_eq_nil_of_closed (hr : slot.Governs r) (hclosed : slot.isOpen s.has s.ops = false) :
    r.apply s = [] := by
  by_contra hne
  have hopen := (hr.fires s).mp hne
  rw [hclosed] at hopen
  exact Bool.false_ne_true hopen

theorem fire?_append_of_closed {pre : List Slot} {idle : List Rule}
    (h : List.Forall₂ Slot.Governs pre idle)
    (hclosed : ∀ slot ∈ pre, slot.isOpen s.has s.ops = false) (rules : List Rule) :
    fire? (idle ++ rules) s = fire? rules s := by
  induction h with
  | nil => rfl
  | @cons slot r pre idle hr _ ih =>
    rw [List.cons_append, fire?, apply_eq_nil_of_closed hr (hclosed slot List.mem_cons_self)]
    exact ih fun x hx => hclosed x (List.mem_cons_of_mem slot hx)

theorem awaits_all (p : Pipeline) (slots : List Slot) (s : State) :
    p.Awaits slots s slots p.stages :=
  ⟨[], [], rfl, rfl, List.Forall₂.nil, by simp⟩

/-- When no stage is left, the derivation is over. -/
theorem Awaits.step_eq_nil (h : p.Awaits slots s [] []) : p.step s = [] := by
  obtain ⟨pre, idle, -, hstages, hgov, hclosed⟩ := h
  rw [step_eq_nil_iff, hstages, fire?_append_of_closed hgov hclosed]
  rfl

/-- A closed stage is passed over. -/
theorem Awaits.pass (h : p.Awaits slots s (slot :: post) (r :: rules)) (hr : slot.Governs r)
    (hclosed : slot.isOpen s.has s.ops = false) : p.Awaits slots s post rules := by
  obtain ⟨pre, idle, hslots, hstages, hgov, hpre⟩ := h
  refine ⟨pre ++ [slot], idle ++ [r], by simp [hslots], by simp [hstages],
    List.rel_append hgov (List.Forall₂.cons hr List.Forall₂.nil), ?_⟩
  intro x hx
  rcases List.mem_append.mp hx with hx | hx
  · exact hpre x hx
  · rw [List.mem_singleton.mp hx]
    exact hclosed

/-- An open stage fires, and the stages up to it had their turns at each successor. -/
theorem Awaits.fire (h : p.Awaits slots s (slot :: post) (r :: rules)) (hord : InOrder slots)
    (hr : slot.Governs r) (hopen : slot.isOpen s.has s.ops = true) :
    p.step s = (r.apply s).map (r.name, ·)
      ∧ ∀ t ∈ r.apply s, p.Awaits slots t post rules := by
  obtain ⟨pre, idle, hslots, hstages, hgov, hpre⟩ := h
  constructor
  · rw [step, hstages, fire?_append_of_closed hgov hpre, fire?]
    split
    · next f hf =>
      split at hf
      · next hnil => exact absurd hnil ((hr.fires s).mpr hopen)
      · rw [← Option.some.inj hf]
    · next hf =>
      split at hf
      · next hnil => exact absurd hnil ((hr.fires s).mpr hopen)
      · simp at hf
  · intro t ht
    refine ⟨pre ++ [slot], idle ++ [r], by simp [hslots], by simp [hstages],
      List.rel_append hgov (List.Forall₂.cons hr List.Forall₂.nil), ?_⟩
    intro x hx
    rw [Slot.isOpen_congr fun tag htag => hr.has ht htag, hr.ops ht]
    rcases List.mem_append.mp hx with hx | hx
    · rw [hslots] at hord
      have hne := (List.pairwise_append.mp hord).2.2 x hx slot List.mem_cons_self
      exact Slot.isOpen_insert_of_closed hne (hpre x hx)
    · rw [List.mem_singleton.mp hx]
      exact slot.isOpen_insert_self s.has s.ops

/-! ## Paths -/

theorem Awaits.turns (h : p.Awaits slots s post rules) (hord : InOrder slots)
    (hgov : List.Forall₂ Slot.Governs post rules) (hpath : p.Path s steps t) :
    Turns rules s steps t := by
  induction hgov generalizing s steps with
  | nil =>
    cases hpath with
    | refl => exact Turns.stop [] _
    | step first _ =>
      rw [h.step_eq_nil] at first
      simp at first
  | @cons slot r post rules hr _ ih =>
    cases hopen : slot.isOpen s.has s.ops with
    | false => exact Turns.pass (apply_eq_nil_of_closed hr hopen) (ih (h.pass hr hopen) hpath)
    | true =>
      obtain ⟨hstep, hnext⟩ := h.fire hord hr hopen
      cases hpath with
      | refl => exact Turns.stop _ _
      | @step _ u _ stage steps first rest =>
        rw [hstep] at first
        obtain ⟨u, hu, heq⟩ := List.mem_map.mp first
        obtain ⟨rfl, rfl⟩ := Prod.mk.inj heq
        exact Turns.fire hu (ih (hnext u hu) rest)

theorem Turns.cases_of_ne_nil (h : Turns (r :: rules) s steps t) (hne : r.apply s ≠ []) :
    (t = s ∧ steps = [])
      ∨ ∃ u ∈ r.apply s, ∃ rest, steps = ⟨r.name, u⟩ :: rest ∧ Turns rules u rest t := by
  cases h with
  | stop => exact Or.inl ⟨rfl, rfl⟩
  | pass idle _ => exact absurd idle hne
  | @fire _ _ _ u _ rest first later => exact Or.inr ⟨u, first, rest, rfl, later⟩

/-- A rule that yields one state takes the path on to it, unless the path is at its end. -/
theorem Turns.cases_of_singleton {u : State} (h : Turns (r :: rules) s steps t)
    (hu : r.apply s = [u]) :
    (t = s ∧ steps = []) ∨ ∃ rest, steps = ⟨r.name, u⟩ :: rest ∧ Turns rules u rest t := by
  rcases h.cases_of_ne_nil (hu ▸ List.cons_ne_nil u []) with hend | ⟨x, hx, rest, hsteps, hrest⟩
  · exact Or.inl hend
  · rw [hu, List.mem_singleton] at hx
    subst hx
    exact Or.inr ⟨rest, hsteps, hrest⟩

/-- **On every path the stages have their turns in order.** -/
theorem ScheduledBy.turns_of_path (h : p.ScheduledBy slots) (hpath : p.Path s steps t) :
    Turns p.stages s steps t :=
  (awaits_all p slots s).turns h.inOrder h.governs hpath

/-- A path is cut before one of its steps. -/
theorem Path.split {pre rest : List Step} {stage : String} {v : State}
    (h : p.Path s (pre ++ ⟨stage, v⟩ :: rest) t) :
    ∃ u, p.Path s pre u ∧ (stage, v) ∈ p.step u := by
  induction pre generalizing s with
  | nil =>
    cases h with
    | step first _ => exact ⟨s, Path.refl s, first⟩
  | cons a pre ih =>
    cases h with
    | step first later =>
      obtain ⟨u, hpath, hstep⟩ := ih later
      exact ⟨u, Path.step first hpath, hstep⟩

/-- A path ends in the state of its last step. -/
theorem Path.eq_of_getLast? {last : Step} (h : p.Path s steps t)
    (hlast : steps.getLast? = some last) : t = last.state := by
  induction h with
  | refl => simp at hlast
  | step first rest ih =>
    cases rest with
    | refl =>
      rw [List.getLast?_singleton] at hlast
      rw [← Option.some.inj hlast]
    | step _ _ => exact ih hlast

/-! ## Leaves -/

/-- The leaves of the subtree of `x`, from left to right. -/
def leaves (p : Pipeline) (slots : List Slot) (x : Node) : List Node :=
  (p.subtree slots x).filter p.isLeaf

theorem ScheduledBy.leaves_of_leaf (h : p.ScheduledBy slots) (hx : p.step x.state = []) :
    p.leaves slots x = [x] := by
  have hleaf : p.isLeaf x = true := by
    rw [isLeaf, hx]
    rfl
  rw [leaves, h.subtree_eq, children, hx, List.map_nil, List.flatMap_nil,
    List.filter_cons_of_pos hleaf, List.filter_nil]

theorem ScheduledBy.leaves_of_inner (h : p.ScheduledBy slots) (hx : p.step x.state ≠ []) :
    p.leaves slots x = (p.children x).flatMap (p.leaves slots) := by
  have hinner : ¬p.isLeaf x = true := by
    rw [isLeaf, List.isEmpty_iff]
    exact hx
  rw [leaves, h.subtree_eq, List.filter_cons_of_neg hinner, List.filter_flatMap]
  rfl

theorem Awaits.map_state_leaves (h : p.Awaits slots x.state post rules) (hp : p.ScheduledBy slots)
    (hgov : List.Forall₂ Slot.Governs post rules) :
    (p.leaves slots x).map Node.state = sweep rules x.state := by
  induction hgov generalizing x with
  | nil =>
    rw [hp.leaves_of_leaf h.step_eq_nil]
    rfl
  | @cons slot r post rules hr _ ih =>
    cases hopen : slot.isOpen x.state.has x.state.ops with
    | false => rw [sweep_cons_of_nil (apply_eq_nil_of_closed hr hopen), ih (h.pass hr hopen)]
    | true =>
      obtain ⟨hstep, hnext⟩ := h.fire hp.inOrder hr hopen
      have hne := (hr.fires x.state).mpr hopen
      rw [sweep_cons_of_ne_nil hne, hp.leaves_of_inner (by rw [hstep]; simpa using hne), children,
        hstep, List.map_map, List.flatMap_map, List.map_flatMap]
      exact List.flatMap_congr fun t ht => ih (hnext t ht)

/-- **The leaves are what is left when every stage had its turn.** -/
theorem ScheduledBy.map_state_leaves (h : p.ScheduledBy slots) (x : Node) :
    (p.leaves slots x).map Node.state = sweep p.stages x.state :=
  (awaits_all p slots x.state).map_state_leaves h h.governs

/-! ## Searches -/

section Search

variable (h : p.ScheduledBy slots) (limits : Limits) (start : State)
include h

/-- A search finds leaves, from left to right. -/
theorem ScheduledBy.derivations_sublist :
    (p.derive limits start).derivations.Sublist
      ((p.leaves slots ⟨start, []⟩).map Node.derivation) := by
  rw [p.derivations_derive limits start, p.popped_eq_take_of_eq h.subtree_eq,
    List.flatMap_singleton]
  exact ((List.take_sublist _ _).filter _).map _

/-- A search that is not truncated finds a leaf. -/
theorem ScheduledBy.derivations_ne_nil (htrunc : (p.derive limits start).truncated = false) :
    (p.derive limits start).derivations ≠ [] :=
  derivations_ne_nil_of_finite h.subtree_eq htrunc

end Search

/-- A derivation that is found is a path to a leaf, in a scheduled pipeline as in any other. -/
theorem ScheduledBy.path_of_mem_derivations (_ : p.ScheduledBy slots) (limits : Limits)
    (start : State) {d : Derivation} (hd : d ∈ (p.derive limits start).derivations) :
    p.Path start d.history d.state ∧ p.step d.state = [] :=
  Pipeline.path_of_mem_derivations hd

end Pipeline

end Vyakarana
