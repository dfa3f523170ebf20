import Mathlib.Algebra.Order.BigOperators.Group.List
import Mathlib.Data.List.Forall2
import Vyakarana.Proofs.Search
import Vyakarana.Proofs.State

/-!
# Schedules

A stage behind gates fires on a state when its own operation is not recorded, the operation it
waits for is, and a term that it works on is there. A `Slot` says this about a stage, together
with a bound on the number of its successors. When every stage of a pipeline has its slot, which
stages fire is known from the start state.

* `schedule` is the list of the slots that fire, in order
* `schedule_eq_filter` — the same in closed form
* `Path.stages_eq_schedule` — every path to a leaf follows it
* `length_subtree_le`, `leaves_subtree_le` — bounds on the tree
-/

namespace Vyakarana

/-! ## Paths -/

/-- The steps of a path lead from one state to another. -/
inductive Pipeline.Path (p : Pipeline) : State → List Step → State → Prop where
  | refl (s : State) : Path p s [] s
  | step {s t u : State} {stage : String} {steps : List Step} (first : (stage, t) ∈ p.step s)
      (rest : Path p t steps u) : Path p s (⟨stage, t⟩ :: steps) u

namespace Pipeline

variable {p : Pipeline} {s t u : State} {steps : List Step}

/-- A path goes on with a step from its end. -/
theorem Path.concat {stage : String} (h : p.Path s steps t) (hstep : (stage, u) ∈ p.step t) :
    p.Path s (steps ++ [⟨stage, u⟩]) u := by
  induction h with
  | refl t => exact Path.step hstep (Path.refl u)
  | step first _ ih => exact Path.step first (ih hstep)

/-- What is popped off a stack lies on paths from where the nodes of the stack come from. -/
theorem path_of_mem_popped {k : Nat} {xs : List Node} (h : ∀ x ∈ xs, p.Path s x.path x.state)
    {y : Node} (hy : y ∈ p.popped k xs) : p.Path s y.path y.state := by
  induction k generalizing xs with
  | zero => simp [popped] at hy
  | succ k ih =>
    cases xs with
    | nil => simp at hy
    | cons x xs =>
      rcases List.mem_cons.mp hy with rfl | hy
      · exact h _ List.mem_cons_self
      · refine ih (fun z hz => ?_) hy
        rcases List.mem_append.mp hz with hz | hz
        · obtain ⟨⟨stage, t⟩, hstep, rfl⟩ := List.mem_map.mp hz
          exact (h x List.mem_cons_self).concat hstep
        · exact h z (List.mem_cons_of_mem x hz)

/-- A derivation that is found is a path to a leaf. -/
theorem path_of_mem_derivations {limits : Limits} {d : Derivation}
    (hd : d ∈ (p.derive limits s).derivations) :
    p.Path s d.history d.state ∧ p.step d.state = [] := by
  rw [p.derivations_derive limits s] at hd
  obtain ⟨leaf, hleaf, rfl⟩ := List.mem_map.mp hd
  obtain ⟨hmem, hover⟩ := List.mem_filter.mp hleaf
  refine ⟨path_of_mem_popped (fun x hx => ?_) hmem, List.isEmpty_iff.mp hover⟩
  rw [List.mem_singleton.mp hx]
  exact Path.refl s

end Pipeline

/-- When a stage can fire, and how far it forks. Whether there is an abhyāsa is nothing that a
stage waits for. -/
structure Slot where
  stage : String
  /-- The operation that the stage records. -/
  op : Operation
  /-- The operation that the stage waits for. -/
  needs : Option Operation := none
  /-- The category of the terms that the stage works on. -/
  focus : Tag
  /-- The number of successors is at most this. -/
  forks : Nat := 1
  focus_ne_abhyasa : focus ≠ .abhyasa := by decide
  forks_pos : 0 < forks := by decide

namespace Slot

/-- The stage fires where `ops` are recorded and `has` tells which categories are there. -/
def isOpen (slot : Slot) (has : Tag → Bool) (ops : OrderedSet Operation) : Bool :=
  !decide (slot.op ∈ ops) && slot.needs.all (fun op => decide (op ∈ ops)) && has slot.focus

/-- The stage behaves as the slot says. -/
structure Governs (slot : Slot) (r : Rule) : Prop where
  name : r.name = slot.stage
  fires : ∀ s, r.apply s ≠ [] ↔ slot.isOpen s.has s.ops = true
  forks : ∀ s, (r.apply s).length ≤ slot.forks
  ops : ∀ {s t}, t ∈ r.apply s → t.ops = s.ops.insert slot.op
  has : ∀ {s t}, t ∈ r.apply s → ∀ {tag}, tag ≠ .abhyasa → t.has tag = s.has tag

theorem isOpen_congr {slot : Slot} {has has' : Tag → Bool} {ops : OrderedSet Operation}
    (h : ∀ tag, tag ≠ .abhyasa → has' tag = has tag) :
    slot.isOpen has' ops = slot.isOpen has ops := by
  unfold isOpen
  rw [h slot.focus slot.focus_ne_abhyasa]

theorem isOpen_insert_self (slot : Slot) (has : Tag → Bool) (ops : OrderedSet Operation) :
    slot.isOpen has (ops.insert slot.op) = false := by
  simp [isOpen]

/-- A closed slot is opened only by the operation it waits for. -/
theorem isOpen_insert_of_closed {slot : Slot} {has : Tag → Bool} {ops : OrderedSet Operation}
    {op : Operation} (hneeds : slot.needs ≠ some op) (h : slot.isOpen has ops = false) :
    slot.isOpen has (ops.insert op) = false := by
  cases hn : slot.needs with
  | none =>
    simp only [isOpen, hn, Option.all_none, Bool.and_true, Bool.and_eq_false_iff,
      Bool.not_eq_false', decide_eq_true_eq, OrderedSet.mem_insert] at h ⊢
    rcases h with h | h
    · exact Or.inl (Or.inr h)
    · exact Or.inr h
  | some need =>
    have hne : need ≠ op := fun he => hneeds (he ▸ hn)
    simp only [isOpen, hn, Option.all_some, Bool.and_eq_false_iff, Bool.not_eq_false',
      decide_eq_true_eq, decide_eq_false_iff_not, OrderedSet.mem_insert, hne, false_or] at h ⊢
    rcases h with (h | h) | h
    · exact Or.inl (Or.inl (Or.inr h))
    · exact Or.inl (Or.inr h)
    · exact Or.inr h

end Slot

/-! ## The slots that fire -/

/-- The slots that fire, in order, when each is tried once. -/
def schedule (has : Tag → Bool) : OrderedSet Operation → List Slot → List Slot
  | _, [] => []
  | ops, slot :: slots =>
    if slot.isOpen has ops then slot :: schedule has (ops.insert slot.op) slots
    else schedule has ops slots

section Schedule

variable {has has' : Tag → Bool} {ops : OrderedSet Operation}

theorem schedule_sublist (has : Tag → Bool) (ops : OrderedSet Operation) (slots : List Slot) :
    (schedule has ops slots).Sublist slots := by
  induction slots generalizing ops with
  | nil => exact List.Sublist.slnil
  | cons slot slots ih =>
    rw [schedule]
    split
    · exact (ih _).cons_cons slot
    · exact (ih _).cons slot

theorem schedule_congr (h : ∀ tag, tag ≠ .abhyasa → has' tag = has tag) (slots : List Slot) :
    schedule has' ops slots = schedule has ops slots := by
  induction slots generalizing ops with
  | nil => rfl
  | cons slot slots ih => rw [schedule, schedule, Slot.isOpen_congr h, ih, ih]

theorem schedule_append_of_closed {pre : List Slot}
    (h : ∀ slot ∈ pre, slot.isOpen has ops = false) (post : List Slot) :
    schedule has ops (pre ++ post) = schedule has ops post := by
  induction pre with
  | nil => rfl
  | cons slot pre ih =>
    rw [List.cons_append, schedule, if_neg (by simp [h slot List.mem_cons_self])]
    exact ih fun x hx => h x (List.mem_cons_of_mem _ hx)

theorem schedule_of_closed {slots : List Slot}
    (h : ∀ slot ∈ slots, slot.isOpen has ops = false) : schedule has ops slots = [] := by
  have := schedule_append_of_closed h []
  rwa [List.append_nil] at this

/-- No slot waits for an operation that only a later one records. -/
def InOrder (slots : List Slot) : Prop := slots.Pairwise fun a b => a.needs ≠ some b.op

/-- Once the first open slot fired, the slots up to it are closed for good. -/
theorem schedule_of_fired {pre post : List Slot} {slot : Slot}
    (hord : InOrder (pre ++ slot :: post)) (hpre : ∀ x ∈ pre, x.isOpen has ops = false)
    (hopen : slot.isOpen has ops = true) :
    schedule has ops (pre ++ slot :: post)
      = slot :: schedule has (ops.insert slot.op) (pre ++ slot :: post) := by
  have hpre' : ∀ x ∈ pre, x.isOpen has (ops.insert slot.op) = false := by
    intro x hx
    have hne : x.needs ≠ some slot.op :=
      (List.pairwise_append.mp hord).2.2 x hx slot List.mem_cons_self
    exact Slot.isOpen_insert_of_closed hne (hpre x hx)
  rw [schedule_append_of_closed hpre, schedule, if_pos hopen, schedule_append_of_closed hpre',
    schedule, if_neg (by simp [Slot.isOpen_insert_self])]

/-- Every slot records an operation that is not yet among `known`, and waits only for one that is:
an operation that an earlier slot records is. -/
def Prepared : (known : List Operation) → List Slot → Prop
  | _, [] => True
  | known, slot :: slots =>
    slot.op ∉ known ∧ (∀ op, slot.needs = some op → op ∈ known)
      ∧ Prepared (slot.op :: known) slots

/-- `fires` says that the slot fires just when its operation is new, what it waits for is recorded
or fires itself, and its focus is there. -/
def Slot.ToldBy (slot : Slot) (fires : Operation → Bool) (has : Tag → Bool)
    (ops : OrderedSet Operation) : Prop :=
  fires slot.op = (!decide (slot.op ∈ ops)
    && slot.needs.all (fun op => decide (op ∈ ops) || fires op) && has slot.focus)

/-- When the slots of `known` had their turn, `cur` are the operations recorded. -/
theorem schedule_eq_filter_of_known {fires : Operation → Bool} {slots : List Slot}
    {known : List Operation} {cur : OrderedSet Operation} (hprep : Prepared known slots)
    (hcur : ∀ op, op ∈ cur ↔ op ∈ ops ∨ (op ∈ known ∧ fires op = true))
    (htold : ∀ slot ∈ slots, slot.ToldBy fires has ops) :
    schedule has cur slots = slots.filter fun slot => fires slot.op := by
  induction slots generalizing known cur with
  | nil => rfl
  | cons slot slots ih =>
    obtain ⟨hnew, hneeds, hrest⟩ := hprep
    have hop : slot.op ∈ cur ↔ slot.op ∈ ops := by simp [hcur, hnew]
    have hall : slot.needs.all (fun op => decide (op ∈ cur))
        = slot.needs.all (fun op => decide (op ∈ ops) || fires op) := by
      cases hn : slot.needs with
      | none => rfl
      | some op => simp [hcur, hneeds op hn]
    have hopen : slot.isOpen has cur = fires slot.op := by
      rw [Slot.isOpen, hall, htold slot List.mem_cons_self, decide_eq_decide.mpr hop]
    have hslots := fun x hx => htold x (List.mem_cons_of_mem slot hx)
    rw [schedule, List.filter_cons, hopen]
    split
    · next hfire =>
      rw [ih hrest ?_ hslots]
      intro op
      rw [OrderedSet.mem_insert, hcur, List.mem_cons]
      constructor
      · rintro (rfl | hmem | ⟨hmem, hf⟩)
        · exact Or.inr ⟨Or.inl rfl, hfire⟩
        · exact Or.inl hmem
        · exact Or.inr ⟨Or.inr hmem, hf⟩
      · rintro (hmem | ⟨rfl | hmem, hf⟩)
        · exact Or.inr (Or.inl hmem)
        · exact Or.inl rfl
        · exact Or.inr (Or.inr ⟨hmem, hf⟩)
    · next hidle =>
      rw [ih hrest ?_ hslots]
      intro op
      rw [hcur, List.mem_cons]
      constructor
      · rintro (hmem | ⟨hmem, hf⟩)
        · exact Or.inl hmem
        · exact Or.inr ⟨Or.inr hmem, hf⟩
      · rintro (hmem | ⟨rfl | hmem, hf⟩)
        · exact Or.inl hmem
        · exact absurd hf hidle
        · exact Or.inr ⟨hmem, hf⟩

/-- **The schedule in closed form.** It is the slots of which `fires` says so. -/
theorem schedule_eq_filter {fires : Operation → Bool} {slots : List Slot}
    (hprep : Prepared [] slots) (htold : ∀ slot ∈ slots, slot.ToldBy fires has ops) :
    schedule has ops slots = slots.filter fun slot => fires slot.op :=
  schedule_eq_filter_of_known hprep (by simp) htold

end Schedule

/-! ## Pipelines with slots -/

namespace Pipeline

/-- Every stage has its slot, in an order in which the slots can be filled. -/
structure ScheduledBy (p : Pipeline) (slots : List Slot) : Prop where
  governs : List.Forall₂ Slot.Governs slots p.stages
  inOrder : InOrder slots

variable {p : Pipeline} {slots : List Slot} {s : State}

/-- What the first stage that yields is: none, or that of the first open slot. -/
theorem fire?_cases {rules : List Rule} (h : List.Forall₂ Slot.Governs slots rules) (s : State) :
    (fire? rules s = none ∧ ∀ slot ∈ slots, slot.isOpen s.has s.ops = false)
      ∨ ∃ pre slot post, ∃ r ∈ rules, slots = pre ++ slot :: post ∧ slot.Governs r
        ∧ (∀ x ∈ pre, x.isOpen s.has s.ops = false) ∧ slot.isOpen s.has s.ops = true
        ∧ fire? rules s = some ⟨slot.stage, r.apply s⟩ := by
  induction h with
  | nil => exact Or.inl ⟨rfl, by simp⟩
  | @cons slot r slots rules hr _ ih =>
    by_cases hopen : slot.isOpen s.has s.ops = true
    · refine Or.inr ⟨[], slot, slots, r, List.mem_cons_self, rfl, hr, by simp, hopen, ?_⟩
      have hne := (hr.fires s).mpr hopen
      rw [fire?, ← hr.name]
      split
      · next hnil => exact absurd hnil hne
      · rfl
    · have hnil : r.apply s = [] := by
        by_contra hne
        exact hopen ((hr.fires s).mp hne)
      have hstep : fire? (r :: rules) s = fire? rules s := by rw [fire?, hnil]
      rw [Bool.not_eq_true] at hopen
      rcases ih with ⟨hnone, hclosed⟩ | ⟨pre, sl, post, r', hmem, rfl, hgov, hpre, hsl, hf⟩
      · refine Or.inl ⟨hstep.trans hnone, ?_⟩
        intro x hx
        rcases List.mem_cons.mp hx with rfl | hx
        · exact hopen
        · exact hclosed x hx
      · refine Or.inr ⟨slot :: pre, sl, post, r', List.mem_cons_of_mem r hmem, rfl, hgov, ?_, hsl,
          hstep.trans hf⟩
        intro x hx
        rcases List.mem_cons.mp hx with rfl | hx
        · exact hopen
        · exact hpre x hx

/-- **What a step of a scheduled pipeline can be.** Either it is over and the schedule is empty, or
the first slot of the schedule fires and the rest of the schedule is that of each successor. -/
theorem ScheduledBy.step_cases (h : p.ScheduledBy slots) (s : State) :
    (p.step s = [] ∧ schedule s.has s.ops slots = [])
      ∨ ∃ slot rest, ∃ r ∈ p.stages, schedule s.has s.ops slots = slot :: rest ∧ slot.Governs r
        ∧ r.apply s ≠ [] ∧ p.step s = (r.apply s).map (slot.stage, ·)
        ∧ ∀ t ∈ r.apply s, schedule t.has t.ops slots = rest := by
  rcases fire?_cases h.governs s with
    ⟨hnone, hclosed⟩ | ⟨pre, slot, post, r, hmem, rfl, hr, hpre, hopen, hf⟩
  · exact Or.inl ⟨step_eq_nil_iff.mpr hnone, schedule_of_closed hclosed⟩
  · refine Or.inr ⟨slot, _, r, hmem, schedule_of_fired h.inOrder hpre hopen, hr,
      (hr.fires s).mpr hopen, ?_, ?_⟩
    · rw [step, hf]
    · intro t ht
      rw [hr.ops ht, schedule_congr fun tag htag => hr.has ht htag]

/-- **A step goes along the schedule**: the first slot fires, and what is scheduled after it is the
schedule of the successor. -/
theorem ScheduledBy.of_mem_step (h : p.ScheduledBy slots) {t : State} {stage : String}
    (hmem : (stage, t) ∈ p.step s) :
    ∃ slot rest, ∃ r ∈ p.stages, schedule s.has s.ops slots = slot :: rest ∧ slot.Governs r
      ∧ stage = slot.stage ∧ t ∈ r.apply s ∧ schedule t.has t.ops slots = rest := by
  rcases h.step_cases s with ⟨hnil, -⟩ | ⟨slot, rest, r, hr, hsch, hgov, -, hstep, hrest⟩
  · rw [hnil] at hmem
    simp at hmem
  · rw [hstep] at hmem
    obtain ⟨t', ht', he⟩ := List.mem_map.mp hmem
    obtain ⟨rfl, rfl⟩ := Prod.mk.inj he
    exact ⟨slot, rest, r, hr, hsch, hgov, rfl, ht', hrest t' ht'⟩

/-! ## Paths follow the schedule -/

/-- Every path to a leaf fires the stages of the schedule, and records their operations. -/
theorem Path.stages_eq_schedule (h : p.ScheduledBy slots) {t : State} {steps : List Step}
    (hp : p.Path s steps t) (hleaf : p.step t = []) :
    steps.map Step.stage = (schedule s.has s.ops slots).map Slot.stage
      ∧ t.ops = s.ops.insertAll ((schedule s.has s.ops slots).map Slot.op) := by
  induction hp with
  | refl s =>
    rcases h.step_cases s with ⟨-, hsch⟩ | ⟨slot, rest, r, -, -, -, hne, hstep, -⟩
    · rw [hsch]
      exact ⟨rfl, rfl⟩
    · rw [hleaf] at hstep
      exact absurd (List.map_eq_nil_iff.mp hstep.symm) hne
  | @step s t u stage steps hfirst _ ih =>
    obtain ⟨ihstages, ihops⟩ := ih hleaf
    obtain ⟨slot, rest, r, -, hsch, hr, rfl, ht, hrest⟩ := h.of_mem_step hfirst
    rw [hrest] at ihstages ihops
    rw [hsch, List.map_cons, List.map_cons, List.map_cons, ihstages, ihops, hr.ops ht]
    exact ⟨rfl, rfl⟩

/-- From every state some path leads to a leaf. -/
theorem ScheduledBy.exists_path (h : p.ScheduledBy slots) (s : State) :
    ∃ steps t, p.Path s steps t ∧ p.step t = [] := by
  induction hsch : schedule s.has s.ops slots generalizing s with
  | nil =>
    rcases h.step_cases s with ⟨hnil, -⟩ | ⟨slot, rest, r, -, hcons, -⟩
    · exact ⟨[], s, Path.refl s, hnil⟩
    · rw [hsch] at hcons
      simp at hcons
  | cons slot rest ih =>
    rcases h.step_cases s with ⟨-, hnil⟩ | ⟨slot', rest', r, -, hcons, -, hne, hstep, hrest⟩
    · rw [hsch] at hnil
      simp at hnil
    · rw [hsch] at hcons
      obtain ⟨rfl, rfl⟩ := List.cons.inj hcons
      obtain ⟨t, ht⟩ := List.exists_mem_of_ne_nil _ hne
      obtain ⟨steps, u, hpath, hleaf⟩ := ih t (hrest t ht)
      refine ⟨⟨slot.stage, t⟩ :: steps, u, Path.step ?_ hpath, hleaf⟩
      rw [hstep]
      exact List.mem_map.mpr ⟨t, ht, rfl⟩

/-! ## The size of the tree -/

/-- The most nodes that a tree can have whose levels fork as the slots say. -/
def maxNodes : List Slot → Nat
  | [] => 1
  | slot :: slots => 1 + slot.forks * maxNodes slots

/-- The most leaves that a tree can have whose levels fork as the slots say. -/
def maxLeaves : List Slot → Nat
  | [] => 1
  | slot :: slots => slot.forks * maxLeaves slots

theorem maxNodes_le_of_sublist {xs ys : List Slot} (h : xs.Sublist ys) :
    maxNodes xs ≤ maxNodes ys := by
  induction h with
  | slnil => exact Nat.le_refl _
  | @cons xs ys slot _ ih =>
    have := Nat.le_mul_of_pos_left (maxNodes ys) slot.forks_pos
    rw [maxNodes]
    omega
  | cons_cons slot _ ih =>
    have := Nat.mul_le_mul_left slot.forks ih
    rw [maxNodes, maxNodes]
    omega

theorem maxLeaves_le_of_sublist {xs ys : List Slot} (h : xs.Sublist ys) :
    maxLeaves xs ≤ maxLeaves ys := by
  induction h with
  | slnil => exact Nat.le_refl _
  | cons slot _ ih => exact ih.trans (Nat.le_mul_of_pos_left _ slot.forks_pos)
  | cons_cons slot _ ih => exact Nat.mul_le_mul_left slot.forks ih

/-- The nodes of the subtree of `x` in preorder: there are no more levels than slots that fire. -/
def subtree (p : Pipeline) (slots : List Slot) (x : Node) : List Node :=
  p.enumerate ((schedule x.state.has x.state.ops slots).length + 1) x

theorem sum_map_le {α : Type} {f : α → Nat} {b : Nat} {xs : List α} (h : ∀ x ∈ xs, f x ≤ b) :
    (xs.map f).sum ≤ xs.length * b := by
  have hall : ∀ n ∈ xs.map f, n ≤ b := by
    intro n hn
    obtain ⟨x, hx, rfl⟩ := List.mem_map.mp hn
    exact h x hx
  simpa using List.sum_le_card_nsmul (xs.map f) b hall

/-- What `step_cases` says about the children of a node. -/
theorem ScheduledBy.children_cases (h : p.ScheduledBy slots) (x : Node) :
    (p.children x = [] ∧ schedule x.state.has x.state.ops slots = [])
      ∨ ∃ slot rest, schedule x.state.has x.state.ops slots = slot :: rest
        ∧ p.children x ≠ [] ∧ (p.children x).length ≤ slot.forks
        ∧ ∀ y ∈ p.children x, schedule y.state.has y.state.ops slots = rest := by
  rcases h.step_cases x.state with ⟨hnil, hsch⟩ | ⟨slot, rest, r, -, hsch, hr, hne, hstep, hrest⟩
  · exact Or.inl ⟨by rw [children, hnil, List.map_nil], hsch⟩
  · refine Or.inr ⟨slot, rest, hsch, ?_, ?_, ?_⟩
    · rw [children, hstep]
      simpa using hne
    · rw [children, hstep, List.length_map, List.length_map]
      exact hr.forks x.state
    · intro y hy
      rw [children, hstep, List.map_map] at hy
      obtain ⟨t, ht, rfl⟩ := List.mem_map.mp hy
      exact hrest t ht

/-- With every step the schedule becomes shorter. -/
theorem ScheduledBy.descends (h : p.ScheduledBy slots) :
    p.Descends fun s => (schedule s.has s.ops slots).length := by
  rintro s ⟨stage, t⟩ hmem
  obtain ⟨slot, rest, r, -, hsch, -, -, -, hrest⟩ := h.of_mem_step hmem
  simp only [hsch, hrest, List.length_cons]
  exact Nat.lt_succ_self _

/-- The subtrees solve the equation of the enumeration. -/
theorem ScheduledBy.subtree_eq (h : p.ScheduledBy slots) (x : Node) :
    p.subtree slots x = x :: (p.children x).flatMap (p.subtree slots) :=
  h.descends.tree_eq x

theorem ScheduledBy.length_subtree_le (h : p.ScheduledBy slots) (x : Node) :
    (p.subtree slots x).length ≤ maxNodes (schedule x.state.has x.state.ops slots) := by
  induction hsch : schedule x.state.has x.state.ops slots generalizing x with
  | nil =>
    rcases h.children_cases x with ⟨hnil, -⟩ | ⟨slot, rest, hcons, -⟩
    · simp [h.subtree_eq x, hnil, maxNodes]
    · simp [hsch] at hcons
  | cons slot rest ih =>
    rcases h.children_cases x with ⟨-, hnil⟩ | ⟨slot', rest', hcons, -, hlen, hrest⟩
    · simp [hsch] at hnil
    · obtain ⟨rfl, rfl⟩ := List.cons.inj (hsch.symm.trans hcons)
      have hsum := sum_map_le fun y hy => ih y (hrest y hy)
      have hmul := Nat.mul_le_mul_right (maxNodes rest) hlen
      rw [h.subtree_eq x, List.length_cons, List.length_flatMap, maxNodes]
      omega

theorem ScheduledBy.leaves_subtree_le (h : p.ScheduledBy slots) (x : Node) :
    (p.subtree slots x).countP p.isLeaf ≤ maxLeaves (schedule x.state.has x.state.ops slots) := by
  induction hsch : schedule x.state.has x.state.ops slots generalizing x with
  | nil =>
    rcases h.children_cases x with ⟨hnil, -⟩ | ⟨slot, rest, hcons, -⟩
    · rw [h.subtree_eq x, hnil, List.flatMap_nil]
      exact List.countP_le_length
    · simp [hsch] at hcons
  | cons slot rest ih =>
    rcases h.children_cases x with ⟨-, hnil⟩ | ⟨slot', rest', hcons, hne, hlen, hrest⟩
    · simp [hsch] at hnil
    · obtain ⟨rfl, rfl⟩ := List.cons.inj (hsch.symm.trans hcons)
      have hinner : ¬ p.isLeaf x = true := by
        rw [isLeaf, List.isEmpty_iff]
        exact fun hnil => hne (List.map_eq_nil_iff.mpr hnil)
      have hsum := sum_map_le fun y hy => ih y (hrest y hy)
      have hmul := Nat.mul_le_mul_right (maxLeaves rest) hlen
      rw [h.subtree_eq x, List.countP_cons_of_neg hinner, List.countP_flatMap, maxLeaves]
      exact hsum.trans hmul

end Pipeline

end Vyakarana
