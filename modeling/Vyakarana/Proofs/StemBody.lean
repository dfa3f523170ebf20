import Vyakarana.Proofs.Evolution
import Vyakarana.Proofs.Schedule

/-!
# Bodies behind gates

A stage is a body behind its gates. What has to be known about the body alone is what it does when
the term that it works on is there. The gates add the rest.

* `Slot.governs_rule` — a fitting body behind the gates of a slot is governed by the slot
* `StemBody.fits` — a body that works on stems and lets the terms evolve fits
-/

namespace Vyakarana

/-! ## Gates -/

namespace Slot

/-- A body behind the gates of the slot. -/
def rule (slot : Slot) (body : State → List State) (remarks : State → List Remark) : Rule :=
  (Rule.plain slot.stage body remarks).behind
    (Gate.once slot.op :: slot.needs.toList.map Gate.require)

/-- What the body does once the gates are open. -/
structure Fits (slot : Slot) (body : State → List State) : Prop where
  fires : ∀ s, body s ≠ [] ↔ s.has slot.focus = true
  forks : ∀ s, (body s).length ≤ slot.forks
  ops : ∀ {s t}, t ∈ body s → t.ops = s.ops
  has : ∀ {s t}, t ∈ body s → ∀ {tag}, tag ≠ .abhyasa → t.has tag = s.has tag

variable {slot : Slot} {body : State → List State} {remarks : State → List Remark} {s t : State}

theorem name_rule : (slot.rule body remarks).name = slot.stage := by
  unfold rule
  cases slot.needs with
  | none => rfl
  | some need => rfl

/-- The operation is recorded before the body sees the state. -/
theorem apply_rule (s : State) :
    (slot.rule body remarks).apply s
      = if slot.op ∉ s.ops ∧ slot.needs.all (fun op => decide (op ∈ s.ops)) = true then
          body (s.addOp slot.op)
        else [] := by
  unfold rule
  cases slot.needs with
  | none =>
    show (if s.hasOp slot.op then [] else body (s.addOp slot.op)) = _
    by_cases hop : slot.op ∈ s.ops <;> simp [State.hasOp, hop]
  | some need =>
    show (if s.hasOp need then if s.hasOp slot.op then [] else body (s.addOp slot.op) else []) = _
    by_cases hop : slot.op ∈ s.ops <;> by_cases hneed : need ∈ s.ops <;>
      simp [State.hasOp, hop, hneed]

theorem mem_apply_rule (h : t ∈ (slot.rule body remarks).apply s) :
    t ∈ body (s.addOp slot.op) := by
  rw [apply_rule] at h
  split at h
  · exact h
  · simp at h

/-- **The gates of a slot make a fitting body behave as the slot says.** -/
theorem governs_rule (h : slot.Fits body) : slot.Governs (slot.rule body remarks) where
  name := name_rule
  fires := by
    intro s
    rw [apply_rule]
    split
    · next hgates =>
      rw [h.fires, State.has_addOp]
      simp [isOpen, hgates.1, hgates.2]
    · next hgates =>
      have hclosed : ¬slot.isOpen s.has s.ops = true := by
        intro hopen
        simp only [isOpen, Bool.and_eq_true, Bool.not_eq_true', decide_eq_false_iff_not] at hopen
        exact hgates hopen.1
      exact ⟨fun hne => absurd rfl hne, fun hopen => absurd hopen hclosed⟩
  forks := by
    intro s
    rw [apply_rule]
    split
    · exact h.forks _
    · exact Nat.zero_le _
  ops := by
    intro s t ht
    rw [h.ops (mem_apply_rule ht), State.ops_addOp]
  has := by
    intro s t ht tag htag
    rw [h.has (mem_apply_rule ht) htag, State.has_addOp]

end Slot

/-! ## Bodies that work on stems -/

/-- One up to `forks` states come of `s`. In each the terms have evolved. -/
structure State.Yields (id : RuleId) (forks : Nat) (s : State) (states : List State) : Prop where
  ne_nil : states ≠ []
  length_le : states.length ≤ forks
  evolves : ∀ t ∈ states, s.Evolves id t
  ops : ∀ t ∈ states, t.ops = s.ops

theorem State.yields_singleton {id : RuleId} {forks : Nat} {s t : State} (h : s.Evolves id t)
    (hops : t.ops = s.ops) (hforks : 0 < forks) : s.Yields id forks [t] where
  ne_nil := List.cons_ne_nil t []
  length_le := hforks
  evolves := by
    intro u hu
    rw [List.mem_singleton.mp hu]
    exact h
  ops := by
    intro u hu
    rw [List.mem_singleton.mp hu]
    exact hops

theorem State.yields_self {id : RuleId} {forks : Nat} (s : State) (hforks : 0 < forks) :
    s.Yields id forks [s] :=
  yields_singleton (Evolves.refl s) rfl hforks

theorem State.Yields.append {id : RuleId} {m n : Nat} {s : State} {xs ys : List State}
    (hx : s.Yields id m xs) (hy : s.Yields id n ys) : s.Yields id (m + n) (xs ++ ys) where
  ne_nil := List.append_ne_nil_of_left_ne_nil hx.ne_nil ys
  length_le := by
    rw [List.length_append]
    exact Nat.add_le_add hx.length_le hy.length_le
  evolves := by
    intro t ht
    rcases List.mem_append.mp ht with ht | ht
    · exact hx.evolves t ht
    · exact hy.evolves t ht
  ops := by
    intro t ht
    rcases List.mem_append.mp ht with ht | ht
    · exact hx.ops t ht
    · exact hy.ops t ht

/-- A body that yields where there is a stem. It lets the terms evolve, and may record on the
first stem that the optional rule `id` is declined. -/
structure StemBody (id : RuleId) (forks : Nat) (body : State → List State) : Prop where
  idle : ∀ {s : State}, s.find? .anga = none → body s = []
  yields : ∀ {s : State} {stem : Term} {i : Nat}, s.find? .anga = some (stem, i) →
    s.Yields id forks (body s)

namespace StemBody

variable {id : RuleId} {forks : Nat} {body : State → List State} {s t : State}

theorem yields_of_mem (h : StemBody id forks body) (ht : t ∈ body s) :
    s.Yields id forks (body s) := by
  cases hf : s.find? .anga with
  | none =>
    rw [h.idle hf] at ht
    simp at ht
  | some placed => exact h.yields hf

theorem evolves (h : StemBody id forks body) (ht : t ∈ body s) : s.Evolves id t :=
  (h.yields_of_mem ht).evolves t ht

theorem evolves_rule {slot : Slot} {remarks : State → List Remark} (h : StemBody id forks body)
    (ht : t ∈ (slot.rule body remarks).apply s) : s.Evolves id t :=
  (h.evolves (Slot.mem_apply_rule ht)).of_same_terms rfl

theorem fits {slot : Slot} (h : StemBody id slot.forks body) (hfocus : slot.focus = .anga) :
    slot.Fits body where
  fires := by
    intro s
    rw [hfocus]
    cases hf : s.find? .anga with
    | none => simp [h.idle hf, State.find?_eq_none_iff.mp hf]
    | some placed => simp [(h.yields hf).ne_nil, State.has_of_find? hf]
  forks := by
    intro s
    cases hf : s.find? .anga with
    | none => simp [h.idle hf]
    | some placed => exact (h.yields hf).length_le
  ops := fun ht => (h.yields_of_mem ht).ops _ ht
  has := fun ht tag _ => (h.evolves ht).has tag

end StemBody

end Vyakarana
