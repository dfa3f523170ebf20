import Vyakarana.Proofs.StemBody
import Vyakarana.Stem.Reduplication

/-!
# What reduplication does

Reduplication is the one stage that puts a term in: an abhyāsa, directly before the first root. The
abhyāsa has no other category, so no later stage finds another stem or root for it.

* `Reduplicates` — what becomes of the terms
* `fits` — the body yields one state where there is a root
-/

namespace Vyakarana.Reduplication

variable {root : Term} {s t : State} {i : Nat}

theorem hasTag_abhyasaOf (root : Term) (tag : Tag) :
    (abhyasaOf root).hasTag tag = decide (tag = .abhyasa) := by
  have hmem : tag ∈ (abhyasaOf root).tags ↔ tag = .abhyasa := by
    show tag ∈ (∅ : OrderedSet Tag).insertAll [.abhyasa] ↔ _
    simp [OrderedSet.mem_insertAll]
  unfold Term.hasTag
  simp [hmem]

theorem target?_eq_some (h : target? s = some (root, i)) : s.find? .dhatu = some (root, i) := by
  unfold target? at h
  split at h
  · simp at h
  · next root' i' hf =>
    simp only at h
    split at h
    · rw [hf]
      exact h
    · simp at h

/-- The terms of `t` are those of `s`, with the abhyāsa of the first root put before it or not. -/
def Reduplicates (s t : State) : Prop :=
  t.terms = s.terms
    ∨ ∃ root i, s.find? .dhatu = some (root, i) ∧ t.terms = (s.insert i (abhyasaOf root)).terms

theorem body_eq_nil (h : s.find? .dhatu = none) : body s = [] := by
  unfold body
  rw [h]

theorem exists_body_eq {placed : Term × Nat} (h : s.find? .dhatu = some placed) :
    ∃ t, body s = [t] ∧ Reduplicates s t ∧ t.ops = s.ops := by
  unfold body
  rw [h]
  cases htarget : target? s with
  | none => exact ⟨s, rfl, Or.inl rfl, rfl⟩
  | some target =>
    obtain ⟨root, i⟩ := target
    exact ⟨s.insert i (abhyasaOf root), rfl, Or.inr ⟨root, i, target?_eq_some htarget, rfl⟩, rfl⟩

theorem reduplicates_of_mem (h : t ∈ body s) : Reduplicates s t ∧ t.ops = s.ops := by
  cases hf : s.find? .dhatu with
  | none =>
    rw [body_eq_nil hf] at h
    simp at h
  | some placed =>
    obtain ⟨u, hu, hred, hops⟩ := exists_body_eq hf
    rw [hu, List.mem_singleton] at h
    subst h
    exact ⟨hred, hops⟩

/-- The abhyāsa adds no other category. -/
theorem Reduplicates.has (h : Reduplicates s t) {tag : Tag} (htag : tag ≠ .abhyasa) :
    t.has tag = s.has tag := by
  rcases h with hsame | ⟨root, i, -, hinsert⟩
  · rw [State.has, hsame, State.has]
  · have hsplit : s.has tag = ((s.terms.take i).any (·.hasTag tag)
        || (s.terms.drop i).any (·.hasTag tag)) := by
      rw [← List.any_append, List.take_append_drop, State.has]
    rw [hsplit, State.has, hinsert]
    simp [State.insert, hasTag_abhyasaOf, htag]

/-- The slot of the stage `dvirvacana`. -/
def slot : Slot where
  stage := "dvirvacana"
  op := .dvirvacana
  focus := .dhatu
  forks_pos := Nat.one_pos

theorem fits : slot.Fits body where
  fires := by
    intro s
    show body s ≠ [] ↔ s.has .dhatu = true
    cases hf : s.find? .dhatu with
    | none => simp [body_eq_nil hf, State.find?_eq_none_iff.mp hf]
    | some placed =>
      obtain ⟨t, ht, -⟩ := exists_body_eq hf
      simp [ht, State.has_of_find? hf]
  forks := by
    intro s
    cases hf : s.find? .dhatu with
    | none => simp [body_eq_nil hf]
    | some placed =>
      obtain ⟨t, ht, -⟩ := exists_body_eq hf
      simp [ht, slot]
  ops := fun ht => (reduplicates_of_mem ht).2
  has := fun ht _ htag => (reduplicates_of_mem ht).1.has htag

theorem stage_eq : stage = slot.rule body remarks := rfl

end Vyakarana.Reduplication
