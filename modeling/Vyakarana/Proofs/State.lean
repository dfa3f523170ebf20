import Vyakarana.Window

/-!
# Looking terms up

A stage finds the terms it works on by their category. The lemmas here say what `find?`, `findAll`
and `Window.at?` give in terms of the positions of the list of terms, and how the edits of a state
change what stands at a position.
-/

namespace Vyakarana.State

/-- The state has a term of the category. -/
def has (s : State) (tag : Tag) : Bool := s.terms.any (·.hasTag tag)

variable {s : State} {tag : Tag} {a : Term} {i : Nat}

/-! ## Edits -/

@[simp] theorem ops_addOp (s : State) (op : Operation) : (s.addOp op).ops = s.ops.insert op := rfl

@[simp] theorem terms_replace (s : State) (i : Nat) (b : Term) :
    (s.replace i b).terms = s.terms.set i b := rfl

@[simp] theorem has_addOp (s : State) (op : Operation) (tag : Tag) :
    (s.addOp op).has tag = s.has tag := rfl

/-- A term that takes its own place changes nothing. -/
theorem replace_self (h : s.terms[i]? = some a) : s.replace i a = s := by
  obtain ⟨hi, rfl⟩ := List.getElem?_eq_some_iff.mp h
  simp [replace]

/-! ## Finding -/

/-- The first term of a category stands at the first position that has one. -/
theorem find?_eq_some_iff :
    s.find? tag = some (a, i)
      ↔ s.terms[i]? = some a ∧ a.hasTag tag = true
        ∧ ∀ j < i, ∀ b, s.terms[j]? = some b → b.hasTag tag = false := by
  unfold find?
  rw [List.find?_eq_some_iff_getElem]
  constructor
  · rintro ⟨htag, k, hk, hget, hbefore⟩
    rw [List.getElem_zipIdx, Nat.zero_add, Prod.mk.injEq] at hget
    obtain ⟨rfl, rfl⟩ := hget
    rw [List.length_zipIdx] at hk
    refine ⟨List.getElem?_eq_getElem hk, htag, ?_⟩
    intro j hj b hb
    have hnot := hbefore j hj
    obtain ⟨hlt, rfl⟩ := List.getElem?_eq_some_iff.mp hb
    simpa using hnot
  · rintro ⟨hget, htag, hbefore⟩
    obtain ⟨hlt, rfl⟩ := List.getElem?_eq_some_iff.mp hget
    refine ⟨htag, i, by simpa using hlt, by simp, ?_⟩
    intro j hj
    have hjlt : j < s.terms.length := Nat.lt_trans hj hlt
    simp [hbefore j hj _ (List.getElem?_eq_getElem hjlt)]

theorem find?_eq_none_iff : s.find? tag = none ↔ s.has tag = false := by
  unfold find? has
  rw [List.find?_eq_none, List.any_eq_false]
  constructor
  · intro h x hx
    obtain ⟨k, hk, rfl⟩ := List.getElem_of_mem hx
    exact h (s.terms[k], k) (List.mem_zipIdx_iff_getElem?.mpr (List.getElem?_eq_getElem hk))
  · rintro h ⟨x, k⟩ hx
    exact h x (List.mem_of_getElem? (List.mem_zipIdx_iff_getElem?.mp hx))

theorem exists_find?_of_has (h : s.has tag = true) : ∃ a i, s.find? tag = some (a, i) := by
  cases hf : s.find? tag with
  | none =>
    rw [find?_eq_none_iff, h] at hf
    simp at hf
  | some placed => exact ⟨placed.1, placed.2, rfl⟩

theorem has_of_find? (h : s.find? tag = some (a, i)) : s.has tag = true := by
  obtain ⟨hget, htag, -⟩ := find?_eq_some_iff.mp h
  exact List.any_eq_true.mpr ⟨a, List.mem_of_getElem? hget, htag⟩

theorem get?_of_find? (h : s.find? tag = some (a, i)) : s.terms[i]? = some a :=
  (find?_eq_some_iff.mp h).1

theorem hasTag_of_find? (h : s.find? tag = some (a, i)) : a.hasTag tag = true :=
  (find?_eq_some_iff.mp h).2.1

theorem size_insert (s : State) (i : Nat) (b : Term) : (s.insert i b).size = s.size + 1 := by
  have hsplit := congrArg List.length (List.take_append_drop i s.terms)
  rw [List.length_append] at hsplit
  simp only [size, insert, List.length_append, List.length_cons]
  omega

/-- A term of another category that is put in before the first one of a category moves that. -/
theorem find?_insert {b : Term} (h : s.find? tag = some (a, i)) (hb : b.hasTag tag = false) :
    (s.insert i b).find? tag = some (a, i + 1) := by
  obtain ⟨hget, htag, hbefore⟩ := find?_eq_some_iff.mp h
  have hlen : (s.terms.take i).length = i :=
    List.length_take_of_le (Nat.le_of_lt (List.getElem?_eq_some_iff.mp hget).1)
  refine find?_eq_some_iff.mpr ⟨?_, htag, ?_⟩
  · rw [insert, List.getElem?_append_right (by omega), hlen, Nat.add_sub_cancel_left,
      List.getElem?_cons_succ, List.getElem?_drop]
    exact hget
  · intro j hj d hd
    rcases Nat.lt_or_eq_of_le (Nat.le_of_lt_succ hj) with hlt | rfl
    · rw [insert, List.getElem?_append_left (by omega), List.getElem?_take_of_lt hlt] at hd
      exact hbefore j hlt d hd
    · rw [insert, List.getElem?_append_right (by omega), hlen, Nat.sub_self,
        List.getElem?_cons_zero] at hd
      rw [← Option.some.inj hd]
      exact hb

theorem mem_findAll : (a, i) ∈ s.findAll tag ↔ s.terms[i]? = some a ∧ a.hasTag tag = true := by
  rw [findAll, List.mem_filter, List.mem_zipIdx_iff_getElem?]

/-- The window around a position shows the term that stands there. -/
theorem get?_of_at? {w : Window} (h : Window.at? s i = some w) : s.terms[i]? = some w.cur := by
  obtain ⟨cur, hcur, rfl⟩ := Option.map_eq_some_iff.mp h
  exact hcur

end Vyakarana.State
