import Mathlib.Data.List.Basic
import Mathlib.Data.Seq.Basic
import Vyakarana.Derivation

/-!
# The derivation tree

The children of a state are what `Pipeline.step` returns for it, in order. The tree of a start
state may be infinite, so its preorder is a possibly infinite sequence.

* `Pipeline.enumerate` is the plain recursive enumeration of the tree cut at a depth
* `Pipeline.preorder` is the whole sequence
* `Pipeline.preorder_eq_cons` is the equation of the enumeration without a cut
* `Pipeline.tree` is the whole enumeration, when a measure bounds the height
* `Pipeline.take_preorder` says that popping nodes off a stack walks along the sequence
-/

namespace Vyakarana

/-- A node of a derivation tree: a state, and the steps that lead to it from the root. -/
structure Node where
  state : State
  path : List Step := []
deriving DecidableEq

/-- The derivation that a leaf stands for. -/
def Node.derivation (x : Node) : Derivation := ⟨x.state, x.path⟩

namespace Pipeline

variable (p : Pipeline)

/-- The children of a node, in order. -/
def children (x : Node) : List Node :=
  (p.step x.state).map fun (stage, s) => ⟨s, x.path ++ [⟨stage, s⟩]⟩

/-- No stage advances the state of the node. -/
def isLeaf (x : Node) : Bool := (p.step x.state).isEmpty

/-! ## Enumeration -/

/-- The nodes of a subtree in depth-first order, left to right, those below `depth` levels left
out. -/
def enumerate : (depth : Nat) → Node → List Node
  | 0, _ => []
  | depth + 1, x => x :: (p.children x).flatMap (enumerate depth)

/-- The first `k` nodes that are taken off a stack, when the children of each take its place. -/
def popped : (k : Nat) → List Node → List Node
  | 0, _ => []
  | _ + 1, [] => []
  | k + 1, x :: xs => x :: popped k (p.children x ++ xs)

/-- The stack that is left when `k` nodes were taken off. -/
def remaining : (k : Nat) → List Node → List Node
  | 0, xs => xs
  | _ + 1, [] => []
  | k + 1, x :: xs => remaining k (p.children x ++ xs)

@[simp] theorem popped_nil (k : Nat) : p.popped k [] = [] := by cases k <;> rfl

theorem take_append_congr {α : Type} {k : Nat} {ys zs : List α} (xs : List α)
    (h : ys.take k = zs.take k) : (xs ++ ys).take k = (xs ++ zs).take k := by
  have hle : k - xs.length ≤ k := Nat.sub_le k xs.length
  have hcut : ys.take (k - xs.length) = zs.take (k - xs.length) := by
    have := congrArg (List.take (k - xs.length)) h
    rwa [List.take_take, List.take_take, Nat.min_eq_left hle] at this
  rw [List.take_append, List.take_append, hcut]

/-- A stack is walked in the order of the enumeration, whatever the depth of the cut, as long as
no more nodes are taken off than there are levels. -/
theorem popped_eq_take {k depth : Nat} (h : k ≤ depth) (xs : List Node) :
    p.popped k xs = (xs.flatMap (p.enumerate depth)).take k := by
  induction k generalizing depth xs with
  | zero => simp [popped]
  | succ k ih =>
    cases xs with
    | nil => simp
    | cons x xs =>
      obtain ⟨d, rfl⟩ : ∃ d, depth = d + 1 := ⟨depth - 1, by omega⟩
      have hk : k ≤ d := by omega
      -- the siblings are cut one level lower than the children
      have hsib : (xs.flatMap (p.enumerate d)).take k
          = (xs.flatMap (p.enumerate (d + 1))).take k := by
        rw [← ih hk, ← ih (Nat.le_succ_of_le hk)]
      rw [popped, ih hk, List.flatMap_append, List.flatMap_cons, enumerate, List.cons_append,
        List.take_succ_cons, take_append_congr _ hsib]

/-- The same for a subtree function that solves the equation of the enumeration. -/
theorem popped_eq_take_of_eq {f : Node → List Node}
    (hf : ∀ x, f x = x :: (p.children x).flatMap f) (k : Nat) (xs : List Node) :
    p.popped k xs = (xs.flatMap f).take k := by
  induction k generalizing xs with
  | zero => simp [popped]
  | succ k ih =>
    cases xs with
    | nil => simp
    | cons x xs =>
      rw [popped, ih, List.flatMap_append, List.flatMap_cons, hf x, List.cons_append,
        List.take_succ_cons]

theorem popped_eq_take_popped {j k : Nat} (h : j ≤ k) (xs : List Node) :
    p.popped j xs = (p.popped k xs).take j := by
  rw [p.popped_eq_take h, p.popped_eq_take (Nat.le_refl k), List.take_take, Nat.min_eq_left h]

theorem length_popped_le (k : Nat) (xs : List Node) : (p.popped k xs).length ≤ k := by
  rw [p.popped_eq_take (Nat.le_refl k)]
  exact List.length_take_le k _

theorem popped_append (k : Nat) (xs ys : List Node) :
    p.popped k (xs ++ ys) = p.popped k xs ++ p.popped (k - (p.popped k xs).length) ys := by
  have hle : k - (p.popped k xs).length ≤ k := Nat.sub_le k _
  rw [p.popped_eq_take hle ys, p.popped_eq_take (Nat.le_refl k),
    p.popped_eq_take (Nat.le_refl k), List.flatMap_append, List.take_append, List.length_take]
  congr 2
  omega

/-- The stack is empty when it has no further node to give. -/
theorem remaining_eq_nil_iff (k : Nat) (xs : List Node) :
    p.remaining k xs = [] ↔ (p.popped (k + 1) xs).length ≤ k := by
  induction k generalizing xs with
  | zero => cases xs <;> simp [remaining, popped]
  | succ k ih =>
    cases xs with
    | nil => simp [remaining]
    | cons x xs =>
      rw [remaining, ih, popped, List.length_cons]
      omega

/-! ## Trees of finite height -/

/-- Every step lowers the measure. -/
def Descends (μ : State → Nat) : Prop := ∀ s, ∀ a ∈ p.step s, μ a.2 < μ s

/-- The nodes of the subtree of `x` in preorder, when the measure bounds its height. -/
def tree (μ : State → Nat) (x : Node) : List Node := p.enumerate (μ x.state + 1) x

section Descends

variable {p : Pipeline} {μ : State → Nat} (h : p.Descends μ)

include h

theorem Descends.lt_of_mem_children {x y : Node} (hy : y ∈ p.children x) :
    μ y.state < μ x.state := by
  obtain ⟨a, ha, rfl⟩ := List.mem_map.mp hy
  exact h x.state a ha

/-- A cut below the last level cuts nothing off. -/
theorem Descends.enumerate_congr {x : Node} {d e : Nat} (hd : μ x.state < d) (he : μ x.state < e) :
    p.enumerate d x = p.enumerate e x := by
  induction d generalizing x e with
  | zero => omega
  | succ d ih =>
    obtain ⟨e, rfl⟩ : ∃ k, e = k + 1 := ⟨e - 1, by omega⟩
    rw [enumerate, enumerate]
    congr 1
    refine List.flatMap_congr fun y hy => ?_
    have hlt := h.lt_of_mem_children hy
    exact ih (by omega) (by omega)

/-- The subtrees solve the equation of the enumeration. -/
theorem Descends.tree_eq (x : Node) : p.tree μ x = x :: (p.children x).flatMap (p.tree μ) := by
  rw [tree, enumerate]
  congr 1
  refine List.flatMap_congr fun y hy => ?_
  exact h.enumerate_congr (h.lt_of_mem_children hy) (Nat.lt_succ_self _)

end Descends

/-! ## The preorder sequence -/

theorem getElem?_enumerate {i depth : Nat} (h : i < depth) (x : Node) :
    (p.enumerate depth x)[i]? = (p.popped (i + 1) [x])[i]? := by
  rw [p.popped_eq_take (Nat.succ_le_of_lt h), List.flatMap_singleton,
    List.getElem?_take_of_lt (Nat.lt_succ_self i)]

/-- The nodes of the subtree of `x` in preorder. The node at a place is read off the enumeration
that is cut just deep enough to reach it. -/
def preorder (x : Node) : Stream'.Seq Node :=
  ⟨fun i => (p.enumerate (i + 1) x)[i]?, by
    intro i hi
    show (p.enumerate (i + 1 + 1) x)[i + 1]? = none
    change (p.enumerate (i + 1) x)[i]? = none at hi
    have hsame : (p.enumerate (i + 1 + 1) x)[i]? = none := by
      rw [p.getElem?_enumerate (by omega), ← p.getElem?_enumerate (Nat.lt_succ_self i), hi]
    rw [List.getElem?_eq_none_iff] at hsame ⊢
    omega⟩

theorem get?_preorder (x : Node) (i : Nat) :
    (p.preorder x).get? i = (p.popped (i + 1) [x])[i]? :=
  p.getElem?_enumerate (Nat.lt_succ_self i) x

/-- Popping nodes off a stack with the root alone walks along the preorder. -/
theorem take_preorder (k : Nat) (x : Node) : (p.preorder x).take k = p.popped k [x] := by
  refine List.ext_getElem? fun i => ?_
  rw [Stream'.Seq.getElem?_take]
  split
  · next hlt =>
    rw [get?_preorder, p.popped_eq_take_popped (Nat.succ_le_of_lt hlt),
      List.getElem?_take_of_lt (Nat.lt_succ_self i)]
  · next hge =>
    have := p.length_popped_le k [x]
    rw [List.getElem?_eq_none (by omega)]

/-- The number of nodes, when it is finite, is the number of pops that empty the stack. -/
theorem length'_preorder_le_iff (x : Node) (k : Nat) :
    (p.preorder x).length' ≤ k ↔ p.remaining k [x] = [] := by
  rw [Stream'.Seq.length'_le_iff, remaining_eq_nil_iff, Stream'.Seq.TerminatedAt, get?_preorder,
    List.getElem?_eq_none_iff]

/-- The preorders of several subtrees, one after the other. What follows an infinite one is never
reached. -/
def preorderAll (xs : List Node) : Stream'.Seq Node :=
  xs.foldr (fun x rest => (p.preorder x).append rest) .nil

theorem take_seq_append {α : Type} (k : Nat) (s t : Stream'.Seq α) :
    (s.append t).take k = s.take k ++ t.take (k - (s.take k).length) := by
  induction k generalizing s with
  | zero => simp
  | succ k ih =>
    cases s with
    | nil => simp
    | cons a s =>
      rw [Stream'.Seq.cons_append, Stream'.Seq.take_succ_cons, Stream'.Seq.take_succ_cons, ih,
        List.cons_append, List.length_cons, Nat.add_sub_add_right]

theorem take_preorderAll (k : Nat) (xs : List Node) :
    (p.preorderAll xs).take k = p.popped k xs := by
  induction xs generalizing k with
  | nil => simp [preorderAll]
  | cons x xs ih =>
    show ((p.preorder x).append (p.preorderAll xs)).take k = _
    rw [take_seq_append, ih, take_preorder, ← popped_append, List.singleton_append]

theorem seq_ext_take {α : Type} {s t : Stream'.Seq α} (h : ∀ k, s.take k = t.take k) : s = t := by
  refine Stream'.Seq.ext fun i => ?_
  have hi := congrArg (fun l : List α => l[i]?) (h (i + 1))
  simpa [Stream'.Seq.getElem?_take] using hi

/-- A node comes first in the preorder of its subtree, and the subtrees of its children follow from
left to right. -/
theorem preorder_eq_cons (x : Node) :
    p.preorder x = .cons x (p.preorderAll (p.children x)) := by
  refine seq_ext_take fun k => ?_
  cases k with
  | zero => simp
  | succ k =>
    rw [take_preorder, Stream'.Seq.take_succ_cons, take_preorderAll, popped, List.append_nil]

/-- A subtree function that solves the equation of the enumeration gives the preorder. -/
theorem preorder_eq_ofList {f : Node → List Node}
    (hf : ∀ x, f x = x :: (p.children x).flatMap f) (x : Node) :
    p.preorder x = .ofList (f x) := by
  refine Stream'.Seq.ext fun i => ?_
  rw [get?_preorder, p.popped_eq_take_of_eq hf, List.flatMap_singleton,
    List.getElem?_take_of_lt (Nat.lt_succ_self i), Stream'.Seq.ofList_get?]

end Pipeline

end Vyakarana
