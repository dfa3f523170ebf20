/-!
# Finite sets in a fixed order

Tags, it-markers, lakṣaṇas, recorded operations and declined rule identities are all sets
without a natural notion of "first inserted": a set is shown in the order of its type, and two
sets with the same members are the same set.

## Representation

A type is `Ranked` when a number tells its members apart. An `OrderedSet` is the list of its
members in strictly ascending rank, so equality of sets is equality of lists.
-/

namespace Vyakarana

/-- A type whose members are told apart, and put in order, by a number. -/
class Ranked (α : Type) where
  /-- The place of a member in the order of its type. -/
  rank : α → Nat
  rank_injective : ∀ {a b : α}, rank a = rank b → a = b

instance : Ranked Nat where
  rank n := n
  rank_injective h := h

/-- A finite set, held as the list of its members in ascending rank. -/
structure OrderedSet (α : Type) [Ranked α] where
  /-- The members, in order. -/
  toList : List α
  ascending : toList.Pairwise (fun a b => Ranked.rank a < Ranked.rank b)

namespace OrderedSet

variable {α : Type} [Ranked α]

theorem ext_toList {s t : OrderedSet α} (h : s.toList = t.toList) : s = t := by
  cases s; cases t; cases h; rfl

instance [DecidableEq α] : DecidableEq (OrderedSet α) := fun s t =>
  decidable_of_iff (s.toList = t.toList) ⟨ext_toList, fun h => h ▸ rfl⟩

/-- The set without members. -/
def empty : OrderedSet α := ⟨[], .nil⟩

instance : EmptyCollection (OrderedSet α) := ⟨empty⟩

instance : Inhabited (OrderedSet α) := ⟨empty⟩

instance : Membership α (OrderedSet α) := ⟨fun s a => a ∈ s.toList⟩

instance [DecidableEq α] (a : α) (s : OrderedSet α) : Decidable (a ∈ s) :=
  inferInstanceAs (Decidable (a ∈ s.toList))

/-! ## Insertion -/

/-- Put `a` at its place in an ascending list; a member already there is not repeated. -/
def place (a : α) : List α → List α
  | [] => [a]
  | b :: bs =>
    if Ranked.rank a < Ranked.rank b then a :: b :: bs
    else if Ranked.rank a = Ranked.rank b then b :: bs
    else b :: place a bs

theorem mem_place {a x : α} {l : List α} : x ∈ place a l ↔ x = a ∨ x ∈ l := by
  induction l with
  | nil => simp [place]
  | cons b bs ih =>
    unfold place
    split
    · simp
    · split
      · next h =>
        have : a = b := Ranked.rank_injective h
        simp [this]
      · simp only [List.mem_cons, ih]
        constructor
        · rintro (h | h | h)
          · exact .inr (.inl h)
          · exact .inl h
          · exact .inr (.inr h)
        · rintro (h | h | h)
          · exact .inr (.inl h)
          · exact .inl h
          · exact .inr (.inr h)

theorem ascending_place (a : α) {l : List α}
    (h : l.Pairwise (fun a b => Ranked.rank a < Ranked.rank b)) :
    (place a l).Pairwise (fun a b => Ranked.rank a < Ranked.rank b) := by
  induction l with
  | nil => simp [place]
  | cons b bs ih =>
    rw [List.pairwise_cons] at h
    unfold place
    split
    · next hab =>
      refine List.pairwise_cons.mpr ⟨fun x hx => ?_, List.pairwise_cons.mpr h⟩
      rcases List.mem_cons.mp hx with rfl | hx
      · exact hab
      · exact Nat.lt_trans hab (h.1 x hx)
    · split
      · exact List.pairwise_cons.mpr h
      · next hlt hne =>
        refine List.pairwise_cons.mpr ⟨fun x hx => ?_, ih h.2⟩
        rcases mem_place.mp hx with rfl | hx
        · omega
        · exact h.1 x hx

/-- The set with `a` added. -/
def insert (a : α) (s : OrderedSet α) : OrderedSet α :=
  ⟨place a s.toList, ascending_place a s.ascending⟩

/-- The set with every member of a list added. -/
def insertAll (s : OrderedSet α) (as : List α) : OrderedSet α :=
  as.foldl (fun s a => s.insert a) s

/-- The set of the members of a list. -/
def ofList (as : List α) : OrderedSet α := empty.insertAll as

/-- The number of members. -/
def size (s : OrderedSet α) : Nat := s.toList.length

/-! ## Membership -/

theorem mem_def {a : α} {s : OrderedSet α} : a ∈ s ↔ a ∈ s.toList := Iff.rfl

@[simp] theorem not_mem_empty (a : α) : ¬ a ∈ (∅ : OrderedSet α) := List.not_mem_nil

@[simp] theorem mem_insert {a x : α} {s : OrderedSet α} : x ∈ s.insert a ↔ x = a ∨ x ∈ s :=
  mem_place

/-- To add a member changes nothing. -/
theorem insert_of_mem {a : α} {s : OrderedSet α} (h : a ∈ s) : s.insert a = s := by
  have hplace : ∀ l : List α, l.Pairwise (fun a b => Ranked.rank a < Ranked.rank b) → a ∈ l →
      place a l = l := by
    intro l hl ha
    induction l with
    | nil => simp at ha
    | cons b bs ih =>
      obtain ⟨hb, hbs⟩ := List.pairwise_cons.mp hl
      unfold place
      rcases List.mem_cons.mp ha with rfl | hmem
      · simp
      · have := hb a hmem
        rw [if_neg (by omega), if_neg (by omega), ih hbs hmem]
  exact ext_toList (hplace s.toList s.ascending h)

theorem mem_insertAll {x : α} {as : List α} {s : OrderedSet α} :
    x ∈ s.insertAll as ↔ x ∈ s ∨ x ∈ as := by
  induction as generalizing s with
  | nil => simp [insertAll]
  | cons a as ih =>
    have h : s.insertAll (a :: as) = (s.insert a).insertAll as := rfl
    rw [h, ih, mem_insert, List.mem_cons]
    constructor
    · rintro ((h | h) | h)
      · exact .inr (.inl h)
      · exact .inl h
      · exact .inr (.inr h)
    · rintro (h | h | h)
      · exact .inl (.inr h)
      · exact .inl (.inl h)
      · exact .inr h

end OrderedSet

end Vyakarana
