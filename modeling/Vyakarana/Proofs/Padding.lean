import Mathlib.Data.List.Basic
import Vyakarana.Proofs.State

/-!
# States with a block of terms put in

A block of terms of which no stage takes notice may be put into a state: terms of no category that
the stages look for, which have no sounds unless the block comes before everything. Every lookup
then finds the same terms, moved past the block.

* `State.placed_pad` — the terms of a padded state with their positions
* `State.find?_pad`, `State.findAll_pad` — terms are found by category where they were moved to
* `State.next?_pad`, `State.prev?_pad` — the neighbours of a term are the same, but for what stands
  to the left of all terms
* `State.replace_pad`, `State.insert_pad` — edits at places that terms were moved to
-/

namespace Vyakarana

/-- The term has none of the categories that the stages look for. -/
structure Term.Inert (e : Term) : Prop where
  dhatu : e.hasTag .dhatu = false
  anga : e.hasTag .anga = false
  abhyasa : e.hasTag .abhyasa = false

theorem Term.Inert.hasTag {e : Term} {tag : Tag} (h : e.Inert)
    (htag : tag ∈ [Tag.dhatu, .anga, .abhyasa]) : e.hasTag tag = false := by
  simp only [List.mem_cons, List.not_mem_nil, or_false] at htag
  rcases htag with rfl | rfl | rfl
  · exact h.dhatu
  · exact h.anga
  · exact h.abhyasa

/-- A block of inert terms, to be put before the term at position `start`. If anything stands
before the block, its terms have no sounds. -/
structure Padding where
  start : Nat
  block : List Term
  inert : ∀ e ∈ block, e.Inert
  silent : start = 0 ∨ ∀ e ∈ block, e.isEmpty = true

namespace Padding

/-- Where the term at a position is moved to. -/
def move (pad : Padding) (i : Nat) : Nat := if i < pad.start then i else i + pad.block.length

/-- A term with its position, moved. -/
def movePlaced (pad : Padding) : Term × Nat → Term × Nat := Prod.map id pad.move

/-- The padding once another term is put in at position `i`. -/
def after (pad : Padding) (i : Nat) : Padding where
  start := if i < pad.start then pad.start + 1 else pad.start
  block := pad.block
  inert := pad.inert
  silent := by
    rcases pad.silent with h | h
    · rw [h]
      exact Or.inl (if_neg (Nat.not_lt_zero i))
    · exact Or.inr h

variable {pad : Padding} {i : Nat}

theorem move_of_lt (h : i < pad.start) : pad.move i = i := if_pos h

theorem move_of_le (h : pad.start ≤ i) : pad.move i = i + pad.block.length :=
  if_neg (Nat.not_lt.mpr h)

/-- Where something stands before the block, the block is silent. -/
theorem isEmpty_of_lt (h : i < pad.start) : ∀ e ∈ pad.block, e.isEmpty = true := by
  rcases pad.silent with hzero | hsilent
  · omega
  · exact hsilent

/-- A block with sounds comes before everything. -/
theorem start_eq_zero_of_sounds {e : Term} (he : e ∈ pad.block) (hsounds : e.isEmpty = false) :
    pad.start = 0 := by
  rcases pad.silent with hzero | hsilent
  · exact hzero
  · rw [hsilent e he] at hsounds
    exact absurd hsounds (by decide)

end Padding

namespace State

/-- The state with a block put in. -/
def pad (s : State) (pad : Padding) : State :=
  { s with terms := s.terms.take pad.start ++ (pad.block ++ s.terms.drop pad.start) }

variable {s : State} {pad : Padding} {a : Term} {i : Nat}

@[simp] theorem ops_pad (s : State) (pad : Padding) : (s.pad pad).ops = s.ops := rfl

theorem addOp_pad (s : State) (pad : Padding) (op : Operation) :
    (s.pad pad).addOp op = (s.addOp op).pad pad := rfl

theorem size_pad (s : State) (pad : Padding) : (s.pad pad).size = s.size + pad.block.length := by
  have hsplit := congrArg List.length (List.take_append_drop pad.start s.terms)
  rw [List.length_append] at hsplit
  simp only [size, State.pad, List.length_append]
  omega

section Within

variable (h : pad.start ≤ s.size)
include h

theorem length_take_start : (s.terms.take pad.start).length = pad.start :=
  List.length_take_of_le h

/-- The terms before the position of the block and those after it, with their positions. -/
theorem zipIdx_split :
    s.terms.zipIdx
      = (s.terms.take pad.start).zipIdx ++ (s.terms.drop pad.start).zipIdx pad.start := by
  have hsplit : (s.terms.take pad.start ++ s.terms.drop pad.start).zipIdx
      = (s.terms.take pad.start).zipIdx
        ++ (s.terms.drop pad.start).zipIdx (0 + (s.terms.take pad.start).length) :=
    List.zipIdx_append
  rwa [List.take_append_drop, length_take_start h, Nat.zero_add] at hsplit

theorem map_movePlaced_before :
    (s.terms.take pad.start).zipIdx.map pad.movePlaced = (s.terms.take pad.start).zipIdx := by
  refine (List.map_congr_left fun x hx => ?_).trans (List.map_id _)
  have hlt := List.snd_lt_of_mem_zipIdx hx
  rw [length_take_start h, Nat.add_zero] at hlt
  exact Prod.ext rfl (Padding.move_of_lt hlt)

omit h in
theorem map_movePlaced_after :
    ((s.terms.drop pad.start).zipIdx pad.start).map pad.movePlaced
      = (s.terms.drop pad.start).zipIdx (pad.start + pad.block.length) := by
  rw [Nat.add_comm, ← List.map_snd_add_zipIdx_eq_zipIdx]
  refine List.map_congr_left fun x hx => ?_
  exact Prod.ext rfl (Padding.move_of_le (List.le_snd_of_mem_zipIdx hx))

/-- **The terms of a padded state with their positions**: those before the block, the block, and
those after it, moved. -/
theorem placed_pad :
    (s.pad pad).terms.zipIdx
      = (s.terms.take pad.start).zipIdx.map pad.movePlaced
        ++ (pad.block.zipIdx pad.start
          ++ ((s.terms.drop pad.start).zipIdx pad.start).map pad.movePlaced) := by
  rw [map_movePlaced_before h, map_movePlaced_after]
  show (s.terms.take pad.start ++ (pad.block ++ s.terms.drop pad.start)).zipIdx = _
  rw [List.zipIdx_append, List.zipIdx_append, length_take_start h, Nat.zero_add]

/-! ## Finding by category -/

omit h in
/-- A search that looks at terms only finds them where they were moved to, if it finds nothing in
the block. -/
theorem find?_moved (p : Term → Bool) {xs block ys : List (Term × Nat)}
    (hblock : block.find? (fun placed => p placed.1) = none) :
    (xs.map pad.movePlaced ++ (block ++ ys.map pad.movePlaced)).find? (fun placed => p placed.1)
      = ((xs ++ ys).find? fun placed => p placed.1).map pad.movePlaced := by
  rw [List.find?_append, List.find?_append, hblock, Option.none_or, List.find?_map, List.find?_map,
    List.find?_append, Option.map_or]
  rfl

omit h in
/-- The block has none of the terms that a stage looks for. -/
theorem not_mem_block_zipIdx (pad : Padding) {tag : Tag}
    (htag : tag ∈ [Tag.dhatu, .anga, .abhyasa]) :
    ∀ x ∈ pad.block.zipIdx pad.start, ¬ x.1.hasTag tag = true := by
  intro x hx
  rw [(pad.inert x.1 (List.fst_mem_of_mem_zipIdx hx)).hasTag htag]
  exact Bool.false_ne_true

theorem find?_pad (tag : Tag) (htag : tag ∈ [Tag.dhatu, .anga, .abhyasa]) :
    (s.pad pad).find? tag = (s.find? tag).map pad.movePlaced := by
  rw [find?, placed_pad h, find?, zipIdx_split h]
  exact find?_moved (·.hasTag tag) (List.find?_eq_none.mpr (not_mem_block_zipIdx pad htag))

theorem findAll_pad (tag : Tag) (htag : tag ∈ [Tag.dhatu, .anga, .abhyasa]) :
    (s.pad pad).findAll tag = (s.findAll tag).map pad.movePlaced := by
  have hblock := List.filter_eq_nil_iff.mpr (not_mem_block_zipIdx pad htag)
  rw [findAll, placed_pad h, findAll, zipIdx_split h, List.filter_append, List.filter_append,
    hblock, List.nil_append, List.filter_map, List.filter_map, List.filter_append, List.map_append]
  rfl

/-! ## Neighbours -/

omit h in
theorem find?_block_eq_none (hlt : i < pad.start) :
    (pad.block.zipIdx pad.start).find? (fun placed => !placed.1.isEmpty) = none := by
  rw [List.find?_eq_none]
  intro x hx
  rw [Padding.isEmpty_of_lt hlt x.1 (List.fst_mem_of_mem_zipIdx hx)]
  decide

/-- What stands after a term, with the block after that term as well. -/
theorem drop_placed_pad_of_lt (hi : i < pad.start) :
    (s.pad pad).terms.zipIdx.drop (pad.move i + 1)
      = ((s.terms.take pad.start).zipIdx.drop (i + 1)).map pad.movePlaced
        ++ (pad.block.zipIdx pad.start
          ++ ((s.terms.drop pad.start).zipIdx pad.start).map pad.movePlaced) := by
  have hlen := length_take_start h
  have hle : i + 1 ≤ ((s.terms.take pad.start).zipIdx.map pad.movePlaced).length := by
    rw [List.length_map, List.length_zipIdx]
    omega
  rw [placed_pad h, Padding.move_of_lt hi, List.drop_append_of_le_length hle, ← List.map_drop]

/-- What stands after a term, with the block before that term. -/
theorem drop_placed_pad_of_le (hi : pad.start ≤ i) :
    (s.pad pad).terms.zipIdx.drop (pad.move i + 1)
      = (s.terms.zipIdx.drop (i + 1)).map pad.movePlaced := by
  have hlen := length_take_start h
  have hplace : i + 1 = (s.terms.take pad.start).zipIdx.length + (i + 1 - pad.start) := by
    rw [List.length_zipIdx]
    omega
  have hmove : pad.move i + 1 = ((s.terms.take pad.start).zipIdx.map pad.movePlaced).length
      + ((pad.block.zipIdx pad.start).length + (i + 1 - pad.start)) := by
    rw [Padding.move_of_le hi, List.length_map, List.length_zipIdx, List.length_zipIdx]
    omega
  rw [placed_pad h, hmove, List.drop_length_add_append, List.drop_length_add_append,
    ← List.map_drop, zipIdx_split h, hplace, List.drop_length_add_append, ← hplace]

theorem next?_pad : (s.pad pad).next? (pad.move i) = (s.next? i).map pad.movePlaced := by
  by_cases hi : i < pad.start
  · have hle : i + 1 ≤ (s.terms.take pad.start).zipIdx.length := by
      rw [List.length_zipIdx, length_take_start h]
      exact hi
    rw [next?, drop_placed_pad_of_lt h hi, next?, zipIdx_split h,
      List.drop_append_of_le_length hle]
    exact find?_moved (!·.isEmpty) (find?_block_eq_none hi)
  · rw [next?, drop_placed_pad_of_le h (Nat.not_lt.mp hi), List.find?_map]
    rfl

theorem any_next?_pad (p : Term → Bool) :
    ((s.pad pad).next? (pad.move i)).any (fun placed => p placed.1)
      = (s.next? i).any fun placed => p placed.1 := by
  rw [next?_pad h, Option.any_map]
  rfl

/-- What stands before a term, with the block after that term. -/
theorem take_placed_pad_of_lt (hi : i < pad.start) :
    (s.pad pad).terms.zipIdx.take (pad.move i) = (s.terms.zipIdx.take i).map pad.movePlaced := by
  have hle : i ≤ (s.terms.take pad.start).zipIdx.length := by
    rw [List.length_zipIdx, length_take_start h]
    exact Nat.le_of_lt hi
  rw [placed_pad h, zipIdx_split h, Padding.move_of_lt hi, List.take_append_of_le_length hle,
    List.take_append_of_le_length (by rwa [List.length_map]), List.map_take]

/-- What stands before a term, with the block before that term as well. -/
theorem take_placed_pad_of_le (hi : pad.start ≤ i) :
    (s.pad pad).terms.zipIdx.take (pad.move i)
      = (s.terms.take pad.start).zipIdx.map pad.movePlaced
        ++ (pad.block.zipIdx pad.start
          ++ (((s.terms.drop pad.start).zipIdx pad.start).take (i - pad.start)).map
            pad.movePlaced) := by
  have hlen := length_take_start h
  have hmove : pad.move i = ((s.terms.take pad.start).zipIdx.map pad.movePlaced).length
      + ((pad.block.zipIdx pad.start).length + (i - pad.start)) := by
    rw [Padding.move_of_le hi, List.length_map, List.length_zipIdx, List.length_zipIdx]
    omega
  rw [placed_pad h, hmove, List.take_length_add_append, List.take_length_add_append, List.map_take]

/-- The left neighbour is the same, or there was none and now it is a term of the block. -/
theorem prev?_pad :
    (s.pad pad).prev? (pad.move i) = (s.prev? i).map pad.movePlaced
      ∨ s.prev? i = none ∧ ∃ e ∈ pad.block, ∃ j, (s.pad pad).prev? (pad.move i) = some (e, j) := by
  by_cases hi : i < pad.start
  · refine Or.inl ?_
    rw [prev?, take_placed_pad_of_lt h hi, ← List.map_reverse, List.find?_map]
    rfl
  · rw [Nat.not_lt] at hi
    have hlen := length_take_start h
    have hplace : i = (s.terms.take pad.start).zipIdx.length + (i - pad.start) := by
      rw [List.length_zipIdx]
      omega
    have htake : s.terms.zipIdx.take i = (s.terms.take pad.start).zipIdx
        ++ ((s.terms.drop pad.start).zipIdx pad.start).take (i - pad.start) := by
      rw [zipIdx_split h, hplace, List.take_length_add_append, ← hplace]
    rw [prev?, take_placed_pad_of_le h hi, prev?, htake, List.reverse_append, List.reverse_append,
      List.append_assoc, ← List.map_reverse, ← List.map_reverse, List.reverse_append]
    cases hfound : (pad.block.zipIdx pad.start).reverse.find? (fun placed => !placed.1.isEmpty) with
    | none => exact Or.inl (find?_moved (!·.isEmpty) hfound)
    | some x =>
      have hmem : x.1 ∈ pad.block :=
        List.fst_mem_of_mem_zipIdx (List.mem_reverse.mp (List.mem_of_find?_eq_some hfound))
      have hsound : x.1.isEmpty = false := by simpa using List.find?_some hfound
      have hnil : (s.terms.take pad.start).zipIdx = [] := by
        rw [Padding.start_eq_zero_of_sounds hmem hsound, List.take_zero, List.zipIdx_nil]
      rw [hnil, List.reverse_nil, List.map_nil, List.append_nil, List.append_nil, List.find?_append,
        hfound, List.find?_map]
      cases hleft : (((s.terms.drop pad.start).zipIdx pad.start).take (i - pad.start)).reverse.find?
          ((fun placed => !placed.1.isEmpty) ∘ pad.movePlaced) with
      | none => exact Or.inr ⟨hleft, x.1, hmem, x.2, rfl⟩
      | some y => exact Or.inl (congrArg (Option.map pad.movePlaced) hleft.symm)

/-! ## Single positions and edits -/

theorem getElem?_pad : (s.pad pad).terms[pad.move i]? = s.terms[i]? := by
  have hlen := length_take_start h
  show (s.terms.take pad.start ++ (pad.block ++ s.terms.drop pad.start))[pad.move i]? = _
  by_cases hi : i < pad.start
  · rw [Padding.move_of_lt hi, List.getElem?_append_left (by omega), List.getElem?_take_of_lt hi]
  · rw [Nat.not_lt] at hi
    have hrest : pad.start + (i + pad.block.length - pad.start - pad.block.length) = i := by omega
    rw [Padding.move_of_le hi, List.getElem?_append_right (by omega),
      List.getElem?_append_right (by omega), hlen, List.getElem?_drop, hrest]

theorem getElem?_pad_block {j : Nat} (hj : j < pad.block.length) :
    (s.pad pad).terms[pad.start + j]? = pad.block[j]? := by
  have hlen := length_take_start h
  show (s.terms.take pad.start ++ (pad.block ++ s.terms.drop pad.start))[pad.start + j]? = _
  rw [List.getElem?_append_right (by omega), hlen, Nat.add_sub_cancel_left,
    List.getElem?_append_left hj]

theorem replace_pad (a : Term) :
    (s.pad pad).replace (pad.move i) a = (s.replace i a).pad pad := by
  have hlen := length_take_start h
  have hterms : (s.terms.take pad.start ++ (pad.block ++ s.terms.drop pad.start)).set (pad.move i) a
      = (s.terms.set i a).take pad.start
        ++ (pad.block ++ (s.terms.set i a).drop pad.start) := by
    rw [List.take_set, List.drop_set]
    by_cases hi : i < pad.start
    · rw [Padding.move_of_lt hi, if_pos hi, List.set_append_left _ _ (by omega)]
    · rw [if_neg hi]
      rw [Nat.not_lt] at hi
      have hrest : i + pad.block.length - pad.start - pad.block.length = i - pad.start := by omega
      have hsame : (s.terms.take pad.start).set i a = s.terms.take pad.start :=
        List.set_eq_of_length_le (by omega)
      rw [Padding.move_of_le hi, List.set_append_right _ _ (by omega),
        List.set_append_right _ _ (by omega), hlen, hrest, hsame]
  exact congrArg (State.mk · s.ops) hterms

end Within

theorem terms_pad_of_split {before after : List Term} (hsplit : s.terms = before ++ after)
    (hlen : before.length = pad.start) :
    (s.pad pad).terms = before ++ (pad.block ++ after) := by
  show s.terms.take pad.start ++ (pad.block ++ s.terms.drop pad.start) = _
  rw [hsplit, List.take_left' hlen, List.drop_left' hlen]

theorem terms_insert_of_split {before after : List Term} (hsplit : s.terms = before ++ after)
    (hlen : before.length = i) (a : Term) : (s.insert i a).terms = before ++ a :: after := by
  show s.terms.take i ++ a :: s.terms.drop i = _
  rw [hsplit, List.take_left' hlen, List.drop_left' hlen]

/-- A list cut at two places. -/
theorem exists_split_of_le {α : Type} {l : List α} {i j : Nat} (hij : i ≤ j) (hj : j ≤ l.length) :
    ∃ before middle after, l = before ++ (middle ++ after) ∧ before.length = i
      ∧ before.length + middle.length = j := by
  refine ⟨l.take i, (l.drop i).take (j - i), (l.drop i).drop (j - i), ?_, ?_, ?_⟩
  · rw [List.take_append_drop, List.take_append_drop]
  · exact List.length_take_of_le (Nat.le_trans hij hj)
  · rw [List.length_take, List.length_take, List.length_drop]
    omega

/-- A term that is put in before another one comes between that one and the block. -/
theorem insert_pad (h : pad.start ≤ s.size) (hi : i ≤ s.size) (a : Term) :
    (s.pad pad).insert (pad.move i) a = (s.insert i a).pad (pad.after i) := by
  have hterms : ((s.pad pad).insert (pad.move i) a).terms
      = ((s.insert i a).pad (pad.after i)).terms := by
    by_cases hlt : i < pad.start
    · obtain ⟨before, middle, rest, hsplit, hbefore, hmiddle⟩ :=
        exists_split_of_le (Nat.le_of_lt hlt) h
      have hstart : (pad.after i).start = pad.start + 1 := if_pos hlt
      have hcut : s.terms = (before ++ middle) ++ rest := by rw [hsplit, List.append_assoc]
      have hpad : (s.pad pad).terms = before ++ (middle ++ (pad.block ++ rest)) := by
        rw [terms_pad_of_split hcut (by rw [List.length_append, hmiddle]), List.append_assoc]
      have hins : (s.insert i a).terms = (before ++ a :: middle) ++ rest := by
        rw [terms_insert_of_split hsplit hbefore, List.append_assoc, List.cons_append]
      rw [Padding.move_of_lt hlt, terms_insert_of_split hpad hbefore,
        terms_pad_of_split hins (by rw [List.length_append, List.length_cons, hstart]; omega),
        List.append_assoc, List.cons_append]
      rfl
    · rw [Nat.not_lt] at hlt
      obtain ⟨before, middle, rest, hsplit, hbefore, hmiddle⟩ := exists_split_of_le hlt hi
      have hstart : (pad.after i).start = pad.start := if_neg (Nat.not_lt.mpr hlt)
      have hpad : (s.pad pad).terms = before ++ (pad.block ++ middle) ++ rest := by
        rw [terms_pad_of_split hsplit hbefore, List.append_assoc, List.append_assoc]
      have hcut : s.terms = (before ++ middle) ++ rest := by rw [hsplit, List.append_assoc]
      have hins : (s.insert i a).terms = before ++ (middle ++ a :: rest) := by
        rw [terms_insert_of_split hcut (by rw [List.length_append, hmiddle]), List.append_assoc]
      rw [Padding.move_of_le hlt, terms_insert_of_split hpad
          (by rw [List.length_append, List.length_append]; omega),
        terms_pad_of_split hins (by rw [hstart, hbefore]), List.append_assoc, List.append_assoc]
      rfl
  exact congrArg (State.mk · s.ops) hterms

/-- The last term stays the last, if the block is put before some term. -/
theorem getLast?_pad (h : pad.start < s.size) : (s.pad pad).terms.getLast? = s.terms.getLast? := by
  have hne : s.terms.drop pad.start ≠ [] := by
    rw [Ne, List.drop_eq_nil_iff, Nat.not_le]
    exact h
  have hsplit := List.getLast?_append_of_ne_nil (s.terms.take pad.start) hne
  rw [List.take_append_drop] at hsplit
  show (s.terms.take pad.start ++ (pad.block ++ s.terms.drop pad.start)).getLast? = _
  rw [← List.append_assoc, List.getLast?_append_of_ne_nil _ hne, hsplit]

theorem surface_pad (hsilent : ∀ e ∈ pad.block, e.isEmpty = true) :
    (s.pad pad).surface = s.surface := by
  have hblock : pad.block.flatMap Term.value = [] := by
    rw [List.flatMap_eq_nil_iff]
    exact fun e he => List.isEmpty_iff.mp (hsilent e he)
  show (s.terms.take pad.start ++ (pad.block ++ s.terms.drop pad.start)).flatMap Term.value = _
  rw [List.flatMap_append, List.flatMap_append, hblock, List.nil_append, ← List.flatMap_append,
    List.take_append_drop, surface]

end State

end Vyakarana
