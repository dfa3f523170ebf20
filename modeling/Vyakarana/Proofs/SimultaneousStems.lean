import Mathlib.Data.List.Perm.Basic
import Vyakarana.Proofs.Sounding

/-!
# Stems are strengthened at the same time

Strengthening goes through the stems one after the other, and looks for the suffix of each in the
state that it has come to by then. But it takes the sounds of no term, and of a suffix it looks at
nothing that it changes. So each stem becomes what it would have become alone, in whatever order the
stems have their turns.

* `Strengthening.seen`, `Strengthening.reshape_of_seen` — what is looked at in a suffix
* `Strengthening.seen_reshape` — that stays when the suffix is itself a stem that is reshaped
* `Strengthening.outcome` — what becomes of a term, by the next one with sounds
* `Strengthening.getElem?_reshapeEach` — the terms after any of the stems had their turns
* `Strengthening.apply_eq_simultaneous` — the stage puts all outcomes in at once
-/

namespace Vyakarana.Strengthening

variable {gana : Gana} {s t : State} {a m n : Term} {i j : Nat} {positions order : List Nat}

/-! ## What is seen of a suffix -/

/-- What strengthening looks at in the terms after a stem: whether they have sounds, their markers
and their categories. -/
def seen (n : Term) : Bool × OrderedSet Marker × OrderedSet Tag := (n.isEmpty, n.markers, n.tags)

/-- Suffixes of which the same is seen have the same effect. -/
theorem reshape_of_seen (h : seen m = seen n) (a : Term) : reshape gana a m = reshape gana a n := by
  simp only [seen, Prod.mk.injEq] at h
  obtain ⟨-, hmarkers, htags⟩ := h
  have hmarker : m.hasMarker = n.hasMarker := by
    funext marker
    rw [Term.hasMarker, hmarkers, Term.hasMarker]
  have htag : m.hasTag = n.hasTag := funext (Term.hasTag_congr htags)
  unfold reshape Term.anyMarker Term.anyTag
  rw [hmarker, htag]

theorem reshape_of_isEmpty (h : a.isEmpty = true) (n : Term) : reshape gana a n = a := by
  have hvalue : a.value = [] := List.isEmpty_iff.mp h
  have hguna : a.guna = a := by simp [Term.guna, Term.antya?, hvalue]
  have hvrddhi : a.vrddhi = a := by simp [Term.vrddhi, Term.antya?, hvalue]
  have hsamprasarana : a.samprasarana = a := by
    simp [Term.samprasarana, hvalue, Term.vocaliseFirst?]
  simp [reshape, hguna, hvrddhi, hsamprasarana]

/-- A stem that is reshaped is seen as before by the stems in front of it. -/
theorem seen_reshape (gana : Gana) (a n : Term) : seen (reshape gana a n) = seen a := by
  have hrevalued := revalued_reshape gana a n
  have hempty : (reshape gana a n).isEmpty = a.isEmpty := by
    cases ha : a.isEmpty with
    | true => rw [reshape_of_isEmpty ha, ha]
    | false =>
      rw [Bool.eq_false_iff]
      intro hsilent
      rcases (resounds_reshape gana a n).silent hsilent with h | h
      · rw [ha] at h
        exact Bool.false_ne_true h
      · exact h
  rw [seen, hempty, hrevalued]
  rfl

/-! ## Next terms -/

/-- The next term with sounds after a position, without its own. -/
def follower? (s : State) (i : Nat) : Option Term := (s.next? i).map Prod.fst

theorem follower?_eq (s : State) (i : Nat) :
    follower? s i = (s.terms.drop (i + 1)).find? (!·.isEmpty) := by
  have hplain : (s.terms.zipIdx.drop (i + 1)).map Prod.fst = s.terms.drop (i + 1) := by
    rw [List.map_drop, List.zipIdx_map_fst]
  rw [← hplain, List.find?_map]
  rfl

/-- States that look the same have the same next terms, as far as these are seen. -/
theorem seen_follower? (h : t.terms.map seen = s.terms.map seen) (i : Nat) :
    (follower? t i).map seen = (follower? s i).map seen := by
  have hview : ∀ s : State, (follower? s i).map seen
      = ((s.terms.map seen).drop (i + 1)).find? (!·.1) := by
    intro s
    rw [follower?_eq, ← List.map_drop, List.find?_map]
    rfl
  rw [hview, hview, h]

/-! ## Single stems -/

/-- What strengthening makes of a term, by the next term with sounds. -/
def outcome (gana : Gana) (a : Term) : Option Term → Term
  | none => a
  | some n =>
    if .anga ∉ a.tags then a
    -- 6.1.15, 6.1.16
    else if (.kit ∈ n.markers ∧ gana.inVac a.clean = true)
        ∨ ((.kit ∈ n.markers ∨ .Nit ∈ n.markers) ∧ gana.inGrah a.clean = true) then a.samprasarana
    -- 1.1.5
    else if .kit ∈ n.markers ∨ .Nit ∈ n.markers then a
    -- 7.2.115, 7.2.116
    else if .Yit ∈ n.markers ∨ .Rit ∈ n.markers then
      if a.isAc = true ∨ a.upadha? = some 'a' then a.vrddhi else a.guna
    -- 7.3.84
    else if .sarvadhatuka ∈ n.tags ∨ .ardhadhatuka ∈ n.tags then a.guna
    else a

theorem outcome_of_not_anga (h : ¬a.hasTag .anga = true) (next : Option Term) :
    outcome gana a next = a := by
  cases next with
  | none => rfl
  | some n =>
    have hnot : .anga ∉ a.tags := by simpa [Term.hasTag] using h
    rw [outcome, if_pos hnot]

/-- Of a stem it is what the stage computes. -/
theorem outcome_of_anga (h : a.hasTag .anga = true) (n : Term) :
    outcome gana a (some n) = reshape gana a n := by
  have hanga : ¬.anga ∉ a.tags := by simpa [Term.hasTag] using h
  rw [outcome, if_neg hanga]
  simp [reshape, Term.anyMarker, Term.anyTag, Term.hasMarker, Term.hasTag]

theorem seen_outcome (gana : Gana) (a : Term) (next : Option Term) :
    seen (outcome gana a next) = seen a := by
  by_cases hanga : a.hasTag .anga = true
  · cases next with
    | none => rfl
    | some n => rw [outcome_of_anga hanga, seen_reshape]
  · rw [outcome_of_not_anga hanga]

theorem outcome_congr {next next' : Option Term} (h : next.map seen = next'.map seen) (a : Term) :
    outcome gana a next = outcome gana a next' := by
  by_cases hanga : a.hasTag .anga = true
  · cases next with
    | none =>
      cases next' with
      | none => rfl
      | some n => simp at h
    | some m =>
      cases next' with
      | none => simp at h
      | some n =>
        rw [outcome_of_anga hanga, outcome_of_anga hanga, reshape_of_seen (Option.some.inj h)]
  · rw [outcome_of_not_anga hanga, outcome_of_not_anga hanga]

/-- Reshaping the stem at a position puts its outcome there. -/
theorem reshapeAt_eq (ha : s.terms[i]? = some a) (hanga : a.hasTag .anga = true) :
    reshapeAt gana s i = s.replace i (outcome gana a (follower? s i)) := by
  rw [reshapeAt, change?, State.get?, ha, follower?]
  cases s.next? i with
  | none => exact (State.replace_self ha).symm
  | some placed =>
    rw [Option.map_some, outcome_of_anga hanga]
    dsimp only
    by_cases hsame : reshape gana a placed.1 = a
    · rw [if_pos hsame, hsame]
      exact (State.replace_self ha).symm
    · rw [if_neg hsame]

/-- The state looks as before to the stems. -/
theorem seen_reshapeAt (ha : s.terms[i]? = some a) (hanga : a.hasTag .anga = true) :
    (reshapeAt gana s i).terms.map seen = s.terms.map seen := by
  have hseen : (s.terms.map seen)[i]? = some (seen a) := by
    rw [List.getElem?_map, ha, Option.map_some]
  obtain ⟨hi, hget⟩ := List.getElem?_eq_some_iff.mp hseen
  rw [reshapeAt_eq ha hanga, State.terms_replace, List.map_set, seen_outcome, ← hget,
    List.set_getElem_self]

/-! ## All stems -/

/-- There is a stem at the position. -/
def IsStem (s : State) (i : Nat) : Prop := ∃ a, s.terms[i]? = some a ∧ a.hasTag .anga = true

theorem mem_stems_iff : i ∈ stems s ↔ IsStem s i := by
  rw [stems, List.mem_map]
  constructor
  · rintro ⟨⟨a, j⟩, hmem, rfl⟩
    exact ⟨a, State.mem_findAll.mp hmem⟩
  · rintro ⟨a, ha⟩
    exact ⟨(a, i), State.mem_findAll.mpr ha, rfl⟩

theorem nodup_stems (s : State) : (stems s).Nodup := by
  have hsub : (stems s).Sublist (s.terms.zipIdx.map Prod.snd) := List.filter_sublist.map _
  rw [List.zipIdx_map_snd] at hsub
  exact (List.nodup_range' 1).sublist hsub

/-- Stems are seen as stems. -/
theorem isStem_of_seen (h : t.terms.map seen = s.terms.map seen) (hi : IsStem s i) :
    IsStem t i := by
  obtain ⟨a, ha, hanga⟩ := hi
  have hb : (t.terms.map seen)[i]? = some (seen a) := by
    rw [h, List.getElem?_map, ha, Option.map_some]
  rw [List.getElem?_map] at hb
  obtain ⟨b, hb, hseen⟩ := Option.map_eq_some_iff.mp hb
  simp only [seen, Prod.mk.injEq] at hseen
  exact ⟨b, hb, (Term.hasTag_congr hseen.2.2 .anga).trans hanga⟩

/-- **The terms after some of the stems had their turns**, one after the other: those are replaced
by their outcomes in the state as it was before, and all other terms stay. -/
theorem getElem?_reshapeEach (hstems : ∀ i ∈ positions, IsStem s i) (hnodup : positions.Nodup)
    (j : Nat) :
    (reshapeEach gana s positions).terms[j]?
      = (s.terms[j]?).map fun a =>
        if j ∈ positions then outcome gana a (follower? s j) else a := by
  induction positions generalizing s with
  | nil => simp [reshapeEach]
  | cons i rest ih =>
    obtain ⟨hi, hrest⟩ := List.nodup_cons.mp hnodup
    obtain ⟨a, ha, hanga⟩ := hstems i List.mem_cons_self
    have hseen : (reshapeAt gana s i).terms.map seen = s.terms.map seen := seen_reshapeAt ha hanga
    have hlater :=
      ih (fun k hk => isStem_of_seen hseen (hstems k (List.mem_cons_of_mem i hk))) hrest
    show (reshapeEach gana (reshapeAt gana s i) rest).terms[j]? = _
    rw [hlater]
    by_cases hij : i = j
    · -- the first stem has no other turn
      subst hij
      have hnew : (reshapeAt gana s i).terms[i]? = some (outcome gana a (follower? s i)) := by
        rw [reshapeAt_eq ha hanga, State.terms_replace]
        exact List.getElem?_set_self (List.getElem?_eq_some_iff.mp ha).1
      simp [hnew, ha, hi]
    · -- what it became makes no difference to the others
      have hold : (reshapeAt gana s i).terms[j]? = s.terms[j]? := by
        rw [reshapeAt_eq ha hanga, State.terms_replace, List.getElem?_set_ne hij]
      have hmem : j ∈ i :: rest ↔ j ∈ rest := by simp [Ne.symm hij]
      rw [hold]
      refine Option.map_congr fun b _ => ?_
      rw [outcome_congr (seen_follower? hseen j), if_congr hmem rfl rfl]

/-- The state with every term replaced by its outcome. -/
def simultaneous (gana : Gana) (s : State) : State :=
  { s with terms := s.terms.mapIdx fun i a => outcome gana a (follower? s i) }

theorem ops_reshapeEach (gana : Gana) (s : State) (positions : List Nat) :
    (reshapeEach gana s positions).ops = s.ops := by
  induction positions generalizing s with
  | nil => rfl
  | cons i rest ih =>
    have hfirst : (reshapeAt gana s i).ops = s.ops := by
      unfold reshapeAt
      split
      · rfl
      · rfl
    exact (ih (reshapeAt gana s i)).trans hfirst

/-- In whatever order the stems have their turns. -/
theorem reshapeEach_eq_simultaneous (h : order.Perm (stems s)) :
    reshapeEach gana s order = simultaneous gana s := by
  have hstems : ∀ i ∈ order, IsStem s i := fun i hi => mem_stems_iff.mp (h.mem_iff.mp hi)
  have hterms : (reshapeEach gana s order).terms = (simultaneous gana s).terms := by
    refine List.ext_getElem? fun j => ?_
    rw [getElem?_reshapeEach hstems (h.nodup_iff.mpr (nodup_stems s)), simultaneous,
      List.getElem?_mapIdx]
    refine Option.map_congr fun a ha => ?_
    by_cases hj : j ∈ order
    · rw [if_pos hj]
    · have hnot : ¬a.hasTag .anga = true := fun hanga =>
        hj (h.mem_iff.mpr (mem_stems_iff.mpr ⟨a, ha, hanga⟩))
      rw [if_neg hj, outcome_of_not_anga hnot]
  show (⟨(reshapeEach gana s order).terms, (reshapeEach gana s order).ops⟩ : State) = _
  rw [hterms, ops_reshapeEach]
  rfl

/-- **Strengthening is a simultaneous substitution.** Where its turn has come it gives one state, in
which every term is replaced by its outcome in the state as it was before. The stems may have their
turns in any order. -/
theorem apply_eq_simultaneous (hneeded : .dvirvacana ∈ s.ops) (hopen : .angaAdesha ∉ s.ops)
    (hanga : s.has .anga = true) :
    (stage gana).apply s = [(simultaneous gana s).addOp .angaAdesha]
      ∧ ∀ order : List Nat, order.Perm (stems s) →
        reshapeEach gana (s.addOp .angaAdesha) order = (simultaneous gana s).addOp .angaAdesha := by
  have horder : ∀ order : List Nat, order.Perm (stems s) →
      reshapeEach gana (s.addOp .angaAdesha) order = (simultaneous gana s).addOp .angaAdesha :=
    fun order h => reshapeEach_eq_simultaneous (s := s.addOp .angaAdesha) h
  refine ⟨?_, horder⟩
  obtain ⟨a, i, hfound⟩ := State.exists_find?_of_has hanga
  have hstem : i ∈ stems (s.addOp .angaAdesha) :=
    mem_stems_iff.mpr ⟨a, State.get?_of_find? hfound, State.hasTag_of_find? hfound⟩
  rw [stage_eq, Slot.apply_rule, if_pos ⟨hopen, decide_eq_true hneeded⟩]
  show body gana (s.addOp .angaAdesha) = _
  unfold body
  split
  · next hnone =>
    rw [hnone] at hstem
    exact absurd hstem List.not_mem_nil
  · exact congrArg (fun t => [t]) (horder (stems s) (List.Perm.refl _))

/-- Two stems with a term without sounds between them. The second is the suffix of the first and is
reshaped itself. -/
theorem apply_eq_simultaneous_two :
    let second := (Term.dhatu "BU".toList).withMarkers [.Rit]
    let s : State := ⟨[.dhatu "ji".toList, .plain [], second, .vibhakti "Ral".toList],
      .ofList [.dvirvacana]⟩
    .dvirvacana ∈ s.ops ∧ .angaAdesha ∉ s.ops ∧ s.has .anga = true ∧ stems s = [0, 2]
      ∧ (stage {}).apply s = [(simultaneous {} s).addOp .angaAdesha]
      ∧ reshapeEach {} (s.addOp .angaAdesha) [2, 0] = (simultaneous {} s).addOp .angaAdesha
      ∧ (simultaneous {} s).terms.map Term.value
        = ["jE".toList, [], "BO".toList, "a".toList] := by
  intro second s
  have hneeded : .dvirvacana ∈ s.ops := by decide
  have hopen : .angaAdesha ∉ s.ops := by decide
  have hanga : s.has .anga = true := by decide
  have hstems : stems s = [0, 2] := by decide
  obtain ⟨happly, horder⟩ := @apply_eq_simultaneous {} s hneeded hopen hanga
  exact ⟨hneeded, hopen, hanga, hstems, happly,
    horder [2, 0] (hstems ▸ List.Perm.swap 0 2 []), by decide⟩

end Vyakarana.Strengthening
