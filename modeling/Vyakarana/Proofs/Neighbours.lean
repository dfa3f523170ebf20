import Vyakarana.Proofs.State

/-!
# Neighbours past empty terms

The neighbour after a term is looked up forwards from its place, the one before it backwards from
there, and both look past the terms that have lost their sounds. So a term is the next one of
another exactly if that one is its previous one, namely if only empty terms stand between them.
What stands at the place itself plays no part.

* `State.next?_eq_some_iff`, `State.prev?_eq_some_iff` — the neighbours of a place
* `State.neighbours_mutual` — next and previous undo each other, and windows show the neighbours
-/

namespace Vyakarana.State

variable {s t : State} {a : Term} {i j : Nat}

/-- The terms strictly between two places have lost their sounds. -/
def SilentBetween (s : State) (i j : Nat) : Prop :=
  ∀ k < j, i < k → (s.get? k).all Term.isEmpty = true

instance : Decidable (s.SilentBetween i j) :=
  inferInstanceAs (Decidable (∀ k < j, i < k → (s.get? k).all Term.isEmpty = true))

/-- The place of the next term that has sounds. -/
def nextPlace? (s : State) (i : Nat) : Option Nat := (s.next? i).map Prod.snd

/-- The place of the previous term that has sounds. -/
def prevPlace? (s : State) (i : Nat) : Option Nat := (s.prev? i).map Prod.snd

/-! ## What is found -/

/-- A search through terms of the state that stand at known places stops at the first with
sounds. -/
theorem find?_sounds_eq_some_iff {placed : List (Term × Nat)} (place : Nat → Nat)
    (hplaced : ∀ m (hm : m < placed.length),
      placed[m].2 = place m ∧ s.get? (place m) = some placed[m].1) :
    placed.find? (fun x => !x.1.isEmpty) = some (a, j)
      ↔ s.get? j = some a ∧ a.isEmpty = false
        ∧ ∃ m < placed.length, place m = j
          ∧ ∀ k < m, (s.get? (place k)).all Term.isEmpty = true := by
  rw [List.find?_eq_some_iff_getElem]
  constructor
  · rintro ⟨hsounds, m, hm, hfound, hbefore⟩
    obtain ⟨hat, hterm⟩ := hplaced m hm
    rw [hfound] at hat hterm
    obtain rfl : j = place m := hat
    refine ⟨hterm, by simpa using hsounds, m, hm, rfl, fun k hk => ?_⟩
    rw [(hplaced k (Nat.lt_trans hk hm)).2]
    simpa using hbefore k hk
  · rintro ⟨hterm, hsounds, m, hm, rfl, hbefore⟩
    obtain ⟨hat, hfound⟩ := hplaced m hm
    refine ⟨by simpa using hsounds, m, hm, Prod.ext ?_ hat, fun k hk => ?_⟩
    · exact Option.some.inj (hfound.symm.trans hterm)
    · have hempty := hbefore k hk
      rw [(hplaced k (Nat.lt_trans hk hm)).2] at hempty
      simpa using hempty

theorem next?_eq_some_iff :
    s.next? i = some (a, j)
      ↔ s.get? j = some a ∧ a.isEmpty = false ∧ i < j ∧ s.SilentBetween i j := by
  have hlength : (s.terms.zipIdx.drop (i + 1)).length = s.terms.length - (i + 1) := by simp
  rw [next?, find?_sounds_eq_some_iff (s := s) (fun m => i + 1 + m) (by simp [get?]), hlength]
  refine and_congr_right fun hget => and_congr_right fun _ => ?_
  obtain ⟨hj, -⟩ := List.getElem?_eq_some_iff.mp hget
  constructor
  · rintro ⟨m, -, rfl, hbefore⟩
    refine ⟨by omega, fun k hkj hik => ?_⟩
    obtain ⟨d, rfl⟩ := Nat.exists_eq_add_of_le hik
    exact hbefore d (by omega)
  · rintro ⟨hij, hsilent⟩
    exact ⟨j - (i + 1), by omega, by omega, fun k hk => hsilent _ (by omega) (by omega)⟩

theorem prev?_eq_some_iff :
    s.prev? j = some (a, i)
      ↔ s.get? i = some a ∧ a.isEmpty = false ∧ i < j ∧ s.SilentBetween i j := by
  -- read backwards, place `m` of the terms before `j` is place `count - 1 - m`
  let count := min j s.terms.length
  have hlength : (s.terms.zipIdx.take j).reverse.length = count := by simp [count]
  have hplaced : ∀ m (hm : m < (s.terms.zipIdx.take j).reverse.length),
      (s.terms.zipIdx.take j).reverse[m].2 = count - 1 - m
        ∧ s.get? (count - 1 - m) = some (s.terms.zipIdx.take j).reverse[m].1 := by
    intro m hm
    rw [hlength] at hm
    have hlt : count - 1 - m < s.terms.length := by omega
    simp [get?, count, hlt]
  rw [prev?, find?_sounds_eq_some_iff (fun m => count - 1 - m) hplaced, hlength]
  refine and_congr_right fun hget => and_congr_right fun _ => ?_
  obtain ⟨hi, -⟩ := List.getElem?_eq_some_iff.mp hget
  constructor
  · rintro ⟨m, hm, rfl, hbefore⟩
    refine ⟨by omega, fun k hkj hik => ?_⟩
    by_cases hk : k < s.terms.length
    · have hempty := hbefore (count - 1 - k) (by omega)
      rwa [show count - 1 - (count - 1 - k) = k by omega] at hempty
    · rw [get?, List.getElem?_eq_none (Nat.not_lt.mp hk), Option.all_none]
  · rintro ⟨hij, hsilent⟩
    exact ⟨count - 1 - i, by omega, by omega, fun k hk => hsilent _ (by omega) (by omega)⟩

/-! ## Next and previous -/

theorem nextPlace?_eq_some_iff {b : Term} (hb : s.get? j = some b) (hsounds : b.isEmpty = false) :
    s.nextPlace? i = some j ↔ i < j ∧ s.SilentBetween i j := by
  rw [nextPlace?, Option.map_eq_some_iff]
  constructor
  · rintro ⟨⟨a, k⟩, hnext, rfl⟩
    exact (next?_eq_some_iff.mp hnext).2.2
  · rintro ⟨hij, hsilent⟩
    exact ⟨(b, j), next?_eq_some_iff.mpr ⟨hb, hsounds, hij, hsilent⟩, rfl⟩

theorem prevPlace?_eq_some_iff (ha : s.get? i = some a) (hsounds : a.isEmpty = false) :
    s.prevPlace? j = some i ↔ i < j ∧ s.SilentBetween i j := by
  rw [prevPlace?, Option.map_eq_some_iff]
  constructor
  · rintro ⟨⟨b, k⟩, hprev, rfl⟩
    exact (prev?_eq_some_iff.mp hprev).2.2
  · rintro ⟨hij, hsilent⟩
    exact ⟨(a, i), prev?_eq_some_iff.mpr ⟨ha, hsounds, hij, hsilent⟩, rfl⟩

/-- What is found as the next term stands at its place. -/
theorem nextPlace?_bind_get? (s : State) (i : Nat) :
    (s.nextPlace? i).bind s.get? = (s.next? i).map Prod.fst := by
  rw [nextPlace?]
  cases h : s.next? i with
  | none => rfl
  | some placed => exact (next?_eq_some_iff.mp h).1

/-- What is found as the previous term stands at its place. -/
theorem prevPlace?_bind_get? (s : State) (i : Nat) :
    (s.prevPlace? i).bind s.get? = (s.prev? i).map Prod.fst := by
  rw [prevPlace?]
  cases h : s.prev? i with
  | none => rfl
  | some placed => exact (prev?_eq_some_iff.mp h).1

/-! ## Other terms at the place -/

/-- The next term hangs on what stands after the place only. -/
theorem next?_congr (h : ∀ k, i < k → t.get? k = s.get? k) : t.next? i = s.next? i := by
  have hsilent : ∀ j, t.SilentBetween i j ↔ s.SilentBetween i j := by
    intro j
    refine forall₃_congr fun k _ hik => ?_
    rw [h k hik]
  refine Option.ext fun ⟨a, j⟩ => ?_
  rw [next?_eq_some_iff, next?_eq_some_iff, hsilent j]
  by_cases hij : i < j
  · rw [h j hij]
  · simp [hij]

/-- The previous term hangs on what stands before the place only. -/
theorem prev?_congr (h : ∀ k < j, t.get? k = s.get? k) : t.prev? j = s.prev? j := by
  have hsilent : ∀ i, t.SilentBetween i j ↔ s.SilentBetween i j := by
    intro i
    refine forall₃_congr fun k hkj _ => ?_
    rw [h k hkj]
  refine Option.ext fun ⟨a, i⟩ => ?_
  rw [prev?_eq_some_iff, prev?_eq_some_iff, hsilent i]
  by_cases hij : i < j
  · rw [h i hij]
  · simp [hij]

theorem get?_replace_of_ne (hij : i ≠ j) (s : State) (a : Term) :
    (s.replace i a).get? j = s.get? j := List.getElem?_set_ne hij

theorem next?_replace (s : State) (i : Nat) (a : Term) : (s.replace i a).next? i = s.next? i :=
  next?_congr fun _ hik => get?_replace_of_ne (Nat.ne_of_lt hik) s a

theorem prev?_replace (s : State) (i : Nat) (a : Term) : (s.replace i a).prev? i = s.prev? i :=
  prev?_congr fun _ hki => get?_replace_of_ne (Nat.ne_of_gt hki) s a

/-- **Next and previous undo each other past empty terms.** Of two terms with sounds the second is
the next one of the first exactly if the first is the previous one of the second, namely if it
stands before it with only empty terms between. The window around a place shows the terms at the
previous and the next place. Put back unchanged, the term in its middle gives the same state, and no
other term that is put there changes what the neighbours are. -/
theorem neighbours_mutual (s : State) :
    (∀ i j a b, s.get? i = some a → a.isEmpty = false → s.get? j = some b → b.isEmpty = false →
      (s.nextPlace? i = some j ↔ s.prevPlace? j = some i)
        ∧ (s.prevPlace? j = some i ↔ i < j ∧ s.SilentBetween i j))
    ∧ ∀ i < s.size, ∃ w, Window.at? s i = some w ∧ s.get? i = some w.cur
        ∧ w.left = (s.prevPlace? i).bind s.get? ∧ w.right = (s.nextPlace? i).bind s.get?
        ∧ s.replace i w.cur = s
        ∧ ∀ a, (s.replace i a).next? i = s.next? i ∧ (s.replace i a).prev? i = s.prev? i := by
  constructor
  · intro i j a b ha hasounds hb hbsounds
    have hprev := prevPlace?_eq_some_iff (j := j) ha hasounds
    exact ⟨(nextPlace?_eq_some_iff hb hbsounds).trans hprev.symm, hprev⟩
  · intro i hi
    have hget : s.get? i = some s.terms[i] := List.getElem?_eq_getElem hi
    refine ⟨_, congrArg (Option.map _) hget, hget, ?_, ?_, replace_self hget, fun a => ?_⟩
    · exact (prevPlace?_bind_get? s i).symm
    · exact (nextPlace?_bind_get? s i).symm
    · exact ⟨next?_replace s i a, prev?_replace s i a⟩

/-- Two empty terms between the root gam and its ending: each of the outer two sees the other, and
the window around the second empty term shows both. -/
theorem neighbours_mutual_gam :
    let gam : Term := .dhatu "gam".toList
    let atus : Term := .vibhakti "atus".toList
    let s : State := .ofTerms [gam, .plain [], .plain [], atus]
    s.SilentBetween 0 3 ∧ s.nextPlace? 0 = some 3 ∧ s.prevPlace? 3 = some 0
      ∧ ∃ w, Window.at? s 2 = some w ∧ w.left = some gam ∧ w.right = some atus
        ∧ s.replace 2 w.cur = s ∧ (s.replace 2 atus).next? 2 = s.next? 2 := by
  intro gam atus s
  obtain ⟨hmutual, hwindows⟩ := s.neighbours_mutual
  obtain ⟨hnext, hprev⟩ := hmutual 0 3 gam atus rfl (by decide) rfl (by decide)
  obtain ⟨w, hw, -, hleft, hright, hself, hother⟩ := hwindows 2 (by decide)
  have hsilent : s.SilentBetween 0 3 := by decide
  have hfirst : s.prevPlace? 3 = some 0 := hprev.mpr ⟨by decide, hsilent⟩
  have hprev2 : s.prevPlace? 2 = some 0 := by decide
  have hnext2 : s.nextPlace? 2 = some 3 := by decide
  rw [hprev2] at hleft
  rw [hnext2] at hright
  exact ⟨hsilent, hnext.mpr hfirst, hfirst, w, hw, hleft, hright, hself, (hother atus).1⟩

end Vyakarana.State
