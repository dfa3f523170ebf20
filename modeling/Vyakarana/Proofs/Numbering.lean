import Mathlib.Order.MinMax
import Vyakarana.Proofs.Repeats

/-!
# The numbering of rule sets

Registration numbers the rules of a set one after the other, from 0 on or from where another set
ends. So the identities of a set are a range, given by its first identity and its length, and two
sets share identities exactly if their ranges meet. A set without rules shares none, wherever its
empty range lies.

* `RuleSet.build_eq_error_iff`, `RuleSet.build_eq_ok_iff` — which rules can be registered
* `RuleSet.Registered.mem_identities` — the identities of a registered set
* `RuleSet.Registered.build_concat` — registration of one more rule
* `RuleSet.overlap?_eq_none_iff`, `RuleSet.mem_overlap?` — sharing as an intersection of ranges
* `RuleSet.ensureDisjoint_eq_ok_iff`, `RuleSet.of_ensureDisjoint_eq_error` — which sets are accepted
  together, and what is reported of others
* `RuleSet.identities_of_grown` — all of it for sets that grow out of one another
-/

namespace Vyakarana.RuleSet

variable {rules : List WindowRule} {a b set pre : RuleSet} {sets : List (String × RuleSet)}
  {x y : String × RuleSet} {id first low high : RuleId} {r : WindowRule} {fault : Fault} {i j : Nat}

/-! ## Registration -/

/-- The set comes of a registration. -/
def Registered (set : RuleSet) : Prop := ∃ rules firstId, build rules firstId = .ok set

/-- The identities of the rules of a set, in the order of registration. -/
def identities (set : RuleSet) : List RuleId := set.rules.map WindowRule.id

theorem number_eq_mapIdx (first : RuleId) (rules : List WindowRule) :
    number first rules = rules.mapIdx fun i r => { r with id := first + i } := by
  induction rules generalizing first with
  | nil => rfl
  | cons r rules ih =>
    rw [number, ih, List.mapIdx_cons]
    simp only [Nat.add_zero, Nat.add_assoc, Nat.add_comm 1]

theorem length_number (first : RuleId) (rules : List WindowRule) :
    (number first rules).length = rules.length := by
  rw [number_eq_mapIdx, List.length_mapIdx]

/-- Identities are given from `first` on, one after the other. -/
theorem map_id_number (first : RuleId) (rules : List WindowRule) :
    (number first rules).map WindowRule.id = List.range' first rules.length := by
  induction rules generalizing first with
  | nil => rfl
  | cons r rules ih => rw [number, List.map_cons, ih, List.length_cons, List.range'_succ]

theorem number_append (first : RuleId) (rules others : List WindowRule) :
    number first (rules ++ others) = number first rules ++ number (first + rules.length) others := by
  simp only [number_eq_mapIdx, List.mapIdx_append, Nat.add_assoc, Nat.add_comm rules.length]

theorem map_name_number (first : RuleId) (rules : List WindowRule) :
    (number first rules).map WindowRule.name = rules.map WindowRule.name := by
  induction rules generalizing first with
  | nil => rfl
  | cons r rules ih => simp [number, ih]

theorem number_number (first : RuleId) (rules : List WindowRule) :
    number first (number first rules) = number first rules := by
  induction rules generalizing first with
  | nil => rfl
  | cons r rules ih => simp [number, ih]

/-- Registration fails at the first rule that has the name of one before it. -/
theorem build_eq_error_iff : build rules first = .error fault
    ↔ ∃ before r after, rules = before ++ r :: after ∧ (before.map WindowRule.name).Nodup
      ∧ r.name ∈ before.map WindowRule.name ∧ fault = .duplicateRule r.name := by
  have hscan : build rules first = .error fault
      ↔ ∃ r, firstRepeat? WindowRule.name [] rules = some r ∧ fault = .duplicateRule r.name := by
    unfold build
    rw [repeatedName?_eq]
    cases firstRepeat? WindowRule.name [] rules with
    | none => simp
    | some r => simp [eq_comm]
  simp only [hscan, firstRepeat?_nil_eq_some_iff]
  constructor
  · rintro ⟨r, ⟨before, after, hsplit, hnodup, hrepeated⟩, hfault⟩
    exact ⟨before, r, after, hsplit, hnodup, hrepeated, hfault⟩
  · rintro ⟨before, r, after, hsplit, hnodup, hrepeated, hfault⟩
    exact ⟨r, ⟨before, after, hsplit, hnodup, hrepeated⟩, hfault⟩

theorem build_eq_ok_iff : build rules first = .ok set
    ↔ (rules.map WindowRule.name).Nodup ∧ set = ⟨number first rules, first⟩ := by
  rw [← firstRepeat?_nil_eq_none_iff]
  unfold build
  rw [repeatedName?_eq]
  cases firstRepeat? WindowRule.name [] rules with
  | none => simp [eq_comm]
  | some r => simp

theorem exists_build_eq_error_iff :
    (∃ fault, build rules first = .error fault) ↔ ¬(rules.map WindowRule.name).Nodup := by
  cases hresult : build rules first with
  | ok set => simp [(build_eq_ok_iff.mp hresult).1]
  | error fault =>
    have hnot : ¬(rules.map WindowRule.name).Nodup := by
      intro hnodup
      have hok : build rules first = .ok ⟨number first rules, first⟩ :=
        build_eq_ok_iff.mpr ⟨hnodup, rfl⟩
      exact absurd (hresult.symm.trans hok) nofun
    exact iff_of_true ⟨fault, rfl⟩ hnot

/-! ## Identities of registered rules -/

theorem Registered.identities_eq (h : set.Registered) :
    set.identities = List.range' set.firstId set.rules.length := by
  obtain ⟨rules, first, hbuild⟩ := h
  obtain ⟨-, rfl⟩ := build_eq_ok_iff.mp hbuild
  rw [identities, map_id_number, length_number]

/-- **The identities of a set are a range.** -/
theorem Registered.mem_identities (h : set.Registered) :
    id ∈ set.identities ↔ set.firstId ≤ id ∧ id < set.nextId := by
  rw [h.identities_eq, List.mem_range'_1]
  rfl

/-- The next identity follows the last one. A set without rules leaves it as it was. -/
theorem Registered.nextId_eq (h : set.Registered) :
    set.nextId = (set.identities.getLast?.map (· + 1)).getD set.firstId := by
  rw [h.identities_eq, nextId, List.getLast?_range']
  cases set.rules.length with
  | zero => rfl
  | succ n => simp [Nat.add_assoc]

/-- The rules of a registered set can be registered again, with one more rule of a new name. They
keep their identities. -/
theorem Registered.build_concat (h : set.Registered)
    (hnew : r.name ∉ set.rules.map WindowRule.name) :
    build (set.rules ++ [r]) set.firstId
      = .ok ⟨set.rules ++ [{ r with id := set.nextId }], set.firstId⟩ := by
  obtain ⟨rules, first, hbuild⟩ := h
  obtain ⟨hnodup, rfl⟩ := build_eq_ok_iff.mp hbuild
  rw [map_name_number] at hnew
  rw [build_eq_ok_iff, number_append, number_number, nextId, length_number]
  refine ⟨?_, rfl⟩
  simpa [map_name_number] using hnodup.concat hnew

/-! ## Sets that share identities -/

/-- Some rule of one set has the identity of a rule of the other. -/
def SharesWith (a b : RuleSet) : Prop := ∃ id, id ∈ a.identities ∧ id ∈ b.identities

theorem overlap?_comm (a b : RuleSet) : a.overlap? b = b.overlap? a := by
  simp [overlap?, max_comm, min_comm]

theorem mem_overlap? (ha : a.Registered) (hb : b.Registered)
    (h : a.overlap? b = some (low, high)) :
    low < high ∧ ∀ id, low ≤ id ∧ id < high ↔ id ∈ a.identities ∧ id ∈ b.identities := by
  simp only [overlap?, Option.ite_none_right_eq_some, Option.some.injEq, Prod.mk.injEq] at h
  obtain ⟨hlt, rfl, rfl⟩ := h
  refine ⟨hlt, fun id => ?_⟩
  rw [ha.mem_identities, hb.mem_identities, max_le_iff, lt_min_iff]
  exact and_and_and_comm

theorem overlap?_eq_none_iff (ha : a.Registered) (hb : b.Registered) :
    a.overlap? b = none ↔ ¬a.SharesWith b := by
  constructor
  · rintro h ⟨id, hid⟩
    rw [ha.mem_identities, hb.mem_identities, and_and_and_comm, ← max_le_iff, ← lt_min_iff] at hid
    simp only [overlap?, ite_eq_right_iff, reduceCtorEq, imp_false] at h
    -- the shared identity lies in both ranges
    exact h (lt_of_le_of_lt hid.1 hid.2)
  · intro h
    cases hrange : a.overlap? b with
    | none => rfl
    | some range =>
      obtain ⟨hlt, hmem⟩ := mem_overlap? ha hb hrange
      exact absurd ⟨range.1, (hmem range.1).mp ⟨le_rfl, hlt⟩⟩ h

/-- Rules of sets without shared identities have different ones. -/
theorem id_ne_of_overlap? {r₁ r₂ : WindowRule} (ha : a.Registered) (hb : b.Registered)
    (h : a.overlap? b = none) (h₁ : r₁ ∈ a.rules) (h₂ : r₂ ∈ b.rules) : r₁.id ≠ r₂.id := by
  intro hsame
  have h₂ := List.mem_map_of_mem (f := WindowRule.id) h₂
  rw [← hsame] at h₂
  exact (overlap?_eq_none_iff ha hb).mp h ⟨r₁.id, List.mem_map_of_mem h₁, h₂⟩

/-! ## Sets that are accepted together -/

theorem overlapWith?_eq_none_iff (label : String) :
    overlapWith? label a sets = none ↔ ∀ y ∈ sets, a.overlap? y.2 = none := by
  induction sets with
  | nil => simp [overlapWith?]
  | cons y sets ih =>
    obtain ⟨name, b⟩ := y
    rw [overlapWith?, List.forall_mem_cons]
    cases h : a.overlap? b with
    | none => simp [ih]
    | some range => simp

/-- Sets are accepted if no two of them share identities. -/
theorem ensureDisjoint_eq_ok_iff :
    ensureDisjoint sets = .ok () ↔ sets.Pairwise fun x y => x.2.overlap? y.2 = none := by
  induction sets with
  | nil => simp [ensureDisjoint]
  | cons x sets ih =>
    obtain ⟨name, a⟩ := x
    rw [ensureDisjoint, List.pairwise_cons, ← overlapWith?_eq_none_iff name]
    cases h : overlapWith? name a sets with
    | none => simp [ih]
    | some fault => simp

theorem overlap?_of_ensureDisjoint (h : ensureDisjoint sets = .ok ())
    (hx : sets[i]? = some x) (hy : sets[j]? = some y) (hij : i ≠ j) :
    x.2.overlap? y.2 = none := by
  have hpairs := List.pairwise_iff_getElem.mp (ensureDisjoint_eq_ok_iff.mp h)
  obtain ⟨hi, rfl⟩ := List.getElem?_eq_some_iff.mp hx
  obtain ⟨hj, rfl⟩ := List.getElem?_eq_some_iff.mp hy
  rcases Nat.lt_or_gt_of_ne hij with hlt | hgt
  · exact hpairs i j hi hj hlt
  · rw [overlap?_comm]
    exact hpairs j i hj hi hgt

/-! ## What is reported of others -/

/-- Two entries of a list at different positions, with the one that stands first. -/
structure PairAt (sets : List (String × RuleSet)) (i j : Nat) (x y : String × RuleSet) : Prop where
  lt : i < j
  fst : sets[i]? = some x
  snd : sets[j]? = some y

theorem PairAt.of_succ {e : String × RuleSet} (h : PairAt (e :: sets) (i + 1) (j + 1) x y) :
    PairAt sets i j x y :=
  ⟨Nat.lt_of_succ_lt_succ h.lt, h.fst, h.snd⟩

theorem PairAt.succ (h : PairAt sets i j x y) (e : String × RuleSet) :
    PairAt (e :: sets) (i + 1) (j + 1) x y :=
  ⟨Nat.succ_lt_succ h.lt, h.fst, h.snd⟩

/-- Of the sets that follow a set, the first that shares identities with it is reported. -/
theorem of_overlapWith?_eq_some {label : String} (h : overlapWith? label a sets = some fault) :
    ∃ (k : Nat) (y : String × RuleSet) (low high : RuleId),
      sets[k]? = some y ∧ a.overlap? y.2 = some (low, high)
      ∧ fault = .overlappingIds label y.1 low high
      ∧ ∀ m < k, ∀ z : String × RuleSet, sets[m]? = some z → a.overlap? z.2 = none := by
  induction sets with
  | nil => simp [overlapWith?] at h
  | cons e sets ih =>
    obtain ⟨name, b⟩ := e
    rw [overlapWith?] at h
    cases hrange : a.overlap? b with
    | some range =>
      rw [hrange] at h
      exact ⟨0, (name, b), range.1, range.2, rfl, hrange, (Option.some.inj h).symm, by simp⟩
    | none =>
      rw [hrange] at h
      obtain ⟨k, y, low, high, hy, hshared, hfault, hbefore⟩ := ih h
      refine ⟨k + 1, y, low, high, hy, hshared, hfault, fun m hm z hz => ?_⟩
      cases m with
      | zero =>
        obtain rfl := Option.some.inj hz
        exact hrange
      | succ m => exact hbefore m (Nat.lt_of_succ_lt_succ hm) z hz

/-- The pair that is reported is the first one whose ranges meet: in the order of the first entry,
then of the second. -/
theorem of_ensureDisjoint_eq_error (h : ensureDisjoint sets = .error fault) :
    ∃ i j x y low high, PairAt sets i j x y ∧ x.2.overlap? y.2 = some (low, high)
      ∧ fault = .overlappingIds x.1 y.1 low high
      ∧ ∀ i' j' x' y', PairAt sets i' j' x' y' → i' < i ∨ i' = i ∧ j' < j →
        x'.2.overlap? y'.2 = none := by
  induction sets with
  | nil => simp [ensureDisjoint] at h
  | cons e sets ih =>
    obtain ⟨name, a⟩ := e
    rw [ensureDisjoint] at h
    cases hfirst : overlapWith? name a sets with
    | some found =>
      -- the first entry shares identities with a later one
      rw [hfirst] at h
      obtain ⟨k, y, low, high, hy, hshared, hfault, hbefore⟩ := of_overlapWith?_eq_some hfirst
      refine ⟨0, k + 1, (name, a), y, low, high, ⟨Nat.succ_pos k, rfl, hy⟩, hshared,
        (Except.error.inj h).symm.trans hfault, ?_⟩
      rintro i' j' x' y' hpair (hlt | ⟨rfl, hlt⟩)
      · exact absurd hlt (Nat.not_lt_zero i')
      · obtain ⟨m, rfl⟩ := Nat.exists_eq_succ_of_ne_zero (Nat.ne_of_gt hpair.lt)
        obtain rfl := Option.some.inj hpair.fst
        exact hbefore m (Nat.lt_of_succ_lt_succ hlt) y' hpair.snd
    | none =>
      rw [hfirst] at h
      obtain ⟨i, j, x, y, low, high, hpair, hshared, hfault, hbefore⟩ := ih h
      refine ⟨i + 1, j + 1, x, y, low, high, hpair.succ _, hshared, hfault, ?_⟩
      intro i' j' x' y' hpair' hearlier
      obtain ⟨n, rfl⟩ := Nat.exists_eq_succ_of_ne_zero (Nat.ne_zero_of_lt hpair'.lt)
      cases i' with
      | zero =>
        obtain rfl := Option.some.inj hpair'.fst
        exact (overlapWith?_eq_none_iff name).mp hfirst y' (List.mem_of_getElem? hpair'.snd)
      | succ m => exact hbefore m n x' y' hpair'.of_succ (by omega)

/-! ## Sets that grow out of one another -/

/-- Register rules after another set, or from 0 on. -/
def buildFrom : Option RuleSet → List WindowRule → Except Fault RuleSet
  | none, rules => build rules
  | some pre, rules => pre.buildAfter rules

/-- Where the numbering of a set starts: right after the set that it continues, or at 0. -/
def startAfter (pre : Option RuleSet) : RuleId := (pre.map nextId).getD 0

theorem buildFrom_eq_build (pre : Option RuleSet) (rules : List WindowRule) :
    buildFrom pre rules = build rules (startAfter pre) := by
  cases pre with
  | none => rfl
  | some pre => rfl

/-- A set that was registered from 0 on, or after a set that grew in this way before. -/
inductive Grown : RuleSet → Prop where
  | root {rules : List WindowRule} {set : RuleSet} (h : build rules = .ok set) : Grown set
  | after {rules : List WindowRule} {pre set : RuleSet} (hpre : Grown pre)
    (h : pre.buildAfter rules = .ok set) : Grown set

theorem Grown.registered (h : set.Grown) : set.Registered := by
  cases h with
  | root h => exact ⟨_, _, h⟩
  | after hpre h => exact ⟨_, _, h⟩

/-- The second set was registered after the first. -/
def ContinuedBy (a b : RuleSet) : Prop := ∃ rules, a.buildAfter rules = .ok b

/-- The second set starts where the first one ends, or later. -/
def EndsBefore (a b : RuleSet) : Prop := a.nextId ≤ b.firstId

instance : IsTrans RuleSet EndsBefore where
  trans a b c hab hbc :=
    calc a.nextId ≤ b.firstId := hab
      _ ≤ b.nextId := Nat.le_add_right ..
      _ ≤ c.firstId := hbc

theorem ContinuedBy.endsBefore (h : ContinuedBy a b) : EndsBefore a b := by
  obtain ⟨rules, hbuild⟩ := h
  obtain ⟨-, rfl⟩ := build_eq_ok_iff.mp hbuild
  exact le_rfl

theorem EndsBefore.overlap? (h : EndsBefore a b) : a.overlap? b = none := by
  refine if_neg fun hlt => ?_
  have hmeet : b.firstId < a.nextId := lt_of_le_of_lt (le_max_right ..) (hlt.trans_le (min_le_left ..))
  exact absurd h (Nat.not_le_of_lt hmeet)

/-- **Sets that continue one another are accepted together.** -/
theorem ensureDisjoint_of_isChain (h : (sets.map Prod.snd).IsChain ContinuedBy) :
    ensureDisjoint sets = .ok () := by
  have hordered : (sets.map Prod.snd).Pairwise EndsBefore :=
    (h.imp fun _ _ => ContinuedBy.endsBefore).pairwise
  refine ensureDisjoint_eq_ok_iff.mpr ((List.pairwise_map.mp hordered).imp ?_)
  exact fun hbefore => hbefore.overlap?

/-! ## The whole account -/

theorem PairAt.overlap?_eq_none_iff (h : PairAt sets i j x y) (hsets : ∀ e ∈ sets, Grown e.2) :
    x.2.overlap? y.2 = none ↔ ¬x.2.SharesWith y.2 :=
  RuleSet.overlap?_eq_none_iff (hsets x (List.mem_of_getElem? h.fst)).registered
    (hsets y (List.mem_of_getElem? h.snd)).registered

/-- Among sets that grew, those are accepted of which no two share identities. -/
theorem ensureDisjoint_eq_ok_iff_of_grown (hsets : ∀ e ∈ sets, Grown e.2) :
    ensureDisjoint sets = .ok () ↔ ∀ i j x y, PairAt sets i j x y → ¬x.2.SharesWith y.2 := by
  constructor
  · intro hok i j x y hpair
    exact (hpair.overlap?_eq_none_iff hsets).mp
      (overlap?_of_ensureDisjoint hok hpair.fst hpair.snd (Nat.ne_of_lt hpair.lt))
  · intro h
    cases hresult : ensureDisjoint sets with
    | ok => rfl
    | error fault =>
      obtain ⟨i, j, x, y, low, high, hpair, hshared, -⟩ := of_ensureDisjoint_eq_error hresult
      have hnone := (hpair.overlap?_eq_none_iff hsets).mpr (h i j x y hpair)
      exact absurd (hnone.symm.trans hshared) nofun

/-- Among sets that grew, the first pair that shares identities is reported, with just those. -/
theorem shared_of_ensureDisjoint_eq_error (hsets : ∀ e ∈ sets, Grown e.2)
    (h : ensureDisjoint sets = .error fault) :
    ∃ i j x y low high, PairAt sets i j x y ∧ fault = .overlappingIds x.1 y.1 low high
      ∧ low < high
      ∧ (∀ id, low ≤ id ∧ id < high ↔ id ∈ x.2.identities ∧ id ∈ y.2.identities)
      ∧ ∀ i' j' x' y', PairAt sets i' j' x' y' → i' < i ∨ i' = i ∧ j' < j →
        ¬x'.2.SharesWith y'.2 := by
  obtain ⟨i, j, x, y, low, high, hpair, hshared, hfault, hbefore⟩ := of_ensureDisjoint_eq_error h
  obtain ⟨hlt, hmem⟩ := mem_overlap? (hsets x (List.mem_of_getElem? hpair.fst)).registered
    (hsets y (List.mem_of_getElem? hpair.snd)).registered hshared
  refine ⟨i, j, x, y, low, high, hpair, hfault, hlt, hmem, fun i' j' x' y' hpair' hearlier => ?_⟩
  exact (hpair'.overlap?_eq_none_iff hsets).mp (hbefore i' j' x' y' hpair' hearlier)

/-- **Identities are given once.** Registration fails exactly if a name is repeated, and reports the
first rule that has the name of one before it. Otherwise the rules are numbered one after the other,
from 0 on or from right after the last identity of the set that is continued; a set without rules
passes its own start on. Sets that grew in this way are accepted together exactly if no identity
belongs to rules of two of them. Otherwise the first pair that shares one is reported, with the range
of those that it shares. Sets that continue one another are always accepted. -/
theorem identities_of_grown :
    (∀ (pre : Option RuleSet) (rules : List WindowRule),
      (∀ fault, buildFrom pre rules = .error fault ↔ ∃ before r after,
        rules = before ++ r :: after ∧ (before.map WindowRule.name).Nodup
          ∧ r.name ∈ before.map WindowRule.name ∧ fault = .duplicateRule r.name)
      ∧ ((∃ fault, buildFrom pre rules = .error fault) ↔ ¬(rules.map WindowRule.name).Nodup)
      ∧ ∀ set, buildFrom pre rules = .ok set → set.firstId = startAfter pre
        ∧ set.rules = rules.mapIdx fun i r => { r with id := startAfter pre + i })
    ∧ startAfter none = 0
    ∧ (∀ pre, Grown pre →
      startAfter (some pre) = (pre.identities.getLast?.map (· + 1)).getD pre.firstId)
    ∧ (∀ sets : List (String × RuleSet), (∀ e ∈ sets, Grown e.2) →
      (ensureDisjoint sets = .ok () ↔ ∀ i j x y, PairAt sets i j x y → ¬x.2.SharesWith y.2)
      ∧ ∀ fault, ensureDisjoint sets = .error fault → ∃ i j x y low high,
        PairAt sets i j x y ∧ fault = .overlappingIds x.1 y.1 low high ∧ low < high
          ∧ (∀ id, low ≤ id ∧ id < high ↔ id ∈ x.2.identities ∧ id ∈ y.2.identities)
          ∧ ∀ i' j' x' y', PairAt sets i' j' x' y' → i' < i ∨ i' = i ∧ j' < j →
            ¬x'.2.SharesWith y'.2)
    ∧ ∀ sets : List (String × RuleSet), (sets.map Prod.snd).IsChain ContinuedBy →
      ensureDisjoint sets = .ok () := by
  refine ⟨fun pre rules => ?_, rfl, fun pre hpre => hpre.registered.nextId_eq, ?_,
    fun sets => ensureDisjoint_of_isChain⟩
  · rw [buildFrom_eq_build]
    refine ⟨fun fault => build_eq_error_iff, exists_build_eq_error_iff, fun set hset => ?_⟩
    obtain ⟨-, rfl⟩ := build_eq_ok_iff.mp hset
    exact ⟨rfl, number_eq_mapIdx ..⟩
  · exact fun sets hsets => ⟨ensureDisjoint_eq_ok_iff_of_grown hsets,
      fun fault => shared_of_ensureDisjoint_eq_error hsets⟩

/-- Two sets in a row with an empty one between them, and a set that starts anew. -/
theorem identities_of_grown_forest :
    let rule (name : String) : WindowRule := { name, decide := fun _ => .unchanged }
    ∃ first second third other : RuleSet,
      build [rule "a", rule "b"] = .ok first ∧ first.buildAfter [] = .ok second
      ∧ second.buildAfter [rule "a"] = .ok third ∧ third.identities = [2]
      ∧ second.buildAfter [rule "a", rule "a"] = .error (.duplicateRule "a")
      ∧ build [rule "c", rule "d", rule "e"] = .ok other
      ∧ ensureDisjoint [("first", first), ("second", second), ("third", third)] = .ok ()
      ∧ (let sets := [("second", second), ("first", first), ("third", third), ("other", other)]
        (∀ e ∈ sets, Grown e.2)
        ∧ ensureDisjoint sets = .error (.overlappingIds "first" "other" 0 2)
        ∧ ¬∀ i j x y, PairAt sets i j x y → ¬x.2.SharesWith y.2) := by
  intro rule
  obtain ⟨hbuild, -, -, hsets, hchain⟩ := identities_of_grown
  have hfirst : build [rule "a", rule "b"] = .ok ⟨number 0 [rule "a", rule "b"], 0⟩ := rfl
  have hsecond : (⟨number 0 [rule "a", rule "b"], 0⟩ : RuleSet).buildAfter [] = .ok ⟨[], 2⟩ := rfl
  have hthird : (⟨[], 2⟩ : RuleSet).buildAfter [rule "a"] = .ok ⟨number 2 [rule "a"], 2⟩ := rfl
  have hother : build [rule "c", rule "d", rule "e"]
      = .ok ⟨number 0 [rule "c", rule "d", rule "e"], 0⟩ := rfl
  have hgrown := Grown.root hfirst
  have hall : ∀ e ∈ [("second", (⟨[], 2⟩ : RuleSet)), ("first", ⟨number 0 [rule "a", rule "b"], 0⟩),
      ("third", ⟨number 2 [rule "a"], 2⟩),
      ("other", ⟨number 0 [rule "c", rule "d", rule "e"], 0⟩)], Grown e.2 := by
    simp only [List.forall_mem_cons, List.not_mem_nil, false_imp_iff, implies_true, and_true]
    exact ⟨hgrown.after hsecond, hgrown, (hgrown.after hsecond).after hthird, .root hother⟩
  refine ⟨_, _, _, _, hfirst, hsecond, hthird, rfl, ?_, hother, ?_, hall, rfl, fun hnone => ?_⟩
  · exact ((hbuild (some ⟨[], 2⟩) [rule "a", rule "a"]).1 _).mpr
      ⟨[rule "a"], rule "a", [], rfl, by simp, by simp, rfl⟩
  · exact hchain _ (.cons_cons ⟨_, hsecond⟩ (.cons_cons ⟨_, hthird⟩ (.singleton _)))
  · exact absurd ((hsets _ hall).1.mpr hnone) nofun

end Vyakarana.RuleSet
