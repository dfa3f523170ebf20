import Mathlib.Data.List.Nodup
import Vyakarana.Pipeline
import Vyakarana.RuleSet

/-!
# The first repetition in a list

Names of rules and operations of stages may not be registered twice. Both are checked by one scan,
which keeps what it has seen and stops at the first entry seen before.

* `firstRepeat?_eq_none_iff`, `firstRepeat?_eq_some_iff` — what the scan finds
* `RuleSet.repeatedName?_eq`, `Pipeline.repeatedOp?_eq` — the two checks as such scans
-/

namespace Vyakarana

variable {α κ : Type} [BEq κ] [LawfulBEq κ] {key : α → κ} {seen : List κ} {as : List α} {a : α}

/-- The first entry whose key is one of `seen` or the key of an entry before it. -/
def firstRepeat? (key : α → κ) (seen : List κ) : List α → Option α
  | [] => none
  | a :: as => if seen.contains (key a) then some a else firstRepeat? key (key a :: seen) as

/-! ## What the scan finds -/

/-- Entries that are told apart by their keys, all of which are new. -/
structure AllNew (key : α → κ) (seen : List κ) (as : List α) : Prop where
  nodup : (as.map key).Nodup
  fresh : ∀ a ∈ as, key a ∉ seen

omit [BEq κ] [LawfulBEq κ] in
theorem allNew_nil : AllNew key seen [] := ⟨List.nodup_nil, by simp⟩

omit [BEq κ] [LawfulBEq κ] in
theorem allNew_cons :
    AllNew key seen (a :: as) ↔ key a ∉ seen ∧ AllNew key (key a :: seen) as := by
  constructor
  · rintro ⟨hnodup, hfresh⟩
    obtain ⟨hhead, hnodup⟩ := List.nodup_cons.mp hnodup
    refine ⟨hfresh a List.mem_cons_self, hnodup, fun x hx hold => ?_⟩
    rcases List.mem_cons.mp hold with heq | hold
    · exact hhead (heq ▸ List.mem_map_of_mem hx)
    · exact hfresh x (List.mem_cons_of_mem a hx) hold
  · rintro ⟨hhead, hnodup, hfresh⟩
    refine ⟨List.nodup_cons.mpr ⟨fun hmem => ?_, hnodup⟩, fun x hx => ?_⟩
    · obtain ⟨x, hx, heq⟩ := List.mem_map.mp hmem
      exact hfresh x hx (heq ▸ List.mem_cons_self)
    · rcases List.mem_cons.mp hx with rfl | hx
      · exact hhead
      · exact fun hold => hfresh x hx (List.mem_cons_of_mem _ hold)

theorem firstRepeat?_eq_none_iff : firstRepeat? key seen as = none ↔ AllNew key seen as := by
  induction as generalizing seen with
  | nil => exact iff_of_true rfl allNew_nil
  | cons a as ih =>
    rw [firstRepeat?, allNew_cons]
    by_cases hseen : key a ∈ seen
    · simp [hseen]
    · simp [hseen, ih]

/-- The entry found has a key that was seen, or that of an entry before it. All before it are new. -/
theorem firstRepeat?_eq_some_iff :
    firstRepeat? key seen as = some a ↔ ∃ before after, as = before ++ a :: after
      ∧ AllNew key seen before ∧ (key a ∈ seen ∨ key a ∈ before.map key) := by
  induction as generalizing seen with
  | nil => simp [firstRepeat?]
  | cons head as ih =>
    rw [firstRepeat?]
    by_cases hseen : key head ∈ seen
    · rw [if_pos (List.contains_iff_mem.mpr hseen)]
      constructor
      · intro h
        obtain rfl := Option.some.inj h
        exact ⟨[], as, rfl, allNew_nil, Or.inl hseen⟩
      · rintro ⟨before, after, hsplit, hnew, -⟩
        cases before with
        | nil => rw [(List.cons.inj hsplit).1]
        | cons x before =>
          rw [(List.cons.inj hsplit).1] at hseen
          exact absurd hseen (allNew_cons.mp hnew).1
    · rw [if_neg (by simpa using hseen), ih]
      constructor
      · rintro ⟨before, after, rfl, hnew, hrepeated⟩
        refine ⟨head :: before, after, rfl, allNew_cons.mpr ⟨hseen, hnew⟩, ?_⟩
        rw [List.map_cons, List.mem_cons, or_left_comm, ← or_assoc, ← List.mem_cons]
        exact hrepeated
      · rintro ⟨before, after, hsplit, hnew, hrepeated⟩
        cases before with
        | nil =>
          obtain ⟨rfl, -⟩ := List.cons.inj hsplit
          exact absurd (hrepeated.resolve_right List.not_mem_nil) hseen
        | cons x before =>
          obtain ⟨rfl, rfl⟩ := List.cons.inj hsplit
          refine ⟨before, after, rfl, (allNew_cons.mp hnew).2, ?_⟩
          rwa [List.map_cons, List.mem_cons, or_left_comm, ← or_assoc, ← List.mem_cons] at hrepeated

/-! ## From the beginning

At first nothing was seen. -/

theorem firstRepeat?_nil_eq_none_iff : firstRepeat? key [] as = none ↔ (as.map key).Nodup :=
  firstRepeat?_eq_none_iff.trans ⟨AllNew.nodup, fun h => ⟨h, fun _ _ => List.not_mem_nil⟩⟩

theorem firstRepeat?_nil_eq_some_iff :
    firstRepeat? key [] as = some a ↔ ∃ before after, as = before ++ a :: after
      ∧ (before.map key).Nodup ∧ key a ∈ before.map key := by
  rw [firstRepeat?_eq_some_iff]
  constructor
  · rintro ⟨before, after, hsplit, hnew, hrepeated⟩
    exact ⟨before, after, hsplit, hnew.nodup, hrepeated.resolve_left List.not_mem_nil⟩
  · rintro ⟨before, after, hsplit, hnodup, hrepeated⟩
    exact ⟨before, after, hsplit, ⟨hnodup, fun _ _ => List.not_mem_nil⟩, Or.inr hrepeated⟩

/-! ## The two checks -/

theorem RuleSet.repeatedName?_eq (seen : List String) (rules : List WindowRule) :
    repeatedName? seen (rules.map WindowRule.name)
      = (firstRepeat? WindowRule.name seen rules).map WindowRule.name := by
  induction rules generalizing seen with
  | nil => rfl
  | cons r rules ih =>
    rw [List.map_cons, repeatedName?, firstRepeat?, ih, apply_ite (Option.map _)]
    rfl

theorem Pipeline.repeatedOp?_eq (seen : List Operation) (entries : List (String × Operation)) :
    repeatedOp? seen entries
      = (firstRepeat? Prod.snd seen entries).map fun entry => .duplicateStage entry.1 entry.2 := by
  induction entries generalizing seen with
  | nil => rfl
  | cons entry entries ih =>
    rw [repeatedOp?, firstRepeat?, ih, apply_ite (Option.map _)]
    rfl

end Vyakarana
