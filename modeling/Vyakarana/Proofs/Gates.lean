import Mathlib.Data.List.Perm.Basic
import Vyakarana.Proofs.Repeats

/-!
# Gates

Gates nest in any number and order. A `once` gate records its operation before the gates inside it
look at the state, so a `require` gate for the same operation that stands inside it is always open.
All other `require` gates look the operation up in the state that the rule is given: the rule
awaits it. The rule reports as required what it awaits and also what such open gates name, so it can
run on a state that lacks an operation it reports as required.

* `Rule.IsOpen`, `Rule.apply_of_isOpen`, `Rule.apply_of_not_isOpen` — when the gates are open, and
  what the rule yields
* `Pipeline.build_eq_ok_iff` — which stages can be put together
* `Pipeline.apply_of_build` — when a stage of a pipeline yields nothing, and what it yields
  otherwise
-/

namespace Vyakarana

/-! ## Sets of operations -/

namespace OrderedSet

variable {α : Type} [Ranked α] {s t : OrderedSet α}

theorem nodup_toList (s : OrderedSet α) : s.toList.Nodup := by
  refine s.ascending.imp ?_
  rintro a _ hlt rfl
  exact Nat.lt_irrefl _ hlt

/-- Sets with the same members are the same. -/
theorem ext_mem (h : ∀ a, a ∈ s ↔ a ∈ t) : s = t := by
  have hperm : s.toList.Perm t.toList :=
    (List.perm_ext_iff_of_nodup s.nodup_toList t.nodup_toList).mpr h
  refine ext_toList (hperm.eq_of_pairwise ?_ s.ascending t.ascending)
  intro a b _ _ hab hba
  exact absurd (Nat.lt_trans hab hba) (Nat.lt_irrefl _)

theorem insert_comm (s : OrderedSet α) (a b : α) :
    (s.insert a).insert b = (s.insert b).insert a := by
  refine ext_mem fun x => ?_
  simp only [mem_insert]
  exact or_left_comm

theorem insertAll_append (s : OrderedSet α) (as bs : List α) :
    s.insertAll (as ++ bs) = (s.insertAll as).insertAll bs :=
  List.foldl_append

/-- What is added first can be added last. -/
theorem insertAll_insert (s : OrderedSet α) (a : α) (as : List α) :
    (s.insert a).insertAll as = (s.insertAll as).insert a := by
  induction as generalizing s with
  | nil => rfl
  | cons b as ih =>
    show ((s.insert a).insert b).insertAll as = ((s.insert b).insertAll as).insert a
    rw [insert_comm, ih]

end OrderedSet

/-- The state with operations recorded. -/
def State.record (s : State) (ops : List Operation) : State := { s with ops := s.ops.insertAll ops }

/-! ## Open gates -/

namespace Rule

variable {r inner : Rule} {op need : Operation} {ops : OrderedSet Operation} {s t : State}

/-- What the rule does to a state that has passed its gates. -/
def body : Rule → State → List State
  | plain _ body _ => body
  | once inner _ => inner.body
  | require inner _ => inner.body

/-- The gates of a rule in the order in which a state meets them, the outermost first. -/
def gates : Rule → List Gate
  | plain .. => []
  | once inner op => .once op :: inner.gates
  | require inner op => .require op :: inner.gates

/-- The rule looks the operation up in the state that it is given: it has a `require` gate for it,
and no `once` gate further out records it first. -/
def Awaits (r : Rule) (op : Operation) : Prop :=
  ∃ outside inside, r.gates = outside ++ .require op :: inside ∧ Gate.once op ∉ outside

/-- All gates of the rule let a state pass on which `ops` are recorded. -/
structure IsOpen (r : Rule) (ops : OrderedSet Operation) : Prop where
  /-- A second gate for an operation finds what the first one records. -/
  nodup : r.produces.Nodup
  fresh : ∀ op ∈ r.produces, op ∉ ops
  awaited : ∀ op, r.Awaits op → op ∈ ops

theorem not_awaits_plain {name : String} {body : State → List State}
    {remarks : State → List Remark} : ¬(plain name body remarks).Awaits op := by
  rintro ⟨outside, inside, hgates, -⟩
  simp [gates] at hgates

theorem awaits_once_iff : (inner.once need).Awaits op ↔ op ≠ need ∧ inner.Awaits op := by
  constructor
  · rintro ⟨outside, inside, hgates, hnot⟩
    cases outside with
    | nil => simp [gates] at hgates
    | cons g outside =>
      obtain ⟨rfl, hinner⟩ := List.cons.inj hgates
      rw [List.mem_cons, not_or] at hnot
      exact ⟨fun heq => hnot.1 (congrArg Gate.once heq), outside, inside, hinner, hnot.2⟩
  · rintro ⟨hne, outside, inside, hinner, hnot⟩
    refine ⟨.once need :: outside, inside, congrArg (Gate.once need :: ·) hinner, ?_⟩
    rw [List.mem_cons, not_or]
    exact ⟨fun heq => hne (Gate.once.inj heq), hnot⟩

theorem awaits_require_iff : (inner.require need).Awaits op ↔ op = need ∨ inner.Awaits op := by
  constructor
  · rintro ⟨outside, inside, hgates, hnot⟩
    cases outside with
    | nil =>
      obtain ⟨heq, -⟩ := List.cons.inj hgates
      exact Or.inl (Gate.require.inj heq).symm
    | cons g outside =>
      obtain ⟨-, hinner⟩ := List.cons.inj hgates
      exact Or.inr ⟨outside, inside, hinner, fun hmem => hnot (List.mem_cons_of_mem g hmem)⟩
  · rintro (rfl | ⟨outside, inside, hinner, hnot⟩)
    · exact ⟨[], inner.gates, rfl, List.not_mem_nil⟩
    · refine ⟨.require need :: outside, inside, congrArg (Gate.require need :: ·) hinner, ?_⟩
      rw [List.mem_cons, not_or]
      exact ⟨nofun, hnot⟩

/-- What a rule requires and does not await, it records itself. -/
theorem awaits_or_mem_produces (h : op ∈ r.requires) : r.Awaits op ∨ op ∈ r.produces := by
  induction r with
  | plain => simp [requires] at h
  | once inner need ih =>
    rw [awaits_once_iff, produces, List.mem_append, List.mem_singleton]
    by_cases heq : op = need
    · exact Or.inr (Or.inr heq)
    · rcases ih h with hawaits | hmem
      · exact Or.inl ⟨heq, hawaits⟩
      · exact Or.inr (Or.inl hmem)
  | require inner need ih =>
    rw [requires, List.mem_append, List.mem_singleton] at h
    rw [awaits_require_iff, produces]
    rcases h with h | heq
    · rcases ih h with hawaits | hmem
      · exact Or.inl (Or.inr hawaits)
      · exact Or.inr hmem
    · exact Or.inl (Or.inl heq)

theorem mem_requires_of_awaits (h : r.Awaits op) : op ∈ r.requires := by
  induction r with
  | plain => exact absurd h not_awaits_plain
  | once inner need ih => exact ih (awaits_once_iff.mp h).2
  | require inner need ih =>
    rw [requires, List.mem_append, List.mem_singleton]
    rcases awaits_require_iff.mp h with heq | hinner
    · exact Or.inr heq
    · exact Or.inl (ih hinner)

theorem isOpen_plain {name : String} {body : State → List State}
    {remarks : State → List Remark} : (plain name body remarks).IsOpen ops where
  nodup := List.nodup_nil
  fresh := by simp [produces]
  awaited := fun _ hawaits => absurd hawaits not_awaits_plain

/-- The gates inside a `once` gate see its operation recorded. -/
theorem isOpen_once_iff :
    (inner.once need).IsOpen ops ↔ need ∉ ops ∧ inner.IsOpen (ops.insert need) := by
  have hnodup : (inner.produces ++ [need]).Nodup
      ↔ inner.produces.Nodup ∧ ∀ op ∈ inner.produces, op ≠ need := by
    simp [List.nodup_append]
  constructor
  · rintro ⟨hproduces, hfresh, hawaited⟩
    obtain ⟨hinner, hother⟩ := hnodup.mp hproduces
    refine ⟨hfresh need (by simp [produces]), hinner, fun op hop => ?_, fun op hop => ?_⟩
    · rw [OrderedSet.mem_insert, not_or]
      exact ⟨hother op hop, hfresh op (by simp [produces, hop])⟩
    · rw [OrderedSet.mem_insert]
      by_cases heq : op = need
      · exact Or.inl heq
      · exact Or.inr (hawaited op (awaits_once_iff.mpr ⟨heq, hop⟩))
  · rintro ⟨hneed, hinner, hfresh, hawaited⟩
    have hseen : ∀ op ∈ inner.produces, op ≠ need ∧ op ∉ ops := by
      intro op hop
      have := hfresh op hop
      rwa [OrderedSet.mem_insert, not_or] at this
    refine ⟨hnodup.mpr ⟨hinner, fun op hop => (hseen op hop).1⟩, fun op hop => ?_, fun op hop => ?_⟩
    · rcases List.mem_append.mp hop with hop | hop
      · exact (hseen op hop).2
      · rw [List.mem_singleton.mp hop]
        exact hneed
    · obtain ⟨hne, hop⟩ := awaits_once_iff.mp hop
      exact (OrderedSet.mem_insert.mp (hawaited op hop)).resolve_left hne

theorem isOpen_require_iff :
    (inner.require need).IsOpen ops ↔ need ∈ ops ∧ inner.IsOpen ops := by
  constructor
  · rintro ⟨hnodup, hfresh, hawaited⟩
    exact ⟨hawaited need (awaits_require_iff.mpr (Or.inl rfl)), hnodup, hfresh,
      fun op hop => hawaited op (awaits_require_iff.mpr (Or.inr hop))⟩
  · rintro ⟨hneed, hnodup, hfresh, hawaited⟩
    refine ⟨hnodup, hfresh, fun op hop => ?_⟩
    rcases awaits_require_iff.mp hop with rfl | hop
    · exact hneed
    · exact hawaited op hop

/-! ## What a rule yields -/

/-- **Behind open gates** the body sees the state with all operations of the gates recorded. -/
theorem apply_of_isOpen (h : r.IsOpen s.ops) : r.apply s = r.body (s.record r.produces) := by
  -- from the outermost gate inwards; each `once` gate hands on a state with its operation
  induction r generalizing s with
  | plain => rfl
  | once inner need ih =>
    obtain ⟨hneed, hinner⟩ := isOpen_once_iff.mp h
    have hrecord : (s.addOp need).record inner.produces = s.record (inner.once need).produces := by
      rw [produces, State.record, State.record, OrderedSet.insertAll_append]
      exact congrArg (fun ops => { s with ops }) (OrderedSet.insertAll_insert ..)
    rw [apply, State.hasOp, decide_eq_false hneed, ih hinner, hrecord]
    rfl
  | require inner need ih =>
    obtain ⟨hneed, hinner⟩ := isOpen_require_iff.mp h
    rw [apply, State.hasOp, decide_eq_true hneed, if_pos rfl, ih hinner]
    rfl

theorem apply_of_not_isOpen (h : ¬r.IsOpen s.ops) : r.apply s = [] := by
  induction r generalizing s with
  | plain => exact absurd isOpen_plain h
  | once inner need ih =>
    rw [isOpen_once_iff, not_and] at h
    by_cases hneed : need ∈ s.ops
    · rw [apply, State.hasOp, decide_eq_true hneed, if_pos rfl]
    · rw [apply, ih (h hneed), ite_self]
  | require inner need ih =>
    rw [isOpen_require_iff, not_and] at h
    by_cases hneed : need ∈ s.ops
    · rw [apply, ih (h hneed), ite_self]
    · rw [apply, State.hasOp, decide_eq_false hneed]
      rfl

theorem isOpen_of_apply_ne_nil (h : r.apply s ≠ []) : r.IsOpen s.ops :=
  Classical.byContradiction fun hshut => h (apply_of_not_isOpen hshut)

end Rule

/-! ## Pipelines -/

namespace Pipeline

variable {stages : List Rule} {p : Pipeline} {r : Rule}

theorem missingOp?_eq_none_iff {known : List Operation} :
    missingOp? known stages = none ↔ ∀ r ∈ stages, ∀ op ∈ r.requires, op ∈ known := by
  simp only [missingOp?, List.findSome?_eq_none_iff, List.mem_flatMap, List.mem_map,
    List.contains_iff_mem]
  constructor
  · intro h r hr op hop
    have := h (r.name, op) ⟨r, hr, op, hop, rfl⟩
    simpa using this
  · rintro h _ ⟨r, hr, op, hop, rfl⟩
    simp [h r hr op hop]

/-- The operations that the stages report, each with the name of the stage. -/
def reported (report : Rule → List Operation) (stages : List Rule) : List (String × Operation) :=
  stages.flatMap fun r => (report r).map (r.name, ·)

theorem map_snd_reported (report : Rule → List Operation) (stages : List Rule) :
    (reported report stages).map Prod.snd = stages.flatMap report := by
  simp [reported, List.map_flatMap, Function.comp_def]

theorem map_snd_recorded (stages : List Rule) :
    (recorded stages).map Prod.snd = stages.flatMap Rule.produces :=
  map_snd_reported Rule.produces stages

/-- Stages can be put together when no operation is recorded twice and none is waited for in
vain. -/
theorem build_eq_ok_iff :
    build stages = .ok p
      ↔ p = ⟨stages⟩ ∧ (stages.flatMap Rule.produces).Nodup
        ∧ ∀ r ∈ stages, ∀ op ∈ r.requires, op ∈ stages.flatMap Rule.produces := by
  have hchecks : build stages = .ok p ↔ p = ⟨stages⟩ ∧ repeatedOp? [] (recorded stages) = none
      ∧ missingOp? ((recorded stages).map Prod.snd) stages = none := by
    unfold build
    cases repeatedOp? [] (recorded stages) with
    | some fault => simp
    | none =>
      cases missingOp? ((recorded stages).map Prod.snd) stages with
      | some fault => simp
      | none => simp [eq_comm]
  rw [hchecks, repeatedOp?_eq, Option.map_eq_none_iff, firstRepeat?_nil_eq_none_iff,
    missingOp?_eq_none_iff, map_snd_recorded]

/-- Stages can be put together in any order. -/
theorem build_eq_ok_of_perm {others : List Rule} (h : build stages = .ok p)
    (hperm : others.Perm stages) : build others = .ok ⟨others⟩ := by
  obtain ⟨-, hnodup, hknown⟩ := build_eq_ok_iff.mp h
  have hrecorded := hperm.flatMap_right Rule.produces
  refine build_eq_ok_iff.mpr ⟨rfl, hrecorded.nodup_iff.mpr hnodup, fun r hr op hop => ?_⟩
  exact hrecorded.mem_iff.mpr (hknown r (hperm.mem_iff.mp hr) op hop)

/-- The operations that one stage records are recorded once. -/
theorem nodup_produces_of_build (h : build stages = .ok p) (hr : r ∈ p.stages) :
    r.produces.Nodup := by
  obtain ⟨rfl, hnodup, -⟩ := build_eq_ok_iff.mp h
  exact (List.nodup_flatMap.mp hnodup).1 r hr

/-- **The gates of a stage hold** for what it awaits and for what it records. The stage yields
nothing on a state that lacks an operation of the one kind or has one of the other, and on every
other state its body decides. What a stage requires and does not await, it records itself before it
looks it up: no state is turned away for lacking that. -/
theorem apply_of_build (h : build stages = .ok p) (hr : r ∈ p.stages) (s : State) :
    ((∃ op ∈ r.requires, r.Awaits op ∧ op ∉ s.ops) ∨ (∃ op ∈ r.produces, op ∈ s.ops) →
        r.apply s = [])
      ∧ ((∀ op ∈ r.requires, r.Awaits op → op ∈ s.ops) → (∀ op ∈ r.produces, op ∉ s.ops) →
        r.apply s = r.body (s.record r.produces))
      ∧ ∀ op ∈ r.requires, r.Awaits op ∨ op ∈ r.produces := by
  refine ⟨fun hshut => ?_, fun hawaited hfresh => ?_, fun op => Rule.awaits_or_mem_produces⟩
  · refine Rule.apply_of_not_isOpen fun hopen => ?_
    rcases hshut with ⟨op, -, hawaits, hlacks⟩ | ⟨op, hproduces, hhas⟩
    · exact hlacks (hopen.awaited op hawaits)
    · exact hopen.fresh op hproduces hhas
  · have hmet : ∀ op, r.Awaits op → op ∈ s.ops := fun op hawaits =>
      hawaited op (Rule.mem_requires_of_awaits hawaits) hawaits
    exact Rule.apply_of_isOpen ⟨nodup_produces_of_build h hr, hfresh, hmet⟩

/-- Guṇa that waits for reduplication, as two stages that leave the state as it is. -/
theorem apply_of_build_two :
    let first := (Rule.silent "dvirvacana" fun s => [s]).once .dvirvacana
    let second := ((Rule.silent "rt" fun s => [s]).once .rt).require .dvirvacana
    let s := State.ofTerms [.dhatu "kf".toList]
    build [first, second] = .ok ⟨[first, second]⟩ ∧ second ∈ [first, second]
      ∧ second.apply s = [] ∧ second.apply (s.record [.dvirvacana, .rt]) = []
      ∧ second.apply (s.record [.dvirvacana]) = [s.record [.dvirvacana, .rt]] := by
  intro first second s
  have hbuild : build [first, second] = .ok ⟨[first, second]⟩ := rfl
  have hmem : second ∈ [first, second] := by simp
  refine ⟨hbuild, hmem, ?_, ?_, ?_⟩
  · refine (apply_of_build hbuild hmem s).1 (Or.inl ⟨.dvirvacana, by decide, ?_, by decide⟩)
    exact Rule.awaits_require_iff.mpr (Or.inl rfl)
  · exact (apply_of_build hbuild hmem _).1 (Or.inr ⟨.rt, by decide, by decide⟩)
  · refine ((apply_of_build hbuild hmem _).2.1 (fun op hop _ => ?_) (by decide)).trans rfl
    rw [List.mem_singleton.mp hop]
    decide

/-- A stage that requires the operation that it records. The `once` gate stands outside, so the
`require` gate is open on every state that reaches it. -/
def selfSupplied : Rule := ((Rule.silent "rt" fun s => [s]).require .rt).once .rt

/-- A stage that can be put into a pipeline fires without an operation that it reports as
required. -/
theorem apply_of_build_selfSupplied :
    build [selfSupplied] = .ok ⟨[selfSupplied]⟩ ∧ Operation.rt ∈ selfSupplied.requires
      ∧ Operation.rt ∉ (State.ofTerms [.dhatu "kf".toList]).ops
      ∧ selfSupplied.apply (.ofTerms [.dhatu "kf".toList]) ≠ [] :=
  ⟨rfl, by decide, by decide, by decide⟩

end Pipeline

end Vyakarana
