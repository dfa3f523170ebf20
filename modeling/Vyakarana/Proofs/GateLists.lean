import Vyakarana.Proofs.Gates

/-!
# Lists of gates

Gates are put around a rule one after the other, so each stands inside those that follow it in the
list. What a gate sees of a state is what the `once` gates that follow it make of it: whether it is
open can be read off the list and the state that is given.

* `Gate.AllOpen` — every gate of a list lets a state pass
* `Rule.apply_behind`, `Rule.isOpen_behind_iff` — the rule behind a list of gates
* `Rule.apply_behind_swap` — a `once` gate and a `require` gate for different operations commute
* `Rule.apply_behind_and_reports` — what the rule yields and reports behind a list of gates
-/

namespace Vyakarana

variable {r r' : Rule} {g : Gate} {gates inner outer : List Gate} {op need : Operation}
  {ops : OrderedSet Operation} {s : State}

/-! ## Open gates of a list -/

namespace Gate

/-- The operation that a gate records. -/
def recorded? : Gate → Option Operation
  | once op => some op
  | require _ => none

/-- The operation that a gate requires. -/
def required? : Gate → Option Operation
  | once _ => none
  | require op => some op

/-- The operations that gates record, innermost gate first. -/
def recorded (gates : List Gate) : List Operation := gates.filterMap recorded?

/-- The operations that gates require, innermost gate first. -/
def required (gates : List Gate) : List Operation := gates.filterMap required?

/-- The gate lets a state pass on which `ops` were recorded before it met the gates `outer`, which
stand outside. -/
def IsOpen (ops : OrderedSet Operation) (outer : List Gate) : Gate → Prop
  | once op => op ∉ ops ∧ once op ∉ outer
  | require op => op ∈ ops ∨ once op ∈ outer

instance : Decidable (g.IsOpen ops outer) :=
  match g with
  | once op => inferInstanceAs (Decidable (op ∉ ops ∧ once op ∉ outer))
  | require op => inferInstanceAs (Decidable (op ∈ ops ∨ once op ∈ outer))

/-- Every gate of a list lets a state pass on which `ops` are recorded. Outside of a gate stand those
after it in the list. -/
def AllOpen (ops : OrderedSet Operation) (gates : List Gate) : Prop :=
  ∀ (i : Nat) (_ : i < gates.length), gates[i].IsOpen ops (gates.drop (i + 1))

instance : Decidable (AllOpen ops gates) :=
  inferInstanceAs (Decidable (∀ (i : Nat) (_ : i < gates.length), _))

theorem mem_recorded : op ∈ recorded gates ↔ once op ∈ gates := by
  rw [recorded, List.mem_filterMap]
  constructor
  · rintro ⟨g, hg, hop⟩
    cases g with
    | once need =>
      obtain rfl := Option.some.inj hop
      exact hg
    | require need => exact absurd hop nofun
  · exact fun h => ⟨once op, h, rfl⟩

/-- Outer gates matter by the operations that they record, and by nothing else. -/
theorem isOpen_once_iff : (once op).IsOpen ops outer ↔ op ∉ ops.insertAll (recorded outer) := by
  rw [IsOpen, OrderedSet.mem_insertAll, mem_recorded, not_or]

theorem isOpen_require_iff :
    (require op).IsOpen ops outer ↔ op ∈ ops.insertAll (recorded outer) := by
  rw [IsOpen, OrderedSet.mem_insertAll, mem_recorded]

theorem allOpen_nil : AllOpen ops [] := fun _ h => absurd h (Nat.not_lt_zero _)

theorem allOpen_cons : AllOpen ops (g :: gates) ↔ g.IsOpen ops gates ∧ AllOpen ops gates := by
  constructor
  · intro h
    exact ⟨h 0 (Nat.succ_pos _), fun i hi => h (i + 1) (Nat.succ_lt_succ hi)⟩
  · rintro ⟨hfirst, hrest⟩ i hi
    cases i with
    | zero => exact hfirst
    | succ i => exact hrest i (Nat.lt_of_succ_lt_succ hi)

theorem recorded_map_require (needs : List Operation) : recorded (needs.map require) = [] := by
  simp [recorded, recorded?]

theorem required_map_require (needs : List Operation) : required (needs.map require) = needs := by
  simp [required, required?, List.filterMap_map, Function.comp_def]

/-- Requirements alone are looked up in the state as it is given. -/
theorem allOpen_map_require {needs : List Operation} :
    AllOpen ops (needs.map require) ↔ ∀ need ∈ needs, need ∈ ops := by
  induction needs with
  | nil => exact iff_of_true allOpen_nil (by simp)
  | cons need needs ih => simp [allOpen_cons, ih, IsOpen]

end Gate

/-! ## Recording -/

/-- What a `once` gate records comes on top of what the gates outside of it recorded. -/
theorem State.addOp_record (s : State) (op : Operation) (ops : List Operation) :
    (s.record ops).addOp op = s.record (op :: ops) :=
  congrArg (fun ops => { s with ops }) (OrderedSet.insertAll_insert s.ops op ops).symm

namespace Rule

open Gate (AllOpen recorded required)

/-! ## Behind gates -/

theorem behind_cons (r : Rule) (g : Gate) (gates : List Gate) :
    r.behind (g :: gates) = (g.around r).behind gates := rfl

theorem behind_append (r : Rule) (inner outer : List Gate) :
    r.behind (inner ++ outer) = (r.behind inner).behind outer :=
  List.foldl_append

theorem name_behind : (r.behind gates).name = r.name := by
  induction gates generalizing r with
  | nil => rfl
  | cons g gates ih =>
    rw [behind_cons, ih]
    cases g with
    | once op => rfl
    | require op => rfl

theorem body_behind : (r.behind gates).body = r.body := by
  induction gates generalizing r with
  | nil => rfl
  | cons g gates ih =>
    rw [behind_cons, ih]
    cases g with
    | once op => rfl
    | require op => rfl

theorem requires_behind : (r.behind gates).requires = r.requires ++ required gates := by
  induction gates generalizing r with
  | nil => exact (List.append_nil _).symm
  | cons g gates ih =>
    rw [behind_cons, ih]
    cases g with
    | once op => rfl
    | require op => exact List.append_assoc ..

theorem produces_behind : (r.behind gates).produces = r.produces ++ recorded gates := by
  induction gates generalizing r with
  | nil => exact (List.append_nil _).symm
  | cons g gates ih =>
    rw [behind_cons, ih]
    cases g with
    | once op => exact List.append_assoc ..
    | require op => rfl

/-- One gate around a rule, on a state that met other gates before. -/
theorem apply_around (g : Gate) (r : Rule) (outer : List Gate) (s : State) :
    (g.around r).apply (s.record (recorded outer))
      = if g.IsOpen s.ops outer then r.apply (s.record (recorded (g :: outer))) else [] := by
  cases g with
  | once op =>
    simp only [Gate.isOpen_once_iff, Gate.around, apply, State.hasOp, State.addOp_record,
      decide_eq_true_eq, ite_not]
    rfl
  | require op =>
    simp only [Gate.isOpen_require_iff, Gate.around, apply, State.hasOp, decide_eq_true_eq]
    rfl

/-- **Behind a list of gates** the rule sees the state with all operations of the gates recorded, if
every gate is open, and yields nothing otherwise. -/
theorem apply_behind (r : Rule) (gates : List Gate) (s : State) :
    (r.behind gates).apply s
      = if AllOpen s.ops gates then r.apply (s.record (recorded gates)) else [] := by
  -- the first gate is the innermost: a state meets it after all the others
  induction gates generalizing r with
  | nil =>
    rw [if_pos Gate.allOpen_nil]
    rfl
  | cons g gates ih =>
    rw [behind_cons, ih, apply_around, ← ite_and]
    exact if_congr (and_comm.trans Gate.allOpen_cons.symm) rfl rfl

theorem isOpen_around_iff : (g.around r).IsOpen (ops.insertAll (recorded outer))
    ↔ g.IsOpen ops outer ∧ r.IsOpen (ops.insertAll (recorded (g :: outer))) := by
  cases g with
  | once op =>
    rw [Gate.isOpen_once_iff, Gate.around, isOpen_once_iff, ← OrderedSet.insertAll_insert]
    rfl
  | require op =>
    rw [Gate.isOpen_require_iff, Gate.around, isOpen_require_iff]
    rfl

theorem isOpen_behind_iff : (r.behind gates).IsOpen ops
    ↔ AllOpen ops gates ∧ r.IsOpen (ops.insertAll (recorded gates)) := by
  induction gates generalizing r with
  | nil => exact ⟨fun h => ⟨Gate.allOpen_nil, h⟩, And.right⟩
  | cons g gates ih =>
    rw [behind_cons, ih, isOpen_around_iff, Gate.allOpen_cons, ← and_assoc]
    exact and_congr_left fun _ => and_comm

/-! ## Order of gates -/

/-- Gates around rules that yield the same leave them so. -/
theorem apply_behind_congr (h : ∀ s, r.apply s = r'.apply s) (gates : List Gate) (s : State) :
    (r.behind gates).apply s = (r'.behind gates).apply s := by
  rw [apply_behind, apply_behind, h]

theorem apply_once_require (h : op ≠ need) (r : Rule) (s : State) :
    ((r.once op).require need).apply s = ((r.require need).once op).apply s := by
  have hneed : (s.addOp op).hasOp need = s.hasOp need := by
    simp [State.hasOp, State.addOp, Ne.symm h]
  simp only [apply, hneed]
  by_cases hop : s.hasOp op = true
  · rw [if_pos hop, if_pos hop, ite_self]
  · rw [if_neg hop, if_neg hop]

/-- Neighbouring gates that record and require different operations can change places. -/
theorem apply_behind_swap (h : op ≠ need) (r : Rule) (inner outer : List Gate) (s : State) :
    (r.behind (inner ++ .once op :: .require need :: outer)).apply s
      = (r.behind (inner ++ .require need :: .once op :: outer)).apply s := by
  rw [behind_append, behind_append]
  exact apply_behind_congr (apply_once_require h _) outer s

/-- **Behind any gates in any order** the rule yields what it makes of the state with all operations
of the `once` gates recorded. It yields nothing if some gate is shut: a `once` gate whose operation
is recorded, or has a `once` gate further out; or a `require` gate whose operation is not recorded
and has none. The operations required and recorded are reported innermost gate first. A `once` gate
and a `require` gate commute, unless they are for the same operation. -/
theorem apply_behind_and_reports (r : Rule) (gates : List Gate) :
    (∀ s, (r.behind gates).apply s
      = if AllOpen s.ops gates then r.apply (s.record (recorded gates)) else [])
      ∧ (r.behind gates).requires = r.requires ++ required gates
      ∧ (r.behind gates).produces = r.produces ++ recorded gates
      ∧ ∀ inner outer op need, gates = inner ++ .once op :: .require need :: outer → op ≠ need →
        let swapped := r.behind (inner ++ .require need :: .once op :: outer)
        (∀ s, (r.behind gates).apply s = swapped.apply s)
          ∧ (r.behind gates).requires = swapped.requires
          ∧ (r.behind gates).produces = swapped.produces := by
  refine ⟨apply_behind r gates, requires_behind, produces_behind, ?_⟩
  rintro inner outer op need rfl hne
  refine ⟨apply_behind_swap hne r inner outer, ?_, ?_⟩
  · rw [requires_behind, requires_behind, required, required, List.filterMap_append,
      List.filterMap_append]
    rfl
  · rw [produces_behind, produces_behind, recorded, recorded, List.filterMap_append,
      List.filterMap_append]
    rfl

/-- Gates that supply each other: the one that requires rt stands inside the one that records it. -/
theorem apply_behind_and_reports_selfSupplied :
    let r := Rule.silent "rt" fun s => [s]
    let gates : List Gate := [.require .rt, .once .rt, .require .dvirvacana]
    let s := State.ofTerms [.dhatu "kf".toList]
    (r.behind gates).apply (s.addOp .dvirvacana) = [s.record [.dvirvacana, .rt]]
      ∧ (r.behind gates).apply s = []
      ∧ (r.behind gates).requires = [.rt, .dvirvacana]
      ∧ gates = [.require .rt] ++ .once .rt :: .require .dvirvacana :: []
      ∧ Operation.rt ≠ .dvirvacana
      ∧ (r.behind [.require .rt, .require .dvirvacana, .once .rt]).apply (s.addOp .dvirvacana)
        = [s.record [.dvirvacana, .rt]] := by
  intro r gates s
  obtain ⟨happly, hrequires, -, hswap⟩ := apply_behind_and_reports r gates
  have hne : Operation.rt ≠ .dvirvacana := by decide
  have hfires : (r.behind gates).apply (s.addOp .dvirvacana) = [s.record [.dvirvacana, .rt]] :=
    (happly _).trans (if_pos (by decide))
  refine ⟨hfires, (happly s).trans (if_neg (by decide)), hrequires, rfl, hne, ?_⟩
  exact ((hswap [.require .rt] [] .rt .dvirvacana rfl hne).1 _).symm.trans hfires

end Rule

end Vyakarana
