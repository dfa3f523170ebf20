import Vyakarana.Proofs.AlikeWindows
import Vyakarana.Proofs.Frame
import Vyakarana.Proofs.Padding

/-!
# Stages on padded states

No stage takes notice of a padding: windows on padded states are alike, and all other lookups find
what they found before. Reduplication alone looks at the position before the root itself, so the
block must not come between a root and its abhyāsa.

* `RuleSet.applyAt_pad` — rule sets on padded states
* `Grammar.apply_pad` — the stages that work on stems
* `Reduplication.target?_pad` — the root to be reduplicated
-/

namespace Vyakarana

variable {s t : State} {pad : Padding} {i : Nat}

/-! ## Rule sets -/

namespace RuleSet

variable {set : RuleSet} {w : Window} {states : List State} {positions : List Nat}

theorem any_abhyasa_prev?_pad (h : pad.start ≤ s.size) :
    (((s.pad pad).prev? (pad.move i)).map Prod.fst).any (·.hasTag .abhyasa)
      = ((s.prev? i).map Prod.fst).any (·.hasTag .abhyasa) := by
  rcases State.prev?_pad (i := i) h with hsame | ⟨hnone, e, he, j, hblock⟩
  · rw [hsame]
    cases s.prev? i with
    | none => rfl
    | some placed => rfl
  · rw [hnone, hblock]
    exact (pad.inert e he).abhyasa

theorem exists_alike (h : pad.start ≤ s.size) (hw : Window.at? s i = some w) :
    ∃ v, Window.at? (s.pad pad) (pad.move i) = some v ∧ w.Alike v := by
  obtain ⟨cur, hcur, rfl⟩ := Option.map_eq_some_iff.mp hw
  refine ⟨_, Option.map_eq_some_iff.mpr ⟨cur, (State.getElem?_pad h).trans hcur, rfl⟩, rfl, ?_,
    any_abhyasa_prev?_pad h⟩
  rw [State.next?_pad h]
  cases s.next? i with
  | none => rfl
  | some placed => rfl

theorem at?_pad_eq_none (h : pad.start ≤ s.size) (hw : Window.at? s i = none) :
    Window.at? (s.pad pad) (pad.move i) = none := by
  rw [Window.at?, Option.map_eq_none_iff] at hw ⊢
  exact (State.getElem?_pad h).trans hw

theorem applyAt_pad (hset : ∀ r ∈ set.rules, r.SeesAlike) (h : pad.start ≤ s.size) (i : Nat) :
    set.applyAt (s.pad pad) (pad.move i) = (set.applyAt s i).map (·.pad pad) := by
  unfold applyAt
  cases hw : Window.at? s i with
  | none =>
    rw [at?_pad_eq_none h hw]
    rfl
  | some w =>
    obtain ⟨v, hv, halike⟩ := exists_alike h hw
    have hcur := congrArg (List.map fun cur => (s.replace i cur).pad pad)
      (map_cur_apply hset halike)
    rw [List.map_map, List.map_map] at hcur
    rw [hv]
    dsimp only
    rw [List.map_map]
    refine Eq.trans (List.map_congr_left fun w' _ => ?_) hcur
    exact State.replace_pad h w'.cur

theorem size_applyAt (ht : t ∈ set.applyAt s i) : t.size = s.size := by
  rcases mem_applyAt ht with rfl | ⟨w, -, w', -, rfl⟩
  · rfl
  · exact List.length_set

theorem applyEach_pad (hset : ∀ r ∈ set.rules, r.SeesAlike)
    (h : ∀ s ∈ states, pad.start ≤ s.size) :
    set.applyEach (states.map (·.pad pad)) (positions.map pad.move)
      = (set.applyEach states positions).map (·.pad pad) := by
  induction positions generalizing states with
  | nil => rfl
  | cons i rest ih =>
    have hfirst : (states.map (·.pad pad)).flatMap (set.applyAt · (pad.move i))
        = (states.flatMap (set.applyAt · i)).map (·.pad pad) := by
      rw [List.flatMap_map, List.map_flatMap]
      exact List.flatMap_congr fun s hs => applyAt_pad hset (h s hs) i
    rw [List.map_cons, applyEach, applyEach, hfirst]
    refine ih fun t ht => ?_
    obtain ⟨s, hs, ht⟩ := List.mem_flatMap.mp ht
    rw [size_applyAt ht]
    exact h s hs

end RuleSet

/-! ## Stages that work on stems -/

namespace Padding

/-- The block is put before everything or before some term of the state. -/
def Fits (pad : Padding) (s : State) : Prop := pad.start = 0 ∨ pad.start < s.size

theorem Fits.le_size (h : pad.Fits s) : pad.start ≤ s.size := by
  rcases h with hzero | hlt
  · rw [hzero]
    exact Nat.zero_le _
  · exact Nat.le_of_lt hlt

theorem Fits.lt_size (h : pad.Fits s) (hi : i < s.size) : pad.start < s.size := by
  rcases h with hzero | hlt
  · omega
  · exact hlt

end Padding

/-- The gates take no notice of the padding if the body does not. -/
theorem Slot.apply_rule_pad {slot : Slot} {body : State → List State}
    {remarks : State → List Remark} (s : State)
    (h : body ((s.addOp slot.op).pad pad) = (body (s.addOp slot.op)).map (·.pad pad)) :
    (slot.rule body remarks).apply (s.pad pad)
      = ((slot.rule body remarks).apply s).map (·.pad pad) := by
  rw [apply_rule, apply_rule, State.ops_pad, State.addOp_pad, h]
  split
  · rfl
  · rfl

section Stages

variable {gana : Gana} {set : RuleSet} {n : RuleId}

namespace Strengthening

theorem change?_pad (h : pad.start ≤ s.size) (i : Nat) :
    change? gana (s.pad pad) (pad.move i) = change? gana s i := by
  have hget : (s.pad pad).get? (pad.move i) = s.get? i := State.getElem?_pad h
  rw [change?, change?, hget, State.next?_pad h]
  cases s.get? i with
  | none => rfl
  | some stem =>
    cases s.next? i with
    | none => rfl
    | some placed => rfl

theorem reshapeAt_pad (h : pad.start ≤ s.size) (i : Nat) :
    reshapeAt gana (s.pad pad) (pad.move i) = (reshapeAt gana s i).pad pad := by
  rw [reshapeAt, reshapeAt, change?_pad h]
  cases change? gana s i with
  | none => rfl
  | some change => exact State.replace_pad h change.2

theorem size_reshapeAt (gana : Gana) (s : State) (i : Nat) :
    (reshapeAt gana s i).size = s.size := by
  unfold reshapeAt
  split
  · exact List.length_set
  · rfl

theorem reshapeEach_pad (h : pad.start ≤ s.size) (positions : List Nat) :
    reshapeEach gana (s.pad pad) (positions.map pad.move)
      = (reshapeEach gana s positions).pad pad := by
  induction positions generalizing s with
  | nil => rfl
  | cons i rest ih =>
    show reshapeEach gana (reshapeAt gana (s.pad pad) (pad.move i)) (rest.map pad.move) = _
    rw [reshapeAt_pad h, ih (by rwa [size_reshapeAt])]
    rfl

theorem stems_pad (h : pad.start ≤ s.size) : stems (s.pad pad) = (stems s).map pad.move := by
  rw [stems, State.findAll_pad h .anga (by decide), stems, List.map_map,
    List.map_map]
  rfl

theorem body_pad (h : pad.start ≤ s.size) :
    body gana (s.pad pad) = (body gana s).map (·.pad pad) := by
  rw [body, body, stems_pad h]
  cases stems s with
  | nil => rfl
  | cons i rest => exact congrArg (fun t => [t]) (reshapeEach_pad h (i :: rest))

theorem rtBody_pad (h : pad.start ≤ s.size) :
    rtBody (s.pad pad) = (rtBody s).map (·.pad pad) := by
  rw [rtBody, rtBody, State.find?_pad h .anga (by decide)]
  cases s.find? .anga with
  | none => rfl
  | some placed =>
    obtain ⟨stem, i⟩ := placed
    simp only [Option.map_some, Padding.movePlaced, Prod.map_apply, id_eq]
    rw [State.any_next?_pad h (·.hasLakshana .liW), State.replace_pad h]
    split
    · rfl
    · rfl

end Strengthening

namespace BeforeVowel

theorem foci_pad (h : pad.start ≤ s.size) (j : Nat) :
    foci (s.pad pad) (pad.move j) = (foci s j).map pad.move := by
  rw [foci, foci, State.find?_pad h .abhyasa (by decide)]
  cases s.find? .abhyasa with
  | none => rfl
  | some placed => rfl

theorem body_pad (hset : set.rules = RuleSet.number n rules) (h : pad.start ≤ s.size) :
    body set (s.pad pad) = (body set s).map (·.pad pad) := by
  have hsees := RuleSet.seesAlike_of_rules_eq hset seesAlike
  rw [body, body, State.find?_pad h .anga (by decide)]
  cases s.find? .anga with
  | none => rfl
  | some placed =>
    obtain ⟨stem, j⟩ := placed
    simp only [Option.map_some, Padding.movePlaced, Prod.map_apply, id_eq]
    rw [foci_pad h]
    split
    · rfl
    · exact RuleSet.applyEach_pad hsees fun t ht => by rwa [List.mem_singleton.mp ht]

end BeforeVowel

namespace LitE

theorem status_pad (h : pad.start ≤ s.size) : status gana (s.pad pad) = status gana s := by
  rw [status, status, State.find?_pad h .abhyasa (by decide), State.find?_pad h .anga (by decide)]
  cases s.find? .abhyasa with
  | none => rfl
  | some abhyasa =>
    cases s.find? .anga with
    | none => rfl
    | some placed =>
      obtain ⟨stem, j⟩ := placed
      simp only [Option.map_some, Padding.movePlaced, Prod.map_apply, id_eq]
      rw [State.next?_pad h]
      cases s.next? j with
      | none => rfl
      | some suffix => rfl

theorem substituted_pad (h : pad.start ≤ s.size) :
    substituted (s.pad pad) = (substituted s).map (·.pad pad) := by
  rw [substituted, substituted, State.find?_pad h .abhyasa (by decide),
    State.find?_pad h .anga (by decide)]
  cases s.find? .abhyasa with
  | none => rfl
  | some abhyasa =>
    cases s.find? .anga with
    | none => rfl
    | some stem =>
      have hsize : (s.replace abhyasa.2 abhyasa.1.lopa).size = s.size := List.length_set
      have hfirst := State.replace_pad (i := abhyasa.2) h abhyasa.1.lopa
      have hsecond := State.replace_pad (i := stem.2) (hsize ▸ h)
        (stem.1.alTasya (.ofSounds [.a, .A]) (.ofSounds [.e]))
      rw [← hfirst] at hsecond
      exact congrArg some hsecond

theorem successors_pad (h : pad.start ≤ s.size) :
    successors gana (s.pad pad) = (successors gana s).map (·.pad pad) := by
  rw [successors, successors, status_pad h, substituted_pad h]
  cases status gana s with
  | none => rfl
  | some status =>
    cases substituted s with
    | none => cases status <;> rfl
    | some t => cases status <;> rfl

end LitE

namespace VowelLoss

theorem lossIn_pad (h : pad.start ≤ s.size) (stem tin : Term) (i : Nat) :
    lossIn gana (s.pad pad) stem (pad.move i) tin
      = (lossIn gana s stem i tin).map (·.pad pad) := by
  rw [lossIn, lossIn]
  split
  · rw [State.replace_pad h]
    rfl
  · split
    · rw [State.replace_pad h]
      rfl
    · rw [LitE.successors_pad h]
      cases LitE.successors gana s with
      | nil => rfl
      | cons t states => rfl

/-- Some term stands after the stem, with the block as without it. -/
theorem move_succ_lt_size_iff (h : pad.start < s.size) :
    pad.move i + 1 < (s.pad pad).size ↔ i + 1 < s.size := by
  rw [State.size_pad, Padding.move]
  split <;> omega

theorem body_pad (h : pad.Fits s) : body gana (s.pad pad) = (body gana s).map (·.pad pad) := by
  rw [body, body, State.find?_pad h.le_size .anga (by decide)]
  cases hanga : s.find? .anga with
  | none => rfl
  | some placed =>
    obtain ⟨stem, i⟩ := placed
    have hlt : pad.start < s.size := by
      obtain ⟨hi, -⟩ := List.getElem?_eq_some_iff.mp (State.get?_of_find? hanga)
      exact h.lt_size hi
    simp only [Option.map_some, Padding.movePlaced, Prod.map_apply, id_eq]
    rw [State.getLast?_pad hlt]
    cases s.terms.getLast? with
    | none => rfl
    | some tin =>
      simp only [move_succ_lt_size_iff hlt, lossIn_pad h.le_size]
      split
      · rfl
      · rfl

end VowelLoss

namespace Velar

theorem body_pad (hset : set.rules = RuleSet.number n rules) (h : pad.start ≤ s.size) :
    body set (s.pad pad) = (body set s).map (·.pad pad) := by
  have hsees := RuleSet.seesAlike_of_rules_eq hset seesAlike
  rw [body, body, State.find?_pad h .anga (by decide)]
  cases s.find? .anga with
  | none => rfl
  | some placed => exact RuleSet.applyAt_pad hsees h placed.2

end Velar

/-- **The stages that work on stems take no notice of a padding.** -/
theorem Grammar.apply_pad {r : Rule}
    (hr : r ∈ [Strengthening.stage gana, Strengthening.rtStage, BeforeVowel.stage aciSet,
      VowelLoss.stage gana, Velar.stage kuSet])
    (h : pad.Fits s) : r.apply (s.pad pad) = (r.apply s).map (·.pad pad) := by
  simp only [List.mem_cons, List.not_mem_nil, or_false] at hr
  rcases hr with rfl | rfl | rfl | rfl | rfl
  · rw [Strengthening.stage_eq]
    exact Slot.apply_rule_pad s (Strengthening.body_pad h.le_size)
  · rw [Strengthening.rtStage_eq]
    exact Slot.apply_rule_pad s (Strengthening.rtBody_pad h.le_size)
  · rw [BeforeVowel.stage_eq]
    exact Slot.apply_rule_pad s (BeforeVowel.body_pad rfl h.le_size)
  · rw [VowelLoss.stage_eq]
    exact Slot.apply_rule_pad s (VowelLoss.body_pad h)
  · rw [Velar.stage_eq]
    exact Slot.apply_rule_pad s (Velar.body_pad rfl h.le_size)

end Stages

/-! ## Reduplication -/

namespace Padding

/-- The block does not come between the first root and an abhyāsa directly before it. -/
def Unsplit (pad : Padding) (s : State) : Prop :=
  ∀ root a, s.find? .dhatu = some (root, pad.start) → 0 < pad.start →
    s.get? (pad.start - 1) = some a → a.hasTag .abhyasa = false

theorem unsplit_of_start_eq_zero (h : pad.start = 0) : pad.Unsplit s := by
  intro root a _ hpos
  omega

theorem after_of_le (h : pad.start ≤ i) : pad.after i = pad := by
  simp only [after, if_neg (Nat.not_lt.mpr h)]

end Padding

namespace Reduplication

variable {root : Term}

/-- An abhyāsa stands directly before the position. -/
def precededByAbhyasa (s : State) (i : Nat) : Bool :=
  decide (0 < i) && (s.get? (i - 1)).any (·.hasTag .abhyasa)

theorem precededByAbhyasa_eq_false (h : 0 < i → ∀ a, s.get? (i - 1) = some a →
    a.hasTag .abhyasa = false) : precededByAbhyasa s i = false := by
  rw [precededByAbhyasa, Bool.and_eq_false_imp, decide_eq_true_eq]
  intro hpos
  rw [Option.any_eq_false]
  intro a ha
  rw [h hpos a ha]

theorem precededByAbhyasa_pad_of_ne (h : pad.start ≤ s.size) (hne : i ≠ pad.start) :
    precededByAbhyasa (s.pad pad) (pad.move i) = precededByAbhyasa s i := by
  have hpos : decide (0 < pad.move i) = decide (0 < i) := by
    rw [decide_eq_decide, Padding.move]
    split <;> omega
  have hbefore : 0 < i → pad.move i - 1 = pad.move (i - 1) := by
    intro hi
    rw [Padding.move, Padding.move]
    split <;> split <;> omega
  rw [precededByAbhyasa, precededByAbhyasa, hpos]
  by_cases hi : 0 < i
  · rw [hbefore hi]
    exact congrArg (fun a => decide (0 < i) && Option.any _ a) (State.getElem?_pad h)
  · rw [decide_eq_false hi, Bool.false_and, Bool.false_and]

/-- What stands directly before the root is the same for reduplication, if the block does not come
in between. -/
theorem precededByAbhyasa_pad (h : pad.start ≤ s.size) (hunsplit : pad.Unsplit s)
    (hroot : s.find? .dhatu = some (root, i)) :
    precededByAbhyasa (s.pad pad) (pad.move i) = precededByAbhyasa s i := by
  by_cases hi : i = pad.start
  · subst hi
    rw [precededByAbhyasa_eq_false fun hpos a => hunsplit root a hroot hpos]
    refine precededByAbhyasa_eq_false fun hpos a ha => ?_
    rw [Padding.move_of_le (Nat.le_refl _)] at hpos ha
    by_cases hempty : pad.block.length = 0
    · -- nothing is put in
      have hstart : 0 < pad.start := by omega
      have hbefore : pad.start + pad.block.length - 1 = pad.move (pad.start - 1) := by
        rw [Padding.move_of_lt (by omega)]
        omega
      rw [hbefore] at ha
      exact hunsplit root a hroot hstart ((State.getElem?_pad h).symm.trans ha)
    · have hlast : pad.start + pad.block.length - 1 = pad.start + (pad.block.length - 1) := by
        omega
      rw [hlast] at ha
      have hmem := (State.getElem?_pad_block h (by omega)).symm.trans ha
      exact (pad.inert a (List.mem_of_getElem? hmem)).abhyasa
  · exact precededByAbhyasa_pad_of_ne h hi

theorem target?_eq (s : State) :
    target? s = match s.find? .dhatu with
      | none => none
      | some (root, i) =>
        if ((s.next? i).any fun placed => placed.1.anyLakshana [.liW, .san])
            && !precededByAbhyasa s i && !root.isEmpty then some (root, i)
        else none :=
  rfl

/-- **The root to be reduplicated is the same**, if the block does not come between a root and its
abhyāsa. -/
theorem target?_pad (h : pad.start ≤ s.size) (hunsplit : pad.Unsplit s) :
    target? (s.pad pad) = (target? s).map pad.movePlaced := by
  rw [target?_eq, target?_eq, State.find?_pad h .dhatu (by decide)]
  cases hroot : s.find? .dhatu with
  | none => rfl
  | some placed =>
    obtain ⟨root, i⟩ := placed
    simp only [Option.map_some, Padding.movePlaced, Prod.map_apply, id_eq]
    rw [State.any_next?_pad h (·.anyLakshana [.liW, .san]), precededByAbhyasa_pad h hunsplit hroot]
    split
    · rfl
    · rfl

/-- The abhyāsa is put in on both sides or on neither. -/
theorem body_pad_cases (h : pad.start ≤ s.size) (hunsplit : pad.Unsplit s) :
    (body s = [] ∧ body (s.pad pad) = []) ∨ (body s = [s] ∧ body (s.pad pad) = [s.pad pad])
      ∨ ∃ root i, s.find? .dhatu = some (root, i) ∧ body s = [s.insert i (abhyasaOf root)]
        ∧ body (s.pad pad) = [(s.insert i (abhyasaOf root)).pad (pad.after i)] := by
  unfold body
  rw [State.find?_pad h .dhatu (by decide), target?_pad h hunsplit]
  cases hroot : s.find? .dhatu with
  | none => exact Or.inl ⟨rfl, rfl⟩
  | some placed =>
    cases htarget : target? s with
    | none => exact Or.inr (Or.inl ⟨rfl, rfl⟩)
    | some target =>
      obtain ⟨root, i⟩ := target
      have hfound := target?_eq_some htarget
      have hi := (List.getElem?_eq_some_iff.mp (State.get?_of_find? hfound)).1
      refine Or.inr (Or.inr ⟨root, i, hroot.symm.trans hfound, rfl, ?_⟩)
      exact congrArg (fun t => [t]) (State.insert_pad h (Nat.le_of_lt hi) (abhyasaOf root))

/-- A block before everything stays before everything. -/
theorem body_pad (hzero : pad.start = 0) : body (s.pad pad) = (body s).map (·.pad pad) := by
  have hle : pad.start ≤ s.size := hzero ▸ Nat.zero_le _
  rcases body_pad_cases hle (Padding.unsplit_of_start_eq_zero hzero) with
    ⟨hbody, hpadded⟩ | ⟨hbody, hpadded⟩ | ⟨root, i, -, hbody, hpadded⟩
  · rw [hpadded, hbody]
    rfl
  · rw [hpadded, hbody]
    rfl
  · rw [hpadded, hbody, Padding.after_of_le (hzero ▸ Nat.zero_le i)]
    rfl

end Reduplication

end Vyakarana
