import Vyakarana.Proofs.PaddedStages
import Vyakarana.Proofs.Simulation

/-!
# Terms that a derivation takes no notice of

Terms of no category that the stages look for may stand before all others: the derivation is the
same, with them before every state. Terms without sounds may stand anywhere else as well, and the
surfaces are the same. There are two exceptions. The loss of vowels looks at the last term of all,
so nothing may come after that, and reduplication looks for an abhyāsa directly before the root, so
nothing may come between the two.

* `Grammar.derive_prepend` — terms before all others
* `Grammar.surfaces_insert_silent` — a term without sounds
-/

namespace Vyakarana

variable {s t u : State} {pad : Padding} {i : Nat}

/-- The state with terms before all others. -/
def State.prepend (terms : List Term) (s : State) : State := { s with terms := terms ++ s.terms }

/-- The surfaces of the derivations, in order. -/
def Outcome.surfaces (o : Outcome) : List Text := o.derivations.map fun d => d.state.surface

theorem Outcome.Related.surfaces_eq {R : State → State → Prop} {o q : Outcome}
    (h : o.Related R q) (hsurface : ∀ {s t}, R s t → t.surface = s.surface) :
    q.surfaces = o.surfaces := by
  unfold surfaces
  have heq := h.derivations.imp fun d e hde => hsurface hde.state
  rw [← List.forall₂_eq_eq_eq, List.forall₂_map_left_iff, List.forall₂_map_right_iff]
  exact heq.flip

namespace Grammar

variable {c : Config} {g : Grammar} {gana : Gana} {r : Rule}

/-! ## Terms before all others -/

theorem apply_pad_of_start_eq_zero (hr : r ∈ standardStages gana aciSet kuSet)
    (hzero : pad.start = 0) (s : State) : r.apply (s.pad pad) = (r.apply s).map (·.pad pad) := by
  rcases List.mem_cons.mp hr with rfl | hr
  · rw [Reduplication.stage_eq]
    exact Slot.apply_rule_pad s (Reduplication.body_pad hzero)
  · exact apply_pad hr (Or.inl hzero)

/-- **Terms before all others do not matter** if none of them is a root, a stem or an abhyāsa. They
stay where they are, and all else is as it is without them. -/
theorem derive_prepend (hg : ofConfig c = .ok g) {terms : List Term} (h : ∀ e ∈ terms, e.Inert)
    (s : State) :
    g.derive (s.prepend terms) = (g.derive s).mapStates (State.prepend terms) := by
  obtain ⟨-, rfl⟩ := ofConfig_eq_ok_iff.mp hg
  let pad : Padding := ⟨0, terms, h, Or.inl rfl⟩
  exact Pipeline.derive_eq_mapStates (f := (·.pad pad))
    (fun r hr s => apply_pad_of_start_eq_zero hr rfl s) c.limits s

theorem derive_prepend_pecatus : ∃ g, ofConfig {} = .ok g
    ∧ (∀ e ∈ [Term.plain "pra".toList], e.Inert)
    ∧ g.derive (pecatus.prepend [.plain "pra".toList])
      = (g.derive pecatus).mapStates (State.prepend [.plain "pra".toList]) := by
  have hg := ofConfig_of_accepted (show Config.validate {} = .ok () by decide)
  have hinert : ∀ e ∈ [Term.plain "pra".toList], e.Inert := by
    intro e he
    rw [List.mem_singleton.mp he]
    exact ⟨by decide, by decide, by decide⟩
  exact ⟨_, hg, hinert, derive_prepend hg hinert pecatus⟩

/-! ## Terms without sounds -/

/-- The second state is the first with a block without sounds, which is neither put after all terms
nor between a root and its abhyāsa. -/
def SilentlyPadded (s t : State) : Prop :=
  ∃ pad : Padding, (∀ e ∈ pad.block, e.isEmpty = true) ∧ pad.Fits s ∧ pad.Unsplit s
    ∧ t = s.pad pad

theorem SilentlyPadded.surface_eq (h : SilentlyPadded s t) : t.surface = s.surface := by
  obtain ⟨pad, hsilent, -, -, rfl⟩ := h
  exact State.surface_pad hsilent

/-- The place of the block stays what it is while terms evolve. -/
theorem fits_of_evolves {id : RuleId} (h : s.Evolves id t) (hfits : pad.Fits s) : pad.Fits t := by
  unfold Padding.Fits State.size at *
  rwa [h.size]

theorem unsplit_of_evolves {id : RuleId} (h : s.Evolves id t) (hunsplit : pad.Unsplit s) :
    pad.Unsplit t := by
  intro root b hroot hpos hb
  obtain ⟨root', hroot'⟩ := h.exists_get?_rev (State.get?_of_find? hroot)
  obtain ⟨a, ha⟩ := h.exists_get?_rev hb
  rw [Term.hasTag_congr (h.term ha hb).tags]
  exact hunsplit root' a (h.find?_rev hroot' hroot) hpos ha

/-- After reduplication the abhyāsa stands between the root and the block. -/
theorem silentlyPadded_insert (hsilent : ∀ e ∈ pad.block, e.isEmpty = true) (hfits : pad.Fits s)
    {root : Term} (hroot : s.find? .dhatu = some (root, i)) :
    SilentlyPadded (s.insert i (Reduplication.abhyasaOf root))
      ((s.insert i (Reduplication.abhyasaOf root)).pad (pad.after i)) := by
  have hlt := (List.getElem?_eq_some_iff.mp (State.get?_of_find? hroot)).1
  have hroot' := State.find?_insert (b := Reduplication.abhyasaOf root) hroot
    ((Reduplication.hasTag_abhyasaOf root .dhatu).trans (by decide))
  refine ⟨pad.after i, hsilent, Or.inr ?_, ?_, rfl⟩
  · have hstart := hfits.lt_size hlt
    rw [State.size_insert, Padding.after]
    dsimp only
    split <;> omega
  · intro root' a hfound
    have hplace := congrArg Prod.snd (Option.some.inj (hroot'.symm.trans hfound))
    simp only [Padding.after] at hplace
    split at hplace <;> omega

theorem respects_silentlyPadded (hr : r ∈ standardStages gana aciSet kuSet) :
    r.Respects SilentlyPadded := by
  rintro s _ ⟨pad, hsilent, hfits, hunsplit, rfl⟩
  rcases List.mem_cons.mp hr with rfl | hr
  · rw [Reduplication.stage_eq, Slot.apply_rule, Slot.apply_rule, State.ops_pad, State.addOp_pad]
    split
    · rcases Reduplication.body_pad_cases (s := s.addOp Reduplication.slot.op) hfits.le_size
        hunsplit with ⟨hbody, hpadded⟩ | ⟨hbody, hpadded⟩ | ⟨root, i, hroot, hbody, hpadded⟩
      · rw [hbody, hpadded]
        exact List.Forall₂.nil
      · rw [hbody, hpadded]
        exact List.Forall₂.cons ⟨pad, hsilent, hfits, hunsplit, rfl⟩ List.Forall₂.nil
      · rw [hbody, hpadded]
        exact List.Forall₂.cons
          (silentlyPadded_insert (s := s.addOp Reduplication.slot.op) hsilent hfits hroot)
          List.Forall₂.nil
    · exact List.Forall₂.nil
  · rw [apply_pad hr hfits, List.forall₂_map_right_iff, List.forall₂_same]
    intro u hu
    have hevolves := evolves_of_mem_apply hr hu
    exact ⟨pad, hsilent, fits_of_evolves hevolves hfits, unsplit_of_evolves hevolves hunsplit, rfl⟩

/-- **A term without sounds does not matter** if it is neither put after all terms nor between an
abhyāsa and the first root. The surfaces are the same, in the same order. -/
theorem surfaces_insert_silent (hg : ofConfig c = .ok g) {k : Nat} (hk : k < s.size)
    (hunsplit : ∀ root a, s.find? .dhatu = some (root, k) → 0 < k → s.get? (k - 1) = some a →
      a.hasTag .abhyasa = false) :
    (g.derive (s.insert k (.plain []))).surfaces = (g.derive s).surfaces := by
  obtain ⟨-, rfl⟩ := ofConfig_eq_ok_iff.mp hg
  let pad : Padding :=
    { start := k
      block := [.plain []]
      inert := fun _ he => (List.mem_singleton.mp he) ▸ ⟨rfl, rfl, rfl⟩
      silent := Or.inr fun _ he => (List.mem_singleton.mp he) ▸ rfl }
  have hsilent : ∀ e ∈ pad.block, e.isEmpty = true :=
    fun _ he => (List.mem_singleton.mp he) ▸ rfl
  have hpadded : SilentlyPadded s (s.insert k (.plain [])) :=
    ⟨pad, hsilent, Or.inr hk, hunsplit, rfl⟩
  have hrelated := Pipeline.derive_related
    (fun _ (hr : _ ∈ standardStages c.gana aciSet kuSet) => respects_silentlyPadded hr) c.limits
    hpadded
  exact hrelated.surfaces_eq fun h => h.surface_eq

/-- Between pra and the root pac. -/
theorem surfaces_insert_silent_pecatus :
    let s := pecatus.prepend [.plain "pra".toList]
    ∃ g, ofConfig {} = .ok g ∧ 1 < s.size
      ∧ (∀ root a, s.find? .dhatu = some (root, 1) → 0 < 1 → s.get? (1 - 1) = some a →
        a.hasTag .abhyasa = false)
      ∧ (g.derive (s.insert 1 (.plain []))).surfaces = (g.derive s).surfaces := by
  intro s
  have hg := ofConfig_of_accepted (show Config.validate {} = .ok () by decide)
  have hunsplit : ∀ root a, s.find? .dhatu = some (root, 1) → 0 < 1 → s.get? (1 - 1) = some a →
      a.hasTag .abhyasa = false := by
    intro root a _ _ ha
    have hpra : s.get? 0 = some (.plain "pra".toList) := rfl
    rw [← Option.some.inj (hpra.symm.trans ha)]
    decide
  exact ⟨_, hg, by decide, hunsplit, surfaces_insert_silent hg (by decide) hunsplit⟩

/-- The start of tasthatuḥ: the root sthā before atus, which is kit in liṭ. -/
def tasthatus : State :=
  .ofTerms [.dhatu "sTA".toList,
    ((Term.vibhakti "atus".toList).withMarkers [.kit]).withLakshana [.liW]]

/-- After all terms, a term without sounds hides the markers of the ending from the loss of the
final `A`. Between an abhyāsa and the root it hides the abhyāsa from reduplication. -/
theorem surfaces_insert_silent_ne : ∃ g, ofConfig {} = .ok g
    ∧ (g.derive tasthatus).surfaces = ["tasTatus".toList]
    ∧ (g.derive (tasthatus.insert 2 (.plain []))).surfaces = ["tasTAatus".toList]
    ∧ (g.derive (tasthatus.prepend [.abhyasa "ta".toList])).surfaces = ["tasTatus".toList]
    ∧ (g.derive ((tasthatus.prepend [.abhyasa "ta".toList]).insert 1 (.plain []))).surfaces
      = ["tatasTatus".toList] :=
  ⟨_, ofConfig_of_accepted (show Config.validate {} = .ok () by decide), by decide +kernel,
    by decide +kernel, by decide +kernel, by decide +kernel⟩

end Grammar

end Vyakarana
