import Mathlib.Data.List.Nodup
import Vyakarana.Proofs.VerbRun

/-!
# What the derive command finds

A derivation of a verb forks at most twice: at the e-substitution and at the one optional rule of
the ku series. The e-substitution takes the sounds of the abhyāsa away, so that no rule of the ku
series applies after it, and so that its surface is shorter than the others.

* `VerbForm.sweep_velar` — the leaves that the ku series gives
* `VerbStart.sweep_standardStages` — all leaves
* `Program.derivations_of_startState` — the derivations that the command finds
-/

namespace Vyakarana

open Grammar (aciSet kuSet)
open Pipeline

variable {gana : Gana}

/-! ## Leaves below verb forms -/

namespace VerbForm

variable {v : VerbForm} {a : Term}

theorem surface_state (v : VerbForm) (ops : OrderedSet Operation) :
    (v.state ops).surface
      = v.abhyasa.toList.flatMap Term.value ++ (v.stem.value ++ v.suffix.value) := by
  simp [state, State.surface]

theorem sweep_velar_eq (v : VerbForm) :
    sweep [Velar.stage kuSet] (v.state (recorded 5)) = Velar.body kuSet (v.state (recorded 6)) := by
  have hne : Velar.body kuSet (v.state (recorded 6)) ≠ [] := by
    rw [Velar.body, v.find?_anga]
    exact kuSet.applyAt_ne_nil _ _
  rw [sweep_cons_of_ne_nil (by rwa [apply_velar]), apply_velar]
  exact List.flatMap_singleton' _

/-- The ku series gives one or two leaves. Their surfaces differ, but are as long as that of the
verb form. -/
theorem sweep_velar (v : VerbForm) :
    (sweep [Velar.stage kuSet] (v.state (recorded 5))).length ≤ 2
      ∧ ((sweep [Velar.stage kuSet] (v.state (recorded 5))).map State.surface).Nodup
      ∧ ∀ t ∈ sweep [Velar.stage kuSet] (v.state (recorded 5)),
        t.surface.length = (v.state (recorded 5)).surface.length := by
  obtain ⟨stems, hbody, hlen, hnodup, hstems⟩ := Velar.exists_body_state v (recorded 6)
  rw [sweep_velar_eq, hbody]
  refine ⟨by rwa [List.length_map], ?_, ?_⟩
  · have hsurfaces : (stems.map ((v.state (recorded 6)).replace v.place)).map State.surface
        = (stems.map Term.value).map fun value =>
          v.abhyasa.toList.flatMap Term.value ++ (value ++ v.suffix.value) := by
      rw [List.map_map, List.map_map]
      exact List.map_congr_left fun b _ => v.surface_replace_place (recorded 6) b
    rw [hsurfaces]
    refine hnodup.map fun x y hxy => ?_
    exact List.append_cancel_right (List.append_cancel_left hxy)
  · intro t ht
    obtain ⟨b, hb, rfl⟩ := List.mem_map.mp ht
    rw [v.surface_replace_place, v.surface_state]
    simp only [List.length_append, (hstems b hb).2]

/-- After the e-substitution the ku series has no say. -/
theorem sweep_velar_eSubstituted (ha : v.abhyasa = some a) :
    sweep [Velar.stage kuSet] ((v.eSubstituted a ha).state (recorded 5))
      = [(v.eSubstituted a ha).state (recorded 6)] := by
  rw [sweep_velar_eq]
  exact Velar.body_state_of_silent (a := a.lopa) rfl rfl (recorded 6)

/-- The e-substitution makes the surface shorter, by the sounds of the abhyāsa. -/
theorem length_surface_eSubstituted_lt (ha : v.abhyasa = some a) (hsounds : a.isEmpty = false)
    (ops : OrderedSet Operation) :
    ((v.eSubstituted a ha).state ops).surface.length < (v.state ops).surface.length := by
  have hpos := List.length_pos_iff.mpr (Term.isEmpty_eq_false_iff.mp hsounds)
  have hstem := Term.length_alTasya v.stem (.ofSounds [.a, .A]) (.ofSounds [.e])
  have habhyasa : (v.eSubstituted a ha).abhyasa.toList.flatMap Term.value = [] := rfl
  rw [surface_state, surface_state, habhyasa, ha]
  simp only [eSubstituted, withStem, withAbhyasa, List.length_append, List.length_nil, hstem,
    Option.toList_some, List.flatMap_singleton]
  omega

end VerbForm

/-! ## All leaves -/

/-- There are at most three leaves, and their surfaces differ. -/
theorem VerbStart.sweep_standardStages (gana : Gana) (v : VerbStart) :
    (sweep (Grammar.standardStages gana aciSet kuSet) v.state).length ≤ 3
      ∧ ((sweep (Grammar.standardStages gana aciSet kuSet) v.state).map State.surface).Nodup := by
  obtain ⟨w, hready⟩ := v.exists_lossReady gana
  have hloss := w.apply_vowelLoss gana
  rw [hready.sweep_eq]
  rcases VowelLoss.body_state_cases gana w (recorded 5) with
    ⟨b, htags, hbody⟩ | ⟨a, ha, -, -, hbody | hbody⟩
  · rw [sweep_cons_of_singleton (hloss.trans hbody)]
    obtain ⟨hlen, hnodup, -⟩ := (w.withStem b htags).sweep_velar
    exact ⟨Nat.le_succ_of_le hlen, hnodup⟩
  · rw [sweep_cons_of_singleton (hloss.trans hbody), VerbForm.sweep_velar_eSubstituted]
    exact ⟨Nat.le_add_left 1 2, List.nodup_singleton _⟩
  · rw [hbody] at hloss
    rw [sweep_cons_of_ne_nil (by rw [hloss]; exact List.cons_ne_nil _ _), hloss,
      List.flatMap_cons, List.flatMap_singleton, VerbForm.sweep_velar_eSubstituted]
    obtain ⟨hlen, hnodup, hlengths⟩ := w.sweep_velar
    refine ⟨Nat.succ_le_succ hlen, List.nodup_cons.mpr ⟨?_, hnodup⟩⟩
    intro hmem
    obtain ⟨t, ht, hsame⟩ := List.mem_map.mp hmem
    have hlt := VerbForm.length_surface_eSubstituted_lt ha (hready.sounding a ha) (recorded 6)
    rw [← hsame, hlengths t ht] at hlt
    exact Nat.lt_irrefl _ hlt

/-! ## The derivations that are found -/

open CommandLine in
/-- **What the derive command finds**: at most three derivations of six steps each, with different
surfaces, and at least one unless the search is cut off. -/
theorem Program.derivations_of_startState {c : Config} {g : Grammar} {r : DeriveRequest}
    {start : State} (hg : Grammar.ofConfig c = .ok g) (hstart : startState r = .ok start) :
    (g.derive start).derivations.length ≤ 3
      ∧ ((g.derive start).truncated = false → (g.derive start).derivations ≠ [])
      ∧ (∀ d ∈ (g.derive start).derivations, d.history.length = 6)
      ∧ ((g.derive start).derivations.map fun d => d.state.surface).Nodup := by
  obtain ⟨-, rfl⟩ := Grammar.ofConfig_eq_ok_iff.mp hg
  obtain ⟨v, rfl⟩ := exists_verbStart hstart
  have hscheduled := Grammar.scheduledBy c.gana
  have hsub := hscheduled.derivations_sublist c.limits v.state
  have hleaves := hscheduled.map_state_leaves ⟨v.state, []⟩
  obtain ⟨hlen, hnodup⟩ := v.sweep_standardStages c.gana
  refine ⟨?_, hscheduled.derivations_ne_nil c.limits v.state, ?_, ?_⟩
  · have hcount := congrArg List.length hleaves
    rw [List.length_map] at hcount
    have hle := hsub.length_le
    rw [List.length_map, hcount] at hle
    exact hle.trans hlen
  · intro d hd
    obtain ⟨hpath, hover⟩ := hscheduled.path_of_mem_derivations c.limits v.state hd
    have hstages := congrArg List.length (Path.stages_eq_schedule hscheduled hpath hover).1
    rw [v.schedule_state, List.length_map, List.length_map] at hstages
    exact hstages
  · rw [← hleaves, List.map_map] at hnodup
    have hsurfaces := hsub.map fun d : Derivation => d.state.surface
    rw [List.map_map] at hsurfaces
    exact hnodup.sublist hsurfaces

open CommandLine in
/-- With the root ci listed for the optional e-substitution both forks are taken: there are three
derivations before atus. -/
theorem Program.derivations_of_startState_cikyatus :
    let c : Config := { gana := { phan := ["ci".toList] } }
    let r : DeriveRequest := { dhatu := "ci".toList, suffix := "atus".toList, markers := [.kit] }
    ∃ g start, Grammar.ofConfig c = .ok g ∧ startState r = .ok start
      ∧ (g.derive start).derivations.length = 3
      ∧ (∀ d ∈ (g.derive start).derivations, d.history.length = 6)
      ∧ ((g.derive start).derivations.map fun d => d.state.surface).Nodup := by
  intro c r
  have hg := Grammar.ofConfig_of_accepted (show c.validate = .ok () by decide)
  obtain ⟨start, hstart⟩ : ∃ start, startState r = .ok start := ⟨_, rfl⟩
  refine ⟨_, start, hg, hstart, ?_, (derivations_of_startState hg hstart).2.2⟩
  rw [← Except.ok.inj hstart]
  decide +kernel

end Vyakarana
