import Vyakarana.Program
import Vyakarana.Proofs.ReducedSyllable
import Vyakarana.Proofs.Turns
import Vyakarana.Proofs.VerbForm

/-!
# Derivations of verbs

The derive command starts from a root before a suffix. All six stages fire on it, one after the
other. Until the loss of vowels has its turn the derivation does not fork, the suffix stays, and the
abhyāsa keeps some sounds.

* `VerbStart`, `Program.exists_verbStart` — where the derive command starts
* `VerbStart.exists_lossReady` — the first four stages
-/

namespace Vyakarana

open Grammar (aciSet kuSet)

/-- A root, as taught, before a suffix. Both have sounds. -/
structure VerbStart where
  root : Term
  suffix : Term
  root_tags : root.tags = .ofList Term.dhatuTags
  root_clean : root.value = root.clean
  root_sounds : root.isEmpty = false
  suffix_sounds : suffix.isEmpty = false

namespace Reduplication

/-- The abhyāsa of a root with sounds has a consonant or a vowel. -/
theorem isEmpty_abhyasaOf {root : Term} (h : root.isEmpty = false) :
    (abhyasaOf root).isEmpty = false := by
  rw [Term.isEmpty_eq_false_iff] at h ⊢
  exact fun hnone => h (value_abhyasaOf_eq_nil_iff.mp hnone)

end Reduplication

namespace VerbStart

/-- The root and the suffix as a state. -/
def state (v : VerbStart) : State := .ofTerms [v.root, v.suffix]

/-- The suffix brings reduplication with it. -/
def isDue (v : VerbStart) : Bool := v.suffix.anyLakshana [.liW, .san]

theorem hasTag_root (v : VerbStart) (tag : Tag) :
    v.root.hasTag tag = decide (tag ∈ Term.dhatuTags) := by
  have hmem : tag ∈ v.root.tags ↔ tag ∈ Term.dhatuTags := by
    rw [v.root_tags]
    show tag ∈ (∅ : OrderedSet Tag).insertAll Term.dhatuTags ↔ _
    simp [OrderedSet.mem_insertAll]
  rw [Term.hasTag, decide_eq_decide]
  exact hmem

/-- The verb form after reduplication. -/
def form (v : VerbStart) : VerbForm where
  abhyasa := if v.isDue then some (Reduplication.abhyasaOf v.root) else none
  stem := v.root
  suffix := v.suffix
  abhyasa_tag := by
    intro a ha
    rw [Option.ite_none_right_eq_some] at ha
    rw [← Option.some.inj ha.2, Reduplication.hasTag_abhyasaOf]
    decide
  abhyasa_anga := by
    intro a ha
    rw [Option.ite_none_right_eq_some] at ha
    rw [← Option.some.inj ha.2, Reduplication.hasTag_abhyasaOf]
    decide
  stem_anga := (v.hasTag_root .anga).trans (by decide)
  stem_abhyasa := (v.hasTag_root .abhyasa).trans (by decide)
  suffix_sounds := v.suffix_sounds
  lit := by
    intro hlit
    have hdue : v.isDue = true := by
      rw [isDue, Term.anyLakshana, List.any_cons, hlit, Bool.true_or]
    rw [hdue]
    exact Option.some_ne_none _

theorem target?_state (v : VerbStart) (ops : OrderedSet Operation) :
    Reduplication.target? ⟨[v.root, v.suffix], ops⟩
      = if v.isDue then some (v.root, 0) else none := by
  have hroot : v.root.hasTag .dhatu = true := (v.hasTag_root .dhatu).trans (by decide)
  cases hdue : v.isDue <;> rw [isDue] at hdue <;>
    simp [Reduplication.target?, State.find?, State.next?, hroot, v.suffix_sounds, v.root_sounds,
      hdue]

end VerbStart

/-! ## Stages on verb forms -/

/-- The operations of the first stages. -/
def recorded (n : Nat) : OrderedSet Operation := .ofList ((Vocabulary.all : List Operation).take n)

section Stages

variable {slot : Slot} {body : State → List State} {remarks : State → List Remark} {gana : Gana}

/-- An open stage records its operation before its body sees the state. -/
theorem Slot.apply_rule_of_open {s : State} {n : Nat} (hops : s.ops = recorded n)
    (hopen : slot.op ∉ recorded n
      ∧ slot.needs.all (fun op => decide (op ∈ recorded n)) = true) :
    (slot.rule body remarks).apply s = body (s.addOp slot.op) := by
  rw [apply_rule, hops, if_pos hopen]

theorem VerbStart.apply_reduplication (v : VerbStart) :
    Reduplication.stage.apply v.state = [v.form.state (recorded 1)] := by
  have hroot : v.root.hasTag .dhatu = true := (v.hasTag_root .dhatu).trans (by decide)
  rw [Reduplication.stage_eq, Slot.apply_rule_of_open (n := 0) rfl (by decide)]
  show Reduplication.body ⟨[v.root, v.suffix], recorded 1⟩ = _
  rw [Reduplication.body, v.target?_state]
  cases hdue : v.isDue with
  | true => simp [State.find?, hroot, VerbForm.state, form, hdue, State.insert]
  | false => simp [State.find?, hroot, VerbForm.state, form, hdue]

theorem VerbForm.apply_strengthening (v : VerbForm) :
    (Strengthening.stage gana).apply (v.state (recorded 1))
      = [(v.reshaped gana).state (recorded 2)] := by
  rw [Strengthening.stage_eq, Slot.apply_rule_of_open (n := 1) rfl (by decide)]
  exact Strengthening.body_state gana v (recorded 2)

theorem VerbForm.apply_rt (v : VerbForm) :
    Strengthening.rtStage.apply (v.state (recorded 2)) = [v.rtReshaped.state (recorded 3)] := by
  rw [Strengthening.rtStage_eq, Slot.apply_rule_of_open (n := 2) rfl (by decide)]
  exact Strengthening.rtBody_state v (recorded 3)

theorem VerbForm.apply_beforeVowel (v : VerbForm) :
    (BeforeVowel.stage aciSet).apply (v.state (recorded 3))
      = BeforeVowel.body aciSet (v.state (recorded 4)) := by
  rw [BeforeVowel.stage_eq, Slot.apply_rule_of_open (n := 3) rfl (by decide)]
  rfl

theorem VerbForm.apply_vowelLoss (gana : Gana) (v : VerbForm) :
    (VowelLoss.stage gana).apply (v.state (recorded 4))
      = VowelLoss.body gana (v.state (recorded 5)) := by
  rw [VowelLoss.stage_eq, Slot.apply_rule_of_open (n := 4) rfl (by decide)]
  rfl

theorem VerbForm.apply_velar (v : VerbForm) :
    (Velar.stage kuSet).apply (v.state (recorded 5))
      = Velar.body kuSet (v.state (recorded 6)) := by
  rw [Velar.stage_eq, Slot.apply_rule_of_open (n := 5) rfl (by decide)]
  rfl

end Stages

/-! ## The first four stages -/

/-- The abhyāsa, if there is one, has sounds. -/
def VerbForm.Sounding (v : VerbForm) : Prop := ∀ a, v.abhyasa = some a → a.isEmpty = false

/-- Guṇa of stems in ṛ changes the stem only. -/
theorem VerbForm.rtReshaped_eq (v : VerbForm) :
    v.rtReshaped.abhyasa = v.abhyasa ∧ v.rtReshaped.suffix = v.suffix := by
  unfold rtReshaped
  split
  · exact ⟨rfl, rfl⟩
  · exact ⟨rfl, rfl⟩

namespace VerbStart

variable {gana : Gana} {v : VerbStart} {w : VerbForm}

theorem sounding_form (v : VerbStart) : v.form.Sounding := by
  intro a ha
  rw [form, Option.ite_none_right_eq_some] at ha
  rw [← Option.some.inj ha.2]
  exact Reduplication.isEmpty_abhyasaOf v.root_sounds

/-- The verb form after strengthening. -/
def strengthened (gana : Gana) (v : VerbStart) : VerbForm := (v.form.reshaped gana).rtReshaped

theorem sounding_strengthened (gana : Gana) (v : VerbStart) : (v.strengthened gana).Sounding := by
  intro a ha
  rw [strengthened, (VerbForm.rtReshaped_eq _).1] at ha
  exact v.sounding_form a ha

/-- A verb form on which the loss of vowels has its turn: what the rules before a vowel made of the
strengthened form. -/
structure LossReady (gana : Gana) (v : VerbStart) (w : VerbForm) : Prop where
  apply : (BeforeVowel.stage aciSet).apply ((v.strengthened gana).state (recorded 3))
    = [w.state (recorded 4)]
  suffix : w.suffix = v.suffix
  stem : BeforeVowel.Makes (v.strengthened gana).stem w.stem
  sounding : w.Sounding

theorem exists_lossReady (gana : Gana) (v : VerbStart) : ∃ w, v.LossReady gana w := by
  obtain ⟨w, hbody, hsuffix, hstem, habhyasa⟩ :=
    BeforeVowel.exists_body_state (v.strengthened gana) (recorded 4)
  refine ⟨w, (VerbForm.apply_beforeVowel _).trans hbody, ?_, hstem, ?_⟩
  · rw [hsuffix, strengthened, (VerbForm.rtReshaped_eq _).2]
    rfl
  · intro b hb
    rw [hb] at habhyasa
    cases ha : (v.strengthened gana).abhyasa with
    | none =>
      rw [ha] at habhyasa
      nomatch habhyasa
    | some a =>
      rw [ha] at habhyasa
      cases habhyasa with
      | some hmakes => exact hmakes.isEmpty (v.sounding_strengthened gana a ha)

open Pipeline

/-- The derivation does not fork before the loss of vowels. -/
theorem LossReady.sweep_eq (h : v.LossReady gana w) :
    sweep (Grammar.standardStages gana aciSet kuSet) v.state
      = sweep [VowelLoss.stage gana, Velar.stage kuSet] (w.state (recorded 4)) := by
  rw [Grammar.standardStages, sweep_cons_of_singleton v.apply_reduplication,
    sweep_cons_of_singleton (VerbForm.apply_strengthening _),
    sweep_cons_of_singleton (VerbForm.apply_rt _)]
  exact sweep_cons_of_singleton h.apply

/-- All six stages fire on a verb. -/
theorem schedule_state (v : VerbStart) :
    schedule v.state.has v.state.ops Grammar.slots = Grammar.slots := by
  have hhas : ∀ tag ∈ Term.dhatuTags, v.state.has tag = true := by
    intro tag htag
    refine List.any_eq_true.mpr ⟨v.root, List.mem_cons_self, ?_⟩
    rw [v.hasTag_root tag]
    exact decide_eq_true htag
  rw [schedule_eq_filter Grammar.prepared_slots fun slot hslot =>
    Grammar.toldBy_fires hslot v.state.has v.state.ops, hhas .dhatu (by decide),
    hhas .anga (by decide)]
  show Grammar.slots.filter (fun slot => Grammar.fires ∅ true true slot.op) = _
  rw [List.filter_eq_self]
  decide

end VerbStart

/-! ## Where the derive command starts -/

open CommandLine in
/-- **The derive command starts from a root before a suffix.** -/
theorem Program.exists_verbStart {r : DeriveRequest} {start : State}
    (h : Program.startState r = .ok start) : ∃ v : VerbStart, start = v.state := by
  obtain ⟨root, ending, hroot, hending, rfl⟩ := startState_eq_ok h
  refine ⟨⟨_, _, rfl, rfl, ?_, ?_⟩, rfl⟩
  · exact Term.isEmpty_eq_false_iff.mpr (Upadesha.sounds_of_parseStrict hroot).1
  · exact Term.isEmpty_eq_false_iff.mpr (Upadesha.sounds_of_parseStrict hending).1

end Vyakarana
