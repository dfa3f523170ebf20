import Vyakarana.Proofs.DeriveCommand
import Vyakarana.Proofs.SettledWindows

/-!
# The root bhū in liṭ

Before a vowel of liṭ the root bhū takes the augment vuk (6.4.88), but only as long as its value is
the one that was taught. Strengthening has its turn first. So bhū takes vuk before the suffixes that
do not strengthen it, and has guṇa or vṛddhi and no vuk before the others.

* `BeforeVowel.body_state_of_apply`, `VowelLoss.body_state_of_inapplicable`,
  `Velar.body_state_of_clean` — stages with a known outcome
* `VerbStart.sweep_bhu` — bhū before a vowel of liṭ, through all stages
* `Program.derivations_bhu_in_lit` — what the derive command finds
-/

namespace Vyakarana

open Grammar (aciSet kuSet)

variable {v : VerbForm} {ops : OrderedSet Operation} {gana : Gana} {a b : Term}

/-! ## Stages with a known outcome -/

namespace VerbForm

/-- The window around the abhyāsa. -/
theorem at?_abhyasa (ha : v.abhyasa = some a) (hstem : v.stem.isEmpty = false) :
    Window.at? (v.state ops) 0 = some ⟨none, a, some v.stem⟩ := by
  simp [Window.at?, State.get?, State.prev?, State.next?, state, ha, hstem]

end VerbForm

/-- The rules before a vowel change the stem, if they leave the abhyāsa. -/
theorem BeforeVowel.body_state_of_apply (ha : v.abhyasa = some a) (hsounds : a.isEmpty = false)
    (hstem : v.stem.isEmpty = false) (htags : b.tags = v.stem.tags)
    (hfirst : aciSet.apply ⟨none, a, some v.stem⟩ = [⟨none, a, some v.stem⟩])
    (hsecond : aciSet.apply ⟨some a, v.stem, some v.suffix⟩ = [⟨some a, b, some v.suffix⟩])
    (ops : OrderedSet Operation) :
    body aciSet (v.state ops) = [(v.withStem b htags).state ops] := by
  have hfoci : foci (v.state ops) v.place = [0, v.place] := by
    rw [foci, VerbForm.find?_abhyasa ha]
    rfl
  have hkept : aciSet.applyAt (v.state ops) 0 = [v.state ops] := by
    have hget : (v.state ops).terms[0]? = some a := by simp [VerbForm.state, ha]
    rw [RuleSet.applyAt, VerbForm.at?_abhyasa ha hstem]
    dsimp only
    rw [hfirst, List.map_singleton, State.replace_self hget]
  have hchanged : aciSet.applyAt (v.state ops) v.place = [(v.withStem b htags).state ops] := by
    rw [RuleSet.applyAt, v.at?_place, VerbForm.prev?_place ha, hsounds]
    dsimp only
    show (aciSet.apply ⟨some a, v.stem, some v.suffix⟩).map _ = _
    rw [hsecond, List.map_singleton, v.replace_place ops b htags]
  rw [body, v.find?_anga]
  dsimp only
  rw [hstem, hfoci, RuleSet.applyEach, List.flatMap_singleton, hkept, RuleSet.applyEach,
    List.flatMap_singleton, hchanged]
  rfl

/-- A stem that keeps its vowels: it does not end in `A`, is not listed in 6.4.98, and does not take
`e`. -/
theorem VowelLoss.body_state_of_inapplicable (hfinal : v.stem.antya? ≠ some 'A')
    (hlisted : v.stem.value ∉ gamAdi)
    (hverdict : ∀ a, v.abhyasa = some a → LitE.verdict gana a v.stem = .inapplicable)
    (ops : OrderedSet Operation) : body gana (v.state ops) = [v.state ops] := by
  rw [body, v.find?_anga]
  dsimp only
  rw [v.getLast?_terms]
  dsimp only
  rw [if_pos (v.place_succ_lt_size ops), lossIn, if_neg (by simp [hfinal]),
    if_neg (by simp [hlisted])]
  rcases LitE.successors_state gana v ops with h | h | ⟨a, ha, -, hne, -⟩
  · rw [h]
  · rw [h]
  · exact absurd (hverdict a ha) hne

theorem Velar.body_state_of_clean (h : v.stem.clean ∉ roots) (ops : OrderedSet Operation) :
    body kuSet (v.state ops) = [v.state ops] := by
  rw [body_state, apply_of_clean h, List.map_singleton, State.replace_self (v.get?_place ops)]

/-! ## Bhū -/

/-- The root bhū. -/
def bhu : Term := .dhatu "BU".toList

namespace Strengthening

/-- The suffix gives guṇa or vṛddhi to the stem before it, if the sounds of that admit it. -/
def strengthens (suffix : Term) : Bool :=
  !suffix.anyMarker [.kit, .Nit]
    && (suffix.anyMarker [.Yit, .Rit] || suffix.anyTag [.sarvadhatuka, .ardhadhatuka])

theorem reshape_bhu (suffix : Term) : reshape {} bhu suffix
    = if strengthens suffix then
        if suffix.anyMarker [.Yit, .Rit] then bhu.vrddhi else bhu.guna
      else bhu := by
  have hvac : Gana.inVac {} bhu.clean = false := by decide
  have hgrah : Gana.inGrah {} bhu.clean = false := by decide
  have hac : (bhu.isAc || bhu.upadha? == some 'a') = true := by decide
  simp only [reshape, hvac, hgrah, hac, Bool.and_false, Bool.or_false, Bool.false_eq_true, if_false,
    if_true]
  by_cases hkniti : suffix.anyMarker [.kit, .Nit] = true
  · simp [strengthens, hkniti]
  by_cases hnniti : suffix.anyMarker [.Yit, .Rit] = true
  · simp [strengthens, hkniti, hnniti]
  · simp [strengthens, hkniti, hnniti]

theorem reshape_bhu_mem (suffix : Term) :
    reshape {} bhu suffix ∈ [bhu.vrddhi, bhu.guna, bhu] := by
  rw [reshape_bhu]
  split
  · split <;> simp
  · simp

end Strengthening

namespace BeforeVowel

open Strengthening (strengthens)

/-- Bhū as it stands before a vowel of liṭ in the end. -/
def bhuBefore (suffix : Term) : Term :=
  if strengthens suffix then if suffix.anyMarker [.Yit, .Rit] then bhu.vrddhi else bhu.guna
  else bhu.tasya (.agama vuk)

theorem bhuBefore_of_kept {suffix : Term} (h : strengthens suffix = false) :
    bhuBefore suffix = bhu.tasya (.agama vuk) := if_neg (by simp [h])

theorem bhuBefore_of_strengthened {suffix : Term} (h : strengthens suffix = true) :
    bhuBefore suffix = if suffix.anyMarker [.Yit, .Rit] then bhu.vrddhi else bhu.guna := if_pos h

/-- The three outcomes. -/
theorem bhuBefore_mem (suffix : Term) :
    bhuBefore suffix ∈ [bhu.vrddhi, bhu.guna, bhu.tasya (.agama vuk)] := by
  unfold bhuBefore
  split
  · split <;> simp
  · simp

/-- 6.4.88 decides about bhū before a vowel of liṭ. -/
theorem apply_bhu {suffix : Term} (hvowel : suffix.startsWith (Pratyahara.sounds .ac) = true)
    (hlit : suffix.hasLakshana .liW = true) (left : Option Term) :
    aciSet.apply ⟨left, bhu, some suffix⟩ = [⟨left, bhu.tasya (.agama vuk), some suffix⟩] := by
  have happlies : bhuvoVuk.appliesTo ⟨left, bhu, some suffix⟩ = true := by
    have hroot : Context.and (.hasTag .dhatu) (.cleanIn [['B', 'U']]) (some bhu) = true := by decide
    have hright : Context.and vowelFollows (.anyLakshana [.luN, .liW]) (some suffix) = true := by
      simp [Context.and, vowelFollows, Context.startsWith, Context.anyLakshana, Term.anyLakshana,
        hvowel, hlit]
    simp [WindowRule.appliesTo, WindowRule.holds, bhuvoVuk, hroot, hright]
  have happly : bhuvoVuk.apply ⟨left, bhu, some suffix⟩
      = [⟨left, bhu.tasya (.agama vuk), some suffix⟩] := by
    rw [WindowRule.apply, if_pos happlies]
    rfl
  have hchanges : bhuvoVuk.Changes ⟨left, bhu, some suffix⟩ := by
    refine ⟨happlies, _, happly ▸ List.mem_singleton_self _, ?_⟩
    have hne : bhu.tasya (.agama vuk) ≠ bhu := by decide
    exact fun heq => hne (congrArg Window.cur heq)
  rw [apply_eq, if_pos hchanges, happly]

/-- What the rules before a vowel make of bhū as strengthening leaves it. -/
theorem apply_reshape_bhu {suffix : Term}
    (hvowel : suffix.startsWith (Pratyahara.sounds .ac) = true)
    (hlit : suffix.hasLakshana .liW = true) (left : Option Term) :
    aciSet.apply ⟨left, Strengthening.reshape {} bhu suffix, some suffix⟩
      = [⟨left, bhuBefore suffix, some suffix⟩] := by
  have hother : ∀ b ∈ [bhu.vrddhi, bhu.guna],
      aciSet.apply ⟨left, b, some suffix⟩ = [⟨left, b, some suffix⟩] := by
    intro b hb
    have hfinal : ∀ b ∈ [bhu.vrddhi, bhu.guna],
        b.value.getLast? ∉ [some 'i', some 'I', some 'u', some 'U'] ∧ b.clean ≠ ['i'] := by
      decide
    obtain ⟨hfinal, hclean⟩ := hfinal b hb
    exact (apply_of_other_final (w := ⟨left, b, some suffix⟩) hfinal).1 fun h => hclean h.2.1
  rw [Strengthening.reshape_bhu, bhuBefore]
  split
  · split
    · exact hother _ (by simp)
    · exact hother _ (by simp)
  · exact apply_bhu hvowel hlit left

end BeforeVowel

/-! ## Bhū before a vowel of liṭ -/

namespace VerbStart

open BeforeVowel (bhuBefore)

variable {v : VerbStart}

theorem bhuBefore_tags (hroot : v.root = bhu) (suffix : Term) :
    (bhuBefore suffix).tags = v.form.stem.tags := by
  have hall : ∀ b ∈ [bhu.vrddhi, bhu.guna, bhu.tasya (.agama BeforeVowel.vuk)],
      b.tags = bhu.tags := by decide
  show _ = v.root.tags
  rw [hroot]
  exact hall _ (BeforeVowel.bhuBefore_mem suffix)

theorem abhyasa_form_bhu (hroot : v.root = bhu) (hlit : v.suffix.hasLakshana .liW = true) :
    v.form.abhyasa = some (Reduplication.abhyasaOf bhu) := by
  have hdue : v.isDue = true := by
    rw [isDue, Term.anyLakshana, List.any_cons, hlit, Bool.true_or]
  show (if v.isDue then some (Reduplication.abhyasaOf v.root) else none) = _
  rw [hdue, hroot]
  rfl

/-- Strengthening and the rules before a vowel. -/
theorem apply_beforeVowel_bhu (hroot : v.root = bhu) (hlit : v.suffix.hasLakshana .liW = true)
    (hvowel : v.suffix.startsWith (Pratyahara.sounds .ac) = true) :
    (BeforeVowel.stage aciSet).apply ((v.form.reshaped {}).rtReshaped.state (recorded 3))
      = [(v.form.withStem (bhuBefore v.suffix) (bhuBefore_tags hroot v.suffix)).state
          (recorded 4)] := by
  have hreshaped : ∀ b ∈ [bhu.vrddhi, bhu.guna, bhu],
      b.isEmpty = false ∧ Strengthening.takesRtGuna b = false := by decide
  obtain ⟨hsounds, hnoRt⟩ := hreshaped _ (Strengthening.reshape_bhu_mem v.suffix)
  have hstem : (v.form.reshaped {}).stem = Strengthening.reshape {} bhu v.suffix := by
    rw [← hroot]
    rfl
  have hkept : (v.form.reshaped {}).rtReshaped = v.form.reshaped {} := by
    refine if_neg ?_
    rw [hstem, hnoRt, Bool.and_false]
    exact Bool.false_ne_true
  have hfirst : ∀ stem, aciSet.apply ⟨none, Reduplication.abhyasaOf bhu, some stem⟩
      = [⟨none, Reduplication.abhyasaOf bhu, some stem⟩] := by
    intro stem
    have hfinal : (Reduplication.abhyasaOf bhu).value.getLast?
        ∉ [some 'i', some 'I', some 'u', some 'U'] := by decide
    have hnoRoot : ¬(Reduplication.abhyasaOf bhu).hasTag .dhatu = true := by decide
    exact (BeforeVowel.apply_of_other_final hfinal).1 fun h => hnoRoot h.1
  have hsecond := BeforeVowel.apply_reshape_bhu hvowel hlit (some (Reduplication.abhyasaOf bhu))
  have htags : (v.form.reshaped {}).stem.tags = v.form.stem.tags :=
    (Strengthening.revalued_reshape {} v.form.stem v.form.suffix).tags
  rw [VerbForm.apply_beforeVowel, hkept]
  rw [← hstem] at hsecond hsounds
  exact BeforeVowel.body_state_of_apply (v := v.form.reshaped {}) (abhyasa_form_bhu hroot hlit)
    (by decide) hsounds ((bhuBefore_tags hroot v.suffix).trans htags.symm) (hfirst _) hsecond
    (recorded 4)

/-- **Bhū before a vowel of liṭ.** There is one leaf. -/
theorem sweep_bhu (hroot : v.root = bhu) (hlit : v.suffix.hasLakshana .liW = true)
    (hvowel : v.suffix.startsWith (Pratyahara.sounds .ac) = true) :
    Pipeline.sweep (Grammar.standardStages {} aciSet kuSet) v.state
      = [(v.form.withStem (bhuBefore v.suffix) (bhuBefore_tags hroot v.suffix)).state
          (recorded 6)] := by
  have hafter : ∀ b ∈ [bhu.vrddhi, bhu.guna, bhu.tasya (.agama BeforeVowel.vuk)],
      b.antya? ≠ some 'A' ∧ b.value ∉ VowelLoss.gamAdi
        ∧ LitE.verdict {} (Reduplication.abhyasaOf bhu) b = .inapplicable
        ∧ b.clean ∉ Velar.roots := by decide
  obtain ⟨hfinal, hlisted, hverdict, hclean⟩ := hafter _ (BeforeVowel.bhuBefore_mem v.suffix)
  let w := v.form.withStem (bhuBefore v.suffix) (bhuBefore_tags hroot v.suffix)
  have hkept : ∀ a, w.abhyasa = some a → LitE.verdict {} a w.stem = .inapplicable := by
    intro a ha
    rw [← Option.some.inj ((abhyasa_form_bhu hroot hlit).symm.trans ha)]
    exact hverdict
  have hloss : VowelLoss.body {} (w.state (recorded 5)) = [w.state (recorded 5)] :=
    VowelLoss.body_state_of_inapplicable hfinal hlisted hkept (recorded 5)
  have hvelar : Velar.body kuSet (w.state (recorded 6)) = [w.state (recorded 6)] :=
    Velar.body_state_of_clean hclean (recorded 6)
  rw [Grammar.standardStages, Pipeline.sweep_cons_of_singleton v.apply_reduplication,
    Pipeline.sweep_cons_of_singleton (VerbForm.apply_strengthening _),
    Pipeline.sweep_cons_of_singleton (VerbForm.apply_rt _),
    Pipeline.sweep_cons_of_singleton (apply_beforeVowel_bhu hroot hlit hvowel),
    Pipeline.sweep_cons_of_singleton ((VerbForm.apply_vowelLoss {} _).trans hloss),
    Pipeline.sweep_cons_of_singleton ((VerbForm.apply_velar _).trans hvelar)]
  rfl

end VerbStart

/-! ## What the derive command finds -/

/-- With limits that are no less than the bounds of the tree the search finds all leaves, in their
order. -/
theorem Grammar.derive_standard {c : Config} (hsteps : 11 ≤ c.limits.maxSteps)
    (hresults : 4 ≤ c.limits.maxResults) (s : State) :
    ((standard c).derive s).truncated = false
      ∧ ((standard c).derive s).derivations.map Derivation.state
        = Pipeline.sweep (standardStages c.gana aciSet kuSet) s := by
  have hscheduled := scheduledBy c.gana
  obtain ⟨hnodes, hleaves⟩ := tree_le c.gana s
  have hderive := Pipeline.derive_eq_of_finite hscheduled.subtree_eq (hnodes.trans hsteps)
    (hleaves.trans hresults)
  have hstates := hscheduled.map_state_leaves ⟨s, []⟩
  rw [derive]
  show (Pipeline.derive ⟨standardStages c.gana aciSet kuSet⟩ c.limits s).truncated = false
    ∧ (Pipeline.derive ⟨standardStages c.gana aciSet kuSet⟩ c.limits s).derivations.map
      Derivation.state = _
  rw [hderive]
  refine ⟨rfl, ?_⟩
  rw [List.map_map]
  exact hstates

namespace CommandLine.DeriveRequest

/-- The suffix has the marker, as taught or because it was asked for. -/
def isMarked (r : DeriveRequest) (m : Marker) : Bool :=
  decide (m ∈ (Upadesha.parse r.suffix .vibhakti).markers ∨ m ∈ r.markers)

/-- The suffix strengthens the stem before it. -/
def strengthens (r : DeriveRequest) : Bool :=
  !(r.isMarked .kit || r.isMarked .Nit)
    && (r.isMarked .Yit || r.isMarked .Rit || r.tags.contains .sarvadhatuka
      || r.tags.contains .ardhadhatuka)

/-- The suffix as the derivation starts with it. -/
def ending (r : DeriveRequest) : Term :=
  ((((Term.ofUpadesha (.parse r.suffix .vibhakti)).withTags Term.tinTags).withTags
    r.tags).withMarkers r.markers).withLakshana r.lakshana

variable {r : DeriveRequest}

theorem hasMarker_ending (r : DeriveRequest) (m : Marker) : r.ending.hasMarker m = r.isMarked m :=
  decide_eq_decide.mpr OrderedSet.mem_insertAll

theorem hasLakshana_ending {l : Lakshana} (h : l ∈ r.lakshana) : r.ending.hasLakshana l = true :=
  decide_eq_true (OrderedSet.mem_insertAll.mpr (Or.inr h))

theorem hasTag_ending {tag : Tag} (h : tag ∉ Term.tinTags) :
    r.ending.hasTag tag = r.tags.contains tag := by
  have hmem : tag ∈ r.ending.tags ↔ tag ∈ r.tags := by
    show tag ∈ ((∅ : OrderedSet Tag).insertAll Term.tinTags).insertAll r.tags ↔ _
    simp [OrderedSet.mem_insertAll, h]
  rw [Term.hasTag, List.contains_eq_mem]
  exact decide_eq_decide.mpr hmem

theorem startsWith_ending
    (h : (Upadesha.parse r.suffix .vibhakti).value.head?.any isVowelChar = true) :
    r.ending.startsWith (Pratyahara.sounds .ac) = true := by
  obtain ⟨c, hc, hvowel⟩ := (Option.any_eq_true ..).mp h
  refine (Option.any_eq_true ..).mpr ⟨c, hc, ?_⟩
  obtain ⟨σ, hσ, hvowel⟩ := (Option.any_eq_true ..).mp hvowel
  have hall : ∀ σ ∈ Sound.all, σ.isVowel = true →
      (Pratyahara.sounds .ac).contains σ.toChar = true := by decide
  rw [← Sound.toChar_of_ofChar? hσ]
  exact hall σ (Sound.mem_all σ) hvowel

theorem strengthens_ending (r : DeriveRequest) :
    Strengthening.strengthens r.ending = r.strengthens := by
  have hsarva : r.ending.hasTag .sarvadhatuka = r.tags.contains .sarvadhatuka :=
    hasTag_ending (by decide)
  have hardha : r.ending.hasTag .ardhadhatuka = r.tags.contains .ardhadhatuka :=
    hasTag_ending (by decide)
  simp [Strengthening.strengthens, strengthens, Term.anyMarker, Term.anyTag, hasMarker_ending,
    hsarva, hardha, Bool.or_assoc]

end CommandLine.DeriveRequest

theorem Upadesha.eq_of_parseStrict {raw : Text} {kind : UpadeshaKind} {u : Upadesha}
    (h : parseStrict raw kind = .ok u) : u = parse raw kind := by
  rw [parseStrict] at h
  split at h
  · simp at h
  · exact (Except.ok.inj h).symm

open CommandLine in
/-- **What the derive command finds for the root bhū before a vowel of liṭ.** There is one
derivation. Its stem is bhū with the augment vuk if the suffix does not strengthen it. If it does,
the stem has vṛddhi or guṇa and no augment. -/
theorem Program.derivations_bhu_in_lit {g : Grammar} {r : DeriveRequest} {start : State}
    (hg : Grammar.ofConfig {} = .ok g) (hroot : r.dhatu = "BU".toList) (hlit : .liW ∈ r.lakshana)
    (hstart : startState r = .ok start)
    (hvowel : (Upadesha.parse r.suffix .vibhakti).value.head?.any isVowelChar = true) :
    (g.derive start).truncated = false
      ∧ ∃ d stem, (g.derive start).derivations = [d] ∧ d.state.find? .anga = some (stem, 1)
        ∧ d.state.terms.map Term.value
          = ["ba".toList, stem.value, (Upadesha.parse r.suffix .vibhakti).value]
        ∧ (r.strengthens = false →
          stem.value = "BUv".toList ∧ stem.parts = [.agama "vu~k".toList])
        ∧ (r.strengthens = true →
          stem.value = (if r.isMarked .Yit || r.isMarked .Rit then "BO".toList else "Bo".toList)
            ∧ stem.parts = []) := by
  obtain ⟨-, rfl⟩ := Grammar.ofConfig_eq_ok_iff.mp hg
  obtain ⟨root, ending, hdhatu, hsuffix, rfl⟩ := startState_eq_ok hstart
  have hsounds := (Upadesha.sounds_of_parseStrict hsuffix).1
  obtain rfl := Upadesha.eq_of_parseStrict hdhatu
  obtain rfl := Upadesha.eq_of_parseStrict hsuffix
  let v : VerbStart := ⟨bhu, r.ending, rfl, rfl, by decide, Term.isEmpty_eq_false_iff.mpr hsounds⟩
  have habhyasa := v.abhyasa_form_bhu rfl (DeriveRequest.hasLakshana_ending hlit)
  have hsweep := v.sweep_bhu rfl (DeriveRequest.hasLakshana_ending hlit)
    (DeriveRequest.startsWith_ending hvowel)
  obtain ⟨htruncated, hstates⟩ := Grammar.derive_standard (c := {}) (by decide) (by decide) v.state
  rw [hsweep] at hstates
  obtain ⟨d, hd, hstate⟩ := List.map_eq_singleton_iff.mp hstates
  rw [hroot]
  refine ⟨htruncated, d, BeforeVowel.bhuBefore r.ending, hd, ?_, ?_, ?_, ?_⟩
  · have hplace : v.form.place = 1 := by rw [VerbForm.place, habhyasa, Option.toList_some,
      List.length_singleton]
    rw [hstate, VerbForm.find?_anga]
    exact congrArg (fun i => some (BeforeVowel.bhuBefore r.ending, i)) hplace
  · rw [hstate]
    show (v.form.abhyasa.toList ++ [BeforeVowel.bhuBefore r.ending, r.ending]).map Term.value = _
    rw [habhyasa]
    rfl
  · intro hkept
    rw [← r.strengthens_ending] at hkept
    rw [BeforeVowel.bhuBefore_of_kept hkept]
    decide
  · intro hstrengthens
    rw [← r.strengthens_ending] at hstrengthens
    have hmarked : r.ending.anyMarker [.Yit, .Rit] = (r.isMarked .Yit || r.isMarked .Rit) := by
      simp [Term.anyMarker, DeriveRequest.hasMarker_ending]
    rw [BeforeVowel.bhuBefore_of_strengthened hstrengthens, hmarked]
    cases r.isMarked .Yit || r.isMarked .Rit with
    | true => decide
    | false => decide

open CommandLine in
/-- Vuk is found before atus, which is kit, and vṛddhi before ṇal. -/
theorem Program.derivations_bhu_in_lit_atus_nal :
    let atus : DeriveRequest := { dhatu := "BU".toList, suffix := "atus".toList, markers := [.kit] }
    let nal : DeriveRequest := { dhatu := "BU".toList, suffix := "Ral".toList }
    ∃ g start start', Grammar.ofConfig {} = .ok g ∧ startState atus = .ok start
      ∧ startState nal = .ok start'
      ∧ (∃ d stem, (g.derive start).derivations = [d] ∧ d.state.find? .anga = some (stem, 1)
        ∧ stem.value = "BUv".toList ∧ stem.parts = [.agama "vu~k".toList])
      ∧ ∃ d stem, (g.derive start').derivations = [d] ∧ d.state.find? .anga = some (stem, 1)
        ∧ stem.value = "BO".toList ∧ stem.parts = [] := by
  intro atus nal
  have hg := Grammar.ofConfig_of_accepted (show Config.validate {} = .ok () by decide)
  obtain ⟨start, hstart⟩ : ∃ start, startState atus = .ok start := ⟨_, rfl⟩
  obtain ⟨start', hstart'⟩ : ∃ start, startState nal = .ok start := ⟨_, rfl⟩
  obtain ⟨-, d, stem, hd, hstem, -, hkept, -⟩ :=
    derivations_bhu_in_lit hg rfl (by decide) hstart (by decide)
  obtain ⟨-, d', stem', hd', hstem', -, -, hstrengthened⟩ :=
    derivations_bhu_in_lit hg rfl (by decide) hstart' (by decide)
  exact ⟨_, start, start', hg, hstart, hstart', ⟨d, stem, hd, hstem, hkept (by decide)⟩,
    d', stem', hd', hstem', hstrengthened (by decide)⟩

open CommandLine in
/-- Before ṇal the stem is `BO`, not the one with vuk. -/
theorem Program.derivations_bhu_in_lit_ne_nal :
    let nal : DeriveRequest := { dhatu := "BU".toList, suffix := "Ral".toList }
    ∃ g start, Grammar.ofConfig {} = .ok g ∧ startState nal = .ok start ∧ .liW ∈ nal.lakshana
      ∧ (Upadesha.parse nal.suffix .vibhakti).value.head?.any isVowelChar = true
      ∧ (g.derive start).derivations.map (fun d => d.state.text) = ["ba + BO + a".toList]
      ∧ ∀ d ∈ (g.derive start).derivations,
        (d.state.find? .anga).map (·.1.value) = some "BO".toList := by
  intro nal
  have hg := Grammar.ofConfig_of_accepted (show Config.validate {} = .ok () by decide)
  obtain ⟨start, hstart⟩ : ∃ start, startState nal = .ok start := ⟨_, rfl⟩
  refine ⟨_, start, hg, hstart, by decide, by decide, ?_⟩
  rw [← Except.ok.inj hstart]
  decide +kernel

end Vyakarana
