import Vyakarana.Proofs.NearestMember
import Vyakarana.Proofs.Priority

/-!
# What the ku series makes of a window

Each rule of the ku series asks for an abhyāsa to the left and for one root, by the form in which it
was taught, so at most one of them applies to a window. It looks for its sounds in what the root has
become by then. The last of them gives way to the nearest velar: `G` for `h`, `k` for `c`, `g` for
`j`. Only the rule for ci, 7.3.58, leaves it open.

* `Velar.apply_of_appliesTo` — the one rule that applies decides
* `Velar.lastGivesWay_alTasya` — the substitution
* `Velar.apply_gives_velars` — the outcomes, by the window
-/

namespace Vyakarana

open Grammar (kuSet)

variable {r r' : WindowRule} {w : Window} {root : Text} {ls : List Lakshana}

/-! ## Neighbours -/

namespace Window

/-- The window has a term of the category to the left. -/
def After (w : Window) (tag : Tag) : Prop := ∃ t, w.left = some t ∧ t.hasTag tag = true

/-- The window has a term with one of the lakṣaṇas to the right. -/
def Before (w : Window) (ls : List Lakshana) : Prop :=
  ∃ t, w.right = some t ∧ t.anyLakshana ls = true

theorem after_iff {tag : Tag} : w.After tag ↔ Context.hasTag tag w.left = true := by
  simp [After, Context.hasTag, Option.any_eq_true]

theorem before_iff : w.Before ls ↔ Context.anyLakshana ls w.right = true := by
  simp [Before, Context.anyLakshana, Option.any_eq_true]

end Window

namespace Velar

/-! ## The rule that applies -/

/-- The roots that the rules name, in the order of the rules. -/
def roots : List Text := ["han", "hi", "ji", "ci"].map String.toList

/-- Each of the rules asks for an abhyāsa and for one root. -/
theorem exists_root (hr : r ∈ rules) :
    ∃ root ∈ roots, r.left = some (.hasTag .abhyasa) ∧ r.cur = some (.cleanIn [root]) := by
  simp only [rules, List.mem_cons, List.not_mem_nil, or_false] at hr
  rcases hr with rfl | rfl | rfl | rfl
  · exact ⟨"han".toList, by decide, rfl, rfl⟩
  · exact ⟨"hi".toList, by decide, rfl, rfl⟩
  · exact ⟨"ji".toList, by decide, rfl, rfl⟩
  · exact ⟨"ci".toList, by decide, rfl, rfl⟩

theorem appliesTo_iff (hleft : r.left = some (.hasTag .abhyasa))
    (hcur : r.cur = some (.cleanIn [root])) :
    r.appliesTo w = true
      ↔ w.After .abhyasa ∧ w.cur.clean = root ∧ WindowRule.holds r.right w.right = true := by
  rw [WindowRule.appliesTo, hleft, hcur, Window.after_iff]
  simp [WindowRule.holds, Context.cleanIn, and_assoc]

/-- The root tells which rule applies. -/
theorem id_of_appliesTo (hr : r ∈ kuSet.rules) (h : r.appliesTo w = true) :
    r.id = 5 + roots.idxOf w.cur.clean := by
  simp only [kuSet, rules, RuleSet.number, List.mem_cons, List.not_mem_nil, or_false] at hr
  rcases hr with rfl | rfl | rfl | rfl
  all_goals
    rw [((appliesTo_iff rfl rfl).mp h).2.1]
    decide

/-- **The one rule that applies decides.** -/
theorem apply_of_appliesTo (hr : r ∈ kuSet.rules) (h : r.appliesTo w = true) :
    kuSet.apply w = r.apply w := by
  have hids : (kuSet.rules.map WindowRule.id).Nodup := by decide
  refine RuleSet.apply_of_only hr fun r' hr' h' => ?_
  exact List.inj_on_of_nodup_map hids hr' hr
    ((id_of_appliesTo hr' h').trans (id_of_appliesTo hr h).symm)

/-- Every rule asks for an abhyāsa to the left. -/
theorem apply_of_not_after (h : ¬w.After .abhyasa) : kuSet.apply w = [w] := by
  refine RuleSet.apply_of_not_applies (m := 5) rfl fun r hr => ?_
  obtain ⟨root, -, hleft, hcur⟩ := exists_root hr
  exact Bool.eq_false_iff.mpr fun happlies => h ((appliesTo_iff hleft hcur).mp happlies).1

/-- Every rule asks for one of the roots. -/
theorem apply_of_clean (h : w.cur.clean ∉ roots) : kuSet.apply w = [w] := by
  refine RuleSet.apply_of_not_applies (m := 5) rfl fun r hr => ?_
  obtain ⟨root, hroot, hleft, hcur⟩ := exists_root hr
  refine Bool.eq_false_iff.mpr fun happlies => h ?_
  rw [((appliesTo_iff hleft hcur).mp happlies).2.1]
  exact hroot

/-! ## The substitution -/

/-- The sounds of a class, each with the velar that is nearest to it. -/
def velarsFor (targets : SoundClass) : List (Char × Char) :=
  targets.sounds.filterMap fun σ =>
    (Varga.ku.sounds.closest σ).map fun ρ => (σ.toChar, ρ.toChar)

/-- The last of the sounds that are paired with others gives way to the one that it is paired
with, and nothing else changes. -/
def LastGivesWay (pairs : List (Char × Char)) (value value' : Text) : Prop :=
  ∃ before c d after, (c, d) ∈ pairs ∧ value = before ++ c :: after
    ∧ value' = before ++ d :: after ∧ ∀ p ∈ pairs, p.1 ∉ after

theorem velarsFor_palatals : velarsFor palatals = [('c', 'k'), ('j', 'g')] := by decide

theorem contains_of_mem_velarsFor {targets : SoundClass} {p : Char × Char}
    (h : p ∈ velarsFor targets) : targets.contains p.1 = true := by
  obtain ⟨σ, hσ, hpair⟩ := List.mem_filterMap.mp h
  obtain ⟨ρ, -, rfl⟩ := Option.map_eq_some_iff.mp hpair
  exact List.any_eq_true.mpr ⟨σ, hσ, beq_self_eq_true _⟩

/-- There is a nearest velar for every sound. -/
theorem exists_mem_velarsFor {targets : SoundClass} {c : Char} (h : targets.contains c = true) :
    ∃ d, (c, d) ∈ velarsFor targets := by
  obtain ⟨σ, hσ, hchar⟩ := List.any_eq_true.mp h
  obtain rfl := beq_iff_eq.mp hchar
  obtain ⟨ρ, hρ⟩ : ∃ ρ, Varga.ku.sounds.closest σ = some ρ := by
    rw [← Option.ne_none_iff_exists', ne_eq, SoundClass.closest_eq_none_iff]
    decide
  exact ⟨ρ.toChar, List.mem_filterMap.mpr ⟨σ, hσ, by rw [hρ, Option.map_some]⟩⟩

theorem lastGivesWay_alTasya {t : Term} {targets : SoundClass}
    (h : ∃ p ∈ velarsFor targets, p.1 ∈ t.value) :
    LastGivesWay (velarsFor targets) t.value (t.alTasya targets Varga.ku.sounds).value := by
  obtain ⟨p, hp, hmem⟩ := h
  have hsound : ∃ c ∈ t.value, targets.contains c = true :=
    ⟨p.1, hmem, contains_of_mem_velarsFor hp⟩
  have hku : Varga.ku.sounds.sounds ≠ [] := by decide
  obtain ⟨before, σ, after, ρ, hvalue, hσ, hlast, hρ, hterm⟩ :=
    Term.exists_alTasya_eq hsound hku
  refine ⟨before, σ.toChar, ρ.toChar, after, ?_, hvalue, by rw [hterm]; rfl, ?_⟩
  · exact List.mem_filterMap.mpr ⟨σ, hσ, by rw [hρ, Option.map_some]⟩
  · intro q hq hafter
    exact absurd (hlast q.1 hafter) (by simp [contains_of_mem_velarsFor hq])

theorem alTasya_of_forall_notMem {t : Term} {targets : SoundClass}
    (h : ∀ p ∈ velarsFor targets, p.1 ∉ t.value) : t.alTasya targets Varga.ku.sounds = t := by
  refine Term.alTasya_of_forall_contains fun c hc => Bool.eq_false_iff.mpr fun hcontains => ?_
  obtain ⟨d, hd⟩ := exists_mem_velarsFor hcontains
  exact h (c, d) hd hc

theorem LastGivesWay.ne {pairs : List (Char × Char)} {value value' : Text}
    (h : LastGivesWay pairs value value') (hpairs : ∀ p ∈ pairs, p.2 ≠ p.1) : value' ≠ value := by
  obtain ⟨before, c, d, after, hmem, rfl, rfl, -⟩ := h
  simpa using hpairs (c, d) hmem

theorem LastGivesWay.length_eq {pairs : List (Char × Char)} {value value' : Text}
    (h : LastGivesWay pairs value value') : value'.length = value.length := by
  obtain ⟨before, c, d, after, -, rfl, rfl, -⟩ := h
  simp

/-- If no sound is its own velar, the substitution has an effect exactly on the terms that have one
of the sounds. -/
theorem value_alTasya_ne_iff {t : Term} {targets : SoundClass}
    (htargets : ∀ p ∈ velarsFor targets, p.2 ≠ p.1) :
    (t.alTasya targets Varga.ku.sounds).value ≠ t.value
      ↔ ∃ p ∈ velarsFor targets, p.1 ∈ t.value := by
  constructor
  · intro hne
    by_contra hnone
    refine hne ?_
    rw [alTasya_of_forall_notMem fun p hp hmem => hnone ⟨p, hp, hmem⟩]
  · exact fun hmem => (lastGivesWay_alTasya hmem).ne htargets

theorem value_alTasya_cases (t : Term) (targets : SoundClass) :
    (t.alTasya targets Varga.ku.sounds).value = t.value
      ∨ LastGivesWay (velarsFor targets) t.value (t.alTasya targets Varga.ku.sounds).value := by
  by_cases hmem : ∃ p ∈ velarsFor targets, p.1 ∈ t.value
  · exact Or.inr (lastGivesWay_alTasya hmem)
  · exact Or.inl (by rw [alTasya_of_forall_notMem fun p hp h => hmem ⟨p, hp, h⟩])

/-! ## The outcomes -/

theorem exists_palatal_iff {value : Text} :
    (∃ p ∈ velarsFor palatals, p.1 ∈ value) ↔ 'c' ∈ value ∨ 'j' ∈ value := by
  simp [velarsFor_palatals]

/-- The sounds that the rules look for in a root, each with the velar that takes its place. -/
def velarsOf (root : Text) : List (Char × Char) :=
  if ["han".toList, "hi".toList].contains root then [('h', 'G')]
  else if ["ji".toList, "ci".toList].contains root then [('c', 'k'), ('j', 'g')]
  else []

/-- A rule of the series that leaves nothing open applies. -/
def Mandated (w : Window) : Prop :=
  w.After .abhyasa ∧ (w.cur.clean = "han".toList
    ∨ w.cur.clean = "hi".toList ∧ ¬w.Before [.caN]
    ∨ w.cur.clean = "ji".toList ∧ w.Before [.san, .liW])

/-- The rule of the series that leaves it open applies. -/
def LeftOpen (w : Window) : Prop :=
  w.After .abhyasa ∧ w.cur.clean = "ci".toList ∧ w.Before [.san, .liW]

theorem exists_rule_of_mandated (h : Mandated w) :
    ∃ r ∈ kuSet.rules, r.appliesTo w = true := by
  obtain ⟨hafter, hroot⟩ := h
  rcases hroot with hclean | ⟨hclean, hright⟩ | ⟨hclean, hright⟩
  · exact ⟨{ abhyasacCa with id := 5 }, by simp [kuSet, rules, RuleSet.number],
      (appliesTo_iff rfl rfl).mpr ⟨hafter, hclean, rfl⟩⟩
  · refine ⟨{ herAcani with id := 6 }, by simp [kuSet, rules, RuleSet.number],
      (appliesTo_iff rfl rfl).mpr ⟨hafter, hclean, ?_⟩⟩
    rw [Window.before_iff] at hright
    simpa [herAcani, WindowRule.holds, Context.not] using hright
  · exact ⟨{ sanlitorJeh with id := 7 }, by simp [kuSet, rules, RuleSet.number],
      (appliesTo_iff rfl rfl).mpr ⟨hafter, hclean, Window.before_iff.mp hright⟩⟩

theorem not_leftOpen_of_mandated (h : Mandated w) : ¬LeftOpen w := by
  rintro ⟨-, hci, -⟩
  obtain ⟨-, hclean | ⟨hclean, -⟩ | ⟨hclean, -⟩⟩ := h
  all_goals exact absurd (hclean.symm.trans hci) (by decide)

/-- A rule that applies substitutes a velar, or it is 7.3.58. -/
theorem of_appliesTo (hr : r ∈ kuSet.rules) (h : r.appliesTo w = true) :
    (∃ targets, r.decide w = .substitute (toKu targets)
        ∧ velarsFor targets = velarsOf w.cur.clean)
      ∨ LeftOpen w := by
  simp only [kuSet, rules, RuleSet.number, List.mem_cons, List.not_mem_nil, or_false] at hr
  rcases hr with rfl | rfl | rfl | rfl
  · obtain ⟨-, hclean, -⟩ := (appliesTo_iff rfl rfl).mp h
    exact Or.inl ⟨breath, rfl, by rw [hclean]; decide⟩
  · obtain ⟨-, hclean, -⟩ := (appliesTo_iff rfl rfl).mp h
    exact Or.inl ⟨breath, rfl, by rw [hclean]; decide⟩
  · obtain ⟨-, hclean, -⟩ := (appliesTo_iff rfl rfl).mp h
    exact Or.inl ⟨palatals, rfl, by rw [hclean]; decide⟩
  · obtain ⟨hafter, hclean, hright⟩ := (appliesTo_iff rfl rfl).mp h
    exact Or.inr ⟨hafter, hclean, Window.before_iff.mpr hright⟩

theorem apply_cases (w : Window) : kuSet.apply w = [w]
    ∨ (∃ targets, velarsFor targets = velarsOf w.cur.clean
        ∧ kuSet.apply w = [w.withCur (w.cur.alTasya targets Varga.ku.sounds)])
    ∨ LeftOpen w := by
  rcases kuSet.apply_cases w with hpass | ⟨r, hr, happlies, hdecides⟩
  · exact Or.inl hpass
  · rcases of_appliesTo hr happlies with ⟨targets, hsub, hvelars⟩ | hopen
    · rw [hsub] at hdecides
      exact Or.inr (Or.inl ⟨targets, hvelars, hdecides⟩)
    · exact Or.inr (Or.inr hopen)

/-- What is mandated and has a sound to work on is done. -/
theorem apply_of_mandated (h : Mandated w)
    (hmem : ∃ p ∈ velarsOf w.cur.clean, p.1 ∈ w.cur.value) :
    ∃ w', kuSet.apply w = [w'] ∧ LastGivesWay (velarsOf w.cur.clean) w.cur.value w'.cur.value := by
  obtain ⟨r, hr, happlies⟩ := exists_rule_of_mandated h
  obtain ⟨targets, hsub, hvelars⟩ := (of_appliesTo hr happlies).resolve_right
    (not_leftOpen_of_mandated h)
  refine ⟨w.withCur (w.cur.alTasya targets Varga.ku.sounds), ?_, ?_⟩
  · rw [apply_of_appliesTo hr happlies, WindowRule.apply, if_pos happlies, hsub]
    rfl
  · rw [← hvelars] at hmem ⊢
    exact lastGivesWay_alTasya hmem

/-- What is left open is offered, if it was not declined and has a sound to work on. -/
theorem apply_of_leftOpen (h : LeftOpen w) : kuSet.apply w
    = if 8 ∉ w.cur.declined ∧ ('c' ∈ w.cur.value ∨ 'j' ∈ w.cur.value) then
        [w.decline 8, w.withCur (w.cur.alTasya palatals Varga.ku.sounds)]
      else [w.decline 8] := by
  obtain ⟨hafter, hclean, hright⟩ := h
  have happlies : WindowRule.appliesTo { vibhasaCeh with id := 8 } w = true :=
    (appliesTo_iff rfl rfl).mpr ⟨hafter, hclean, Window.before_iff.mp hright⟩
  rw [apply_of_appliesTo (by simp [kuSet, rules, RuleSet.number]) happlies, WindowRule.apply,
    if_pos happlies]
  refine (WindowRule.outcomes_optional_eq 8 w (toKu palatals)).trans (if_congr ?_ rfl rfl)
  exact and_congr_right fun _ => (value_alTasya_ne_iff (by decide)).trans exists_palatal_iff

/-- In an outcome at most one sound has given way to a velar. -/
theorem value_of_mem_apply {w' : Window} (h : w' ∈ kuSet.apply w) :
    w'.cur.value = w.cur.value
      ∨ LastGivesWay (velarsOf w.cur.clean) w.cur.value w'.cur.value := by
  rcases apply_cases w with hpass | ⟨targets, hvelars, hdone⟩ | hopen
  · rw [hpass, List.mem_singleton] at h
    rw [h]
    exact Or.inl rfl
  · rw [hdone, List.mem_singleton] at h
    rw [h, ← hvelars]
    exact value_alTasya_cases w.cur targets
  · have hmem : w' = w.decline 8 ∨ w' = w.withCur (w.cur.alTasya palatals Varga.ku.sounds) := by
      rw [apply_of_leftOpen hopen] at h
      split at h
      · simpa using h
      · exact Or.inl (List.mem_singleton.mp h)
    rcases hmem with rfl | rfl
    · exact Or.inl rfl
    · rw [hopen.2.1]
      exact value_alTasya_cases w.cur palatals

theorem length_value_of_mem_apply {w' : Window} (h : w' ∈ kuSet.apply w) :
    w'.cur.value.length = w.cur.value.length := by
  rcases value_of_mem_apply h with hsame | hvelar
  · rw [hsame]
  · exact hvelar.length_eq

theorem length_apply_eq_two_iff : (kuSet.apply w).length = 2
    ↔ LeftOpen w ∧ 8 ∉ w.cur.declined ∧ ('c' ∈ w.cur.value ∨ 'j' ∈ w.cur.value) := by
  constructor
  · intro hlen
    rcases apply_cases w with hpass | ⟨targets, -, hdone⟩ | hopen
    · simp [hpass] at hlen
    · simp [hdone] at hlen
    · rw [apply_of_leftOpen hopen] at hlen
      split at hlen
      · next hoffered => exact ⟨hopen, hoffered⟩
      · simp at hlen
  · rintro ⟨hopen, hoffered⟩
    rw [apply_of_leftOpen hopen, if_pos hoffered]
    rfl

/-- **What the ku series makes of a window.** There are two outcomes exactly if the root ci stands
between an abhyāsa and a term of san or liṭ, has a `c` or `j`, and did not decline 7.3.58. The first
of the two is the window on which it is declined; in the second the velar has been taken. In every
outcome the value is as long as before, and it differs from what it was in one sound at most: the
last `h` of han or hi, which is `G` then, or the last palatal of ji or ci, which is `k` for `c` and
`g` for `j`. Where the series leaves nothing open, a root that has such a sound takes the velar.
Without an abhyāsa to the left the window stays. -/
theorem apply_gives_velars (w : Window) :
    RuleSet.build BeforeVowel.rules = .ok Grammar.aciSet
    ∧ Grammar.aciSet.buildAfter rules = .ok kuSet
    ∧ ((kuSet.apply w).length = 2
      ↔ w.After .abhyasa ∧ w.cur.clean = "ci".toList ∧ w.Before [.san, .liW]
        ∧ 8 ∉ w.cur.declined ∧ ('c' ∈ w.cur.value ∨ 'j' ∈ w.cur.value))
    ∧ ((kuSet.apply w).length = 2 → ∃ accepted, kuSet.apply w = [w.decline 8, accepted]
        ∧ LastGivesWay [('c', 'k'), ('j', 'g')] w.cur.value accepted.cur.value)
    ∧ (∀ w' ∈ kuSet.apply w, w'.cur.value.length = w.cur.value.length
        ∧ (w'.cur.value = w.cur.value
          ∨ LastGivesWay (velarsOf w.cur.clean) w.cur.value w'.cur.value))
    ∧ (Mandated w → (∃ p ∈ velarsOf w.cur.clean, p.1 ∈ w.cur.value) → ∃ w', kuSet.apply w = [w']
        ∧ LastGivesWay (velarsOf w.cur.clean) w.cur.value w'.cur.value)
    ∧ (¬w.After .abhyasa → kuSet.apply w = [w]) := by
  refine ⟨rfl, rfl, ?_, ?_, ?_, apply_of_mandated, apply_of_not_after⟩
  · rw [length_apply_eq_two_iff, LeftOpen, and_assoc, and_assoc]
  · intro hlen
    obtain ⟨hopen, hoffered⟩ := length_apply_eq_two_iff.mp hlen
    refine ⟨w.withCur (w.cur.alTasya palatals Varga.ku.sounds), ?_, ?_⟩
    · rw [apply_of_leftOpen hopen, if_pos hoffered]
    · rw [← velarsFor_palatals]
      exact lastGivesWay_alTasya (exists_palatal_iff.mpr hoffered.2)
  · intro w' hw'
    exact ⟨length_value_of_mem_apply hw', value_of_mem_apply hw'⟩

/-- The roots ci and han in liṭ, the first with vṛddhi: `cE` may become `kE`, and is not offered the
choice again; `han` becomes `Gan`; without its abhyāsa the root stays. -/
theorem apply_gives_velars_ci :
    let strong : Window := RuleSet.ciBeforeLit.withCur (Term.dhatu "ci".toList).vrddhi
    let han : Window := RuleSet.ciBeforeLit.withCur (.dhatu "han".toList)
    let alone : Window := { strong with left := none }
    (kuSet.apply strong).length = 2
      ∧ (∃ accepted, kuSet.apply strong = [strong.decline 8, accepted]
        ∧ LastGivesWay [('c', 'k'), ('j', 'g')] "cE".toList accepted.cur.value)
      ∧ (kuSet.apply (strong.decline 8)).length ≠ 2
      ∧ Mandated han ∧ (∃ w', kuSet.apply han = [w']
        ∧ LastGivesWay [('h', 'G')] "han".toList w'.cur.value)
      ∧ kuSet.apply alone = [alone] := by
  intro strong han alone
  have hafter : strong.After .abhyasa := ⟨_, rfl, by decide⟩
  have hbefore : strong.Before [.san, .liW] := ⟨_, rfl, by decide⟩
  have hmandated : Mandated han := ⟨⟨_, rfl, by decide⟩, Or.inl (by decide)⟩
  have hh : ∃ p ∈ velarsOf han.cur.clean, p.1 ∈ han.cur.value := by decide
  have halone : ¬alone.After .abhyasa := by
    rintro ⟨_, ⟨⟩, -⟩
  obtain ⟨-, -, hiff, hpair, -⟩ := apply_gives_velars strong
  have htwo : (kuSet.apply strong).length = 2 :=
    hiff.mpr ⟨hafter, by decide, hbefore, by decide, by decide⟩
  obtain ⟨-, -, hagain, -⟩ := apply_gives_velars (strong.decline 8)
  have hdeclined : 8 ∈ (strong.decline 8).cur.declined := by decide
  obtain ⟨-, -, -, -, -, hdue, -⟩ := apply_gives_velars han
  obtain ⟨-, -, -, -, -, -, hstays⟩ := apply_gives_velars alone
  exact ⟨htwo, hpair htwo, fun h => (hagain.mp h).2.2.2.1 hdeclined, hmandated,
    hdue hmandated hh, hstays halone⟩

end Velar

end Vyakarana
