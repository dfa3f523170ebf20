import Vyakarana.Proofs.VowelRules

/-!
# Windows that the rules before a vowel have settled

The rules before a vowel work on a final of the i or the u kind. One of them does not look at the
final: 6.4.81 asks for the root iṇ as it is taught, and puts `y` in the place of whatever sound the
root ends in by then. Once one of the rules has changed a window, none of them finds anything to do
in it.

* `BeforeVowel.apply_of_endsIn_eq_false` — finals of other kinds
* `BeforeVowel.Settled` — the windows that the rules leave
* `BeforeVowel.apply_settles` — the rules need not be applied twice
-/

namespace Vyakarana

/-- A class contains the characters that it is written with. -/
theorem SoundClass.contains_iff_mem_text {cls : SoundClass} {c : Char} :
    cls.contains c = true ↔ c ∈ cls.text := by
  simp [contains, text]

namespace BeforeVowel

open Grammar (aciSet)

variable {a b : Term} {c : Char} {w : Window}

/-! ## Finals -/

theorem endsIn_iOrU_of_anyI (h : a.endsIn anyI = true) : a.endsIn iOrU = true := by
  obtain ⟨c, hc, hmem⟩ := (Option.any_eq_true ..).mp h
  exact (Option.any_eq_true ..).mpr ⟨c, hc, iOrU_contains_of_anyI hmem⟩

/-- The sounds of the i and the u kind are these four. -/
theorem endsIn_iOrU_iff : a.endsIn iOrU = true
    ↔ a.value.getLast? ∈ [some 'i', some 'I', some 'u', some 'U'] := by
  have htext : iOrU.text = ['i', 'I', 'u', 'U'] := by decide
  rw [Term.endsIn, Option.any_eq_true, Term.antya?]
  simp only [SoundClass.contains_iff_mem_text, htext]
  cases a.value.getLast? with
  | none => simp
  | some c => simp

theorem antya?_isSome_of_endsIn {cls : SoundClass} (h : a.endsIn cls = true) :
    a.antya?.isSome = true := by
  obtain ⟨c, hc, -⟩ := (Option.any_eq_true ..).mp h
  simp [hc]

theorem endsIn_eq_false_of_antya? {cls : SoundClass} (h : a.antya? = some c)
    (hc : cls.contains c = false) : a.endsIn cls = false := by
  rw [Term.endsIn, h, Option.any_some, hc]

/-- The semivowel for a final of the i kind is `y`. -/
theorem antya?_alTasya (h : a.endsIn anyI = true) :
    (a.alTasya anyI (Pratyahara.sounds .yaR)).antya? = some 'y' := by
  obtain ⟨c, hc, hmem⟩ := (Option.any_eq_true ..).mp h
  obtain ⟨before, hvalue⟩ := List.getLast?_eq_some_iff.mp hc
  have hnearest : ((Sound.ofChar? c).bind (Pratyahara.sounds .yaR).closest) = some .y := by
    obtain ⟨σ, hσ, hchar⟩ := List.any_eq_true.mp hmem
    have hall : ∀ σ ∈ anyI.sounds, (Pratyahara.sounds .yaR).closest σ = some .y := by decide
    rw [← beq_iff_eq.mp hchar, Sound.ofChar?_toChar]
    exact hall σ hσ
  rw [Term.alTasya, hvalue, Term.splitLast_concat hmem]
  simp [hnearest, Term.withValue, Term.antya?, Sound.toChar]

/-! ## Finals of other kinds -/

/-- A window whose term ends in a sound of another kind is left as it is, but for the root iṇ. -/
theorem apply_of_endsIn_eq_false (h : w.cur.endsIn iOrU = false) : aciSet.apply w
    = if inoYan.appliesTo w = true then [w.withCur (w.cur.setAntya ['y'])] else [w] := by
  obtain ⟨b, hb, happly⟩ := exists_rewritten w
  rw [happly]
  cases hb with
  | same hino =>
    by_cases happlies : inoYan.appliesTo w = true
    · rw [if_pos happlies, ← apply_inoYan happlies, WindowRule.apply_of_not_changes hino]
      rfl
    · rw [if_neg happlies]
      rfl
  | iyan hends => exact absurd hends (by simp [h])
  | uvan hends => exact absurd hends (by simp [h])
  | ino happlies => rw [if_pos happlies]
  | yan hends => exact absurd (endsIn_iOrU_of_anyI hends) (by simp [h])
  | vuk hclean hvalue =>
    have hends : w.cur.endsIn iOrU = true := by
      rw [Term.endsIn, Term.antya?, hvalue]
      decide
    exact absurd hends (by simp [h])

/-- **What does not end in `i` or `u`, short or long, stays as it is before a vowel,** but for the
root iṇ. That one takes `y` in the place of its final, whatever strengthening has made of it. -/
theorem apply_of_other_final (h : w.cur.value.getLast? ∉ [some 'i', some 'I', some 'u', some 'U']) :
    let isIn := w.cur.hasTag .dhatu = true ∧ w.cur.clean = ['i'] ∧ w.cur.hasMarker .Rit = true
      ∧ vowelFollows w.right = true
    (¬isIn → aciSet.apply w = [w])
      ∧ (isIn → aciSet.apply w = [w.withCur (w.cur.setAntya ['y'])]) := by
  intro isIn
  have hfinal : w.cur.endsIn iOrU = false := by
    rw [Bool.eq_false_iff, ne_eq, endsIn_iOrU_iff]
    exact h
  rw [apply_of_endsIn_eq_false hfinal]
  constructor
  · intro hother
    exact if_neg (mt appliesTo_inoYan_iff.mp hother)
  · intro hisIn
    exact if_pos (appliesTo_inoYan_iff.mpr hisIn)

/-- The root as it is taught before ṇal, with vṛddhi. -/
def strengthenedIn : Window where
  left := none
  cur := (Term.dhatu "i\\R".toList).vrddhi
  right := some (.vibhakti "Ral".toList)

/-- The root śri with guṇa stays, and so does the root iṇ before a consonant. Before a vowel that one
takes `y`. -/
theorem apply_of_other_final_sre :
    let sre : Window := strengthenedIn.withCur (Term.dhatu "Sri".toList).guna
    let ina : Window := { strengthenedIn with right := some (.pratyaya "ta".toList) }
    let withY : Window := strengthenedIn.withCur (strengthenedIn.cur.setAntya ['y'])
    sre.cur.value = "Sre".toList ∧ aciSet.apply sre = [sre]
      ∧ ina.cur.value = "E".toList ∧ aciSet.apply ina = [ina]
      ∧ aciSet.apply strengthenedIn = [withY] :=
  ⟨by decide, (apply_of_other_final (by decide)).1 (by decide),
    by decide, (apply_of_other_final (by decide)).1 (by decide),
    (apply_of_other_final (by decide)).2 (by decide)⟩

/-- With vṛddhi the root iṇ ends in `E`, and all the same it becomes `y`. -/
theorem apply_strengthenedIn_ne :
    strengthenedIn.cur.value = "E".toList
      ∧ strengthenedIn.cur.value.getLast? ∉ [some 'i', some 'I', some 'u', some 'U']
      ∧ (aciSet.apply strengthenedIn).map (·.cur.value) = ["y".toList]
      ∧ aciSet.apply strengthenedIn ≠ [strengthenedIn] := by
  decide

/-! ## Settled windows -/

/-- The rules find nothing to do: the final is of another kind, and it is `y` where 6.4.81 would put
one. -/
structure Settled (w : Window) : Prop where
  final : w.cur.endsIn iOrU = false
  ino : inoYan.appliesTo w = true → w.cur.antya? = some 'y'

theorem apply_of_settled (h : Settled w) : aciSet.apply w = [w] := by
  rw [apply_of_endsIn_eq_false h.final]
  by_cases happlies : inoYan.appliesTo w = true
  · rw [if_pos happlies, Term.setAntya_of_antya? (h.ino happlies)]
    rfl
  · rw [if_neg happlies]

/-- With a final `y` any window is settled. -/
theorem settled_of_antya? (h : w.cur.antya? = some 'y') : Settled w where
  final := endsIn_eq_false_of_antya? h (by decide)
  ino _ := h

theorem appliesTo_inoYan_setAntya (replacement : Text) :
    inoYan.appliesTo (w.withCur (w.cur.setAntya replacement)) = inoYan.appliesTo w := by
  rw [Term.revalued_setAntya w.cur replacement]
  rfl

/-- Where 6.4.81 finds nothing to change, it does not apply to a final of the i or the u kind. -/
theorem not_appliesTo_inoYan (hends : w.cur.endsIn iOrU = true) (h : ¬inoYan.Changes w) :
    ¬inoYan.appliesTo w = true := by
  intro happlies
  have hsame : [w.withCur (w.cur.setAntya ([] ++ ['y']))] = [w] :=
    (apply_inoYan happlies).symm.trans (WindowRule.apply_of_not_changes h)
  have hy := Term.antya?_setAntya (antya?_isSome_of_endsIn hends) [] 'y'
  have hcur : w.cur.setAntya ([] ++ ['y']) = w.cur := congrArg Window.cur (List.cons.inj hsame).1
  rw [hcur] at hy
  rw [endsIn_eq_false_of_antya? hy (by decide)] at hends
  simp at hends

/-- A window that one of the rules has changed is settled. -/
theorem settled_of_rewritten (hb : Rewritten w b) (hne : b ≠ w.cur) : Settled (w.withCur b) := by
  cases hb with
  | same => exact absurd rfl hne
  | iyan hends =>
    exact settled_of_antya? (Term.antya?_setAntya (antya?_isSome_of_endsIn hends) ['i'] 'y')
  | uvan hends hino =>
    have hv := Term.antya?_setAntya (antya?_isSome_of_endsIn hends) ['u'] 'v'
    refine ⟨endsIn_eq_false_of_antya? hv (by decide), fun happlies => ?_⟩
    rw [appliesTo_inoYan_setAntya] at happlies
    exact absurd happlies (not_appliesTo_inoYan hends hino)
  | ino =>
    -- without any sound the root would have stayed
    have hsounds : w.cur.antya?.isSome = true := by
      by_contra hnone
      refine hne (if_pos ?_)
      simpa [Term.antya?] using hnone
    exact settled_of_antya? (Term.antya?_setAntya hsounds [] 'y')
  | yan hends => exact settled_of_antya? (antya?_alTasya hends)
  | vuk hclean hvalue =>
    refine ⟨?_, fun happlies => ?_⟩
    · refine endsIn_eq_false_of_antya? (c := 'v') ?_ (by decide)
      exact List.getLast?_concat
    · have hi : w.cur.clean = ['i'] := (appliesTo_inoYan_iff.mp happlies).2.1
      rw [hclean] at hi
      simp at hi

/-- **The rules before a vowel settle every window at once.** They turn it into one window, on which
they have no effect any more. -/
theorem apply_settles (w : Window) : ∃ w', aciSet.apply w = [w'] ∧ aciSet.apply w' = [w'] := by
  obtain ⟨b, hb, happly⟩ := exists_rewritten w
  refine ⟨w.withCur b, happly, ?_⟩
  by_cases hsame : b = w.cur
  · -- nothing was changed, so there is nothing new to look at
    subst hsame
    exact happly
  · exact apply_of_settled (settled_of_rewritten hb hsame)

end BeforeVowel

end Vyakarana
