import Mathlib.Logic.Function.Iterate
import Vyakarana.Proofs.Values

/-!
# Samprasāraṇa on values of any kind

Samprasāraṇa looks for a semivowel with a vowel directly after it. The first that there is becomes
its ik vowel and swallows the vowel after it, so one semivowel is lost and no syllable.

* `Term.VocalisesAt` — where a semivowel stands before a vowel
* `Term.vocaliseFirst?_eq_some`, `Term.vocaliseFirst?_eq_none_iff` — the search for the first place
* `Term.samprasarana_vocalises_first` — what samprasāraṇa does, once and again
-/

namespace Vyakarana.Term

variable {t : Term} {value new : Text} {c d v : Char} {i : Nat}

/-! ## Semivowels and their vowels -/

/-- The ik vowel for each semivowel (1.1.45 ig yaṇaḥ samprasāraṇam). -/
def ikForYan : List (Char × Char) := [('y', 'i'), ('v', 'u'), ('r', 'f'), ('l', 'x')]

/-- The character writes a semivowel. -/
def isSemivowel (c : Char) : Bool := (ikForYan.map Prod.fst).contains c

theorem isSemivowel_iff : isSemivowel c = true ↔ ∃ v, (c, v) ∈ ikForYan := by
  simp [isSemivowel]

/-- The nearest vowel in the class ik is the one of the table. -/
theorem vocalised?_eq_some_iff : vocalised? c = some v ↔ (c, v) ∈ ikForYan := by
  constructor
  · intro h
    have hyan : (Pratyahara.sounds .yaR).contains c = true := by
      by_contra hother
      rw [vocalised?, if_neg hother] at h
      simp at h
    have htable : (vocalised? c).all (fun v => ikForYan.contains (c, v)) = true :=
      SoundClass.of_contains
        (fun c => (vocalised? c).all (fun v => ikForYan.contains (c, v)) = true) hyan (by decide)
    rw [h, Option.all_some, List.contains_iff_mem] at htable
    exact htable
  · have hall : ∀ pair ∈ ikForYan, vocalised? pair.1 = some pair.2 := by decide
    exact hall (c, v)

/-- A semivowel is no vowel, and its ik vowel is one. -/
theorem vowels_of_mem_ikForYan (h : (c, v) ∈ ikForYan) :
    isVowelChar c = false ∧ isVowelChar v = true := by
  have hall : ∀ pair ∈ ikForYan, isVowelChar pair.1 = false ∧ isVowelChar pair.2 = true := by decide
  exact hall (c, v) h

theorem isSemivowel_eq_false_of_isVowelChar (h : isVowelChar d = true) : isSemivowel d = false := by
  by_contra hsemi
  obtain ⟨v, hv⟩ := isSemivowel_iff.mp (by simpa using hsemi)
  rw [(vowels_of_mem_ikForYan hv).1] at h
  simp at h

/-! ## The first semivowel before a vowel -/

/-- A semivowel stands at the position, and a vowel directly after it. -/
def VocalisesAt (value : Text) (i : Nat) : Prop :=
  ∃ c d, value[i]? = some c ∧ value[i + 1]? = some d ∧ isSemivowel c = true ∧ isVowelChar d = true

theorem vocalisesAt_succ : VocalisesAt (c :: value) (i + 1) ↔ VocalisesAt value i := by
  simp [VocalisesAt]

theorem vocalisesAt_zero :
    VocalisesAt (c :: d :: value) 0 ↔ isSemivowel c = true ∧ isVowelChar d = true := by
  simp [VocalisesAt]

theorem vocaliseFirst?_cons_of_vocalisesAt (h : VocalisesAt (c :: d :: value) 0) :
    ∃ v, (c, v) ∈ ikForYan ∧ vocaliseFirst? (c :: d :: value) = some (v :: value) := by
  obtain ⟨hc, hd⟩ := vocalisesAt_zero.mp h
  obtain ⟨v, hv⟩ := isSemivowel_iff.mp hc
  refine ⟨v, hv, ?_⟩
  rw [vocaliseFirst?, vocalised?_eq_some_iff.mpr hv, hd]

theorem vocaliseFirst?_cons_of_not_vocalisesAt (h : ¬VocalisesAt (c :: d :: value) 0) :
    vocaliseFirst? (c :: d :: value) = (vocaliseFirst? (d :: value)).map (c :: ·) := by
  rw [vocaliseFirst?]
  split
  · next v hv hd =>
    exact absurd (vocalisesAt_zero.mpr
      ⟨isSemivowel_iff.mpr ⟨v, vocalised?_eq_some_iff.mp hv⟩, hd⟩) h
  · rfl

/-- Where the search succeeds there is a semivowel before a vowel, and none before that one. -/
theorem vocaliseFirst?_eq_some (h : vocaliseFirst? value = some new) :
    ∃ before c v d rest, value = before ++ c :: d :: rest ∧ (c, v) ∈ ikForYan
      ∧ isVowelChar d = true ∧ new = before ++ v :: rest
      ∧ ∀ j < before.length, ¬VocalisesAt value j := by
  induction value generalizing new with
  | nil => simp [vocaliseFirst?] at h
  | cons c value ih =>
    cases value with
    | nil => simp [vocaliseFirst?] at h
    | cons d rest =>
      by_cases hhere : VocalisesAt (c :: d :: rest) 0
      · obtain ⟨v, hv, hfirst⟩ := vocaliseFirst?_cons_of_vocalisesAt hhere
        rw [hfirst] at h
        exact ⟨[], c, v, d, rest, rfl, hv, (vocalisesAt_zero.mp hhere).2, (Option.some.inj h).symm,
          by simp⟩
      · rw [vocaliseFirst?_cons_of_not_vocalisesAt hhere] at h
        obtain ⟨later, hlater, rfl⟩ := Option.map_eq_some_iff.mp h
        obtain ⟨before, e, v, f, after, hvalue, hv, hf, rfl, hnone⟩ := ih hlater
        refine ⟨c :: before, e, v, f, after, by rw [hvalue]; rfl, hv, hf, rfl, fun j hj => ?_⟩
        cases j with
        | zero => exact hhere
        | succ j =>
          rw [vocalisesAt_succ]
          exact hnone j (Nat.lt_of_succ_lt_succ hj)

theorem vocaliseFirst?_eq_none_iff :
    vocaliseFirst? value = none ↔ ∀ i, ¬VocalisesAt value i := by
  induction value with
  | nil => simp [vocaliseFirst?, VocalisesAt]
  | cons c value ih =>
    cases value with
    | nil => simp [vocaliseFirst?, VocalisesAt]
    | cons d rest =>
      by_cases hhere : VocalisesAt (c :: d :: rest) 0
      · obtain ⟨v, -, hfirst⟩ := vocaliseFirst?_cons_of_vocalisesAt hhere
        simp only [hfirst, reduceCtorEq, false_iff]
        exact fun hnone => hnone 0 hhere
      · rw [vocaliseFirst?_cons_of_not_vocalisesAt hhere, Option.map_eq_none_iff, ih]
        constructor
        · intro hnone i
          cases i with
          | zero => exact hhere
          | succ i =>
            rw [vocalisesAt_succ]
            exact hnone i
        · intro hnone i
          exact vocalisesAt_succ.not.mp (hnone (i + 1))

/-! ## Samprasāraṇa once -/

theorem samprasarana_of_forall_not (h : ∀ i, ¬VocalisesAt t.value i) : t.samprasarana = t := by
  rw [samprasarana, vocaliseFirst?_eq_none_iff.mpr h]

/-- The first semivowel before a vowel and that vowel give way to the ik vowel. -/
theorem exists_samprasarana_eq (h : ∃ i, VocalisesAt t.value i) :
    ∃ before c v d rest, t.value = before ++ c :: d :: rest ∧ (c, v) ∈ ikForYan
      ∧ isVowelChar d = true ∧ t.samprasarana = t.withValue (before ++ v :: rest)
      ∧ ∀ j < before.length, ¬VocalisesAt t.value j := by
  cases hfirst : vocaliseFirst? t.value with
  | none =>
    obtain ⟨i, hi⟩ := h
    exact absurd hi (vocaliseFirst?_eq_none_iff.mp hfirst i)
  | some new =>
    obtain ⟨before, c, v, d, rest, hvalue, hv, hd, rfl, hnone⟩ := vocaliseFirst?_eq_some hfirst
    exact ⟨before, c, v, d, rest, hvalue, hv, hd, by rw [samprasarana, hfirst], hnone⟩

/-- The same, by the position. -/
theorem exists_samprasarana_at (h : ∃ i, VocalisesAt t.value i) :
    ∃ i c v, VocalisesAt t.value i ∧ (∀ j < i, ¬VocalisesAt t.value j)
      ∧ t.value[i]? = some c ∧ (c, v) ∈ ikForYan
      ∧ t.samprasarana = t.withValue (t.value.take i ++ v :: t.value.drop (i + 2)) := by
  obtain ⟨before, c, v, d, rest, hvalue, hv, hd, hnew, hnone⟩ := exists_samprasarana_eq h
  have hc : t.value[before.length]? = some c := by simp [hvalue]
  have hnext : t.value[before.length + 1]? = some d := by simp [hvalue]
  have hbefore : t.value.take before.length = before := by simp [hvalue]
  have hrest : t.value.drop (before.length + 2) = rest := by simp [hvalue]
  have hplace : VocalisesAt t.value before.length :=
    ⟨c, d, hc, hnext, isSemivowel_iff.mpr ⟨v, hv⟩, hd⟩
  exact ⟨before.length, c, v, hplace, hnone, hc, hv, by rw [hbefore, hrest, hnew]⟩

/-- The vowel that is put in makes up for the one that is swallowed. -/
theorem numSyllables_samprasarana (t : Term) : t.samprasarana.numSyllables = t.numSyllables := by
  by_cases h : ∃ i, VocalisesAt t.value i
  · obtain ⟨before, c, v, d, rest, hvalue, hv, hd, hnew, -⟩ := exists_samprasarana_eq h
    obtain ⟨hcons, hvowel⟩ := vowels_of_mem_ikForYan hv
    simp [hnew, numSyllables, withValue, hvalue, hcons, hvowel, hd]
  · rw [samprasarana_of_forall_not (not_exists.mp h)]

/-- The number of semivowels. -/
def numSemivowels (t : Term) : Nat := t.value.countP isSemivowel

/-- Where samprasāraṇa does anything it takes away one sound and one semivowel. -/
theorem samprasarana_shortens (t : Term) : t.samprasarana = t
    ∨ t.samprasarana.value.length + 1 = t.value.length
      ∧ t.samprasarana.numSemivowels + 1 = t.numSemivowels := by
  by_cases h : ∃ i, VocalisesAt t.value i
  · obtain ⟨before, c, v, d, rest, hvalue, hv, hd, hnew, -⟩ := exists_samprasarana_eq h
    have hsemi : isSemivowel c = true := isSemivowel_iff.mpr ⟨v, hv⟩
    have hvowel := isSemivowel_eq_false_of_isVowelChar (vowels_of_mem_ikForYan hv).2
    have hswallowed := isSemivowel_eq_false_of_isVowelChar hd
    refine Or.inr ⟨?_, ?_⟩
    · simp only [hnew, withValue, hvalue, List.length_append, List.length_cons]
      omega
    · rw [numSemivowels, hnew, withValue, numSemivowels, hvalue, List.countP_append,
        List.countP_append, List.countP_cons_of_pos hsemi,
        List.countP_cons_of_neg (by simp [hvowel]), List.countP_cons_of_neg (by simp [hswallowed])]
      omega
  · exact Or.inl (samprasarana_of_forall_not (not_exists.mp h))

/-! ## Samprasāraṇa again and again -/

/-- Each time but the last costs a semivowel. -/
theorem exists_samprasarana_iterate (t : Term) : ∃ k ≤ t.numSemivowels,
    (samprasarana^[k] t).samprasarana = samprasarana^[k] t := by
  -- The induction is on the number of semivowels: without any, there is none to take away.
  induction hn : t.numSemivowels generalizing t with
  | zero =>
    rcases t.samprasarana_shortens with hsame | ⟨-, hcount⟩
    · exact ⟨0, Nat.le_refl _, hsame⟩
    · omega
  | succ n ih =>
    rcases t.samprasarana_shortens with hsame | ⟨-, hcount⟩
    · exact ⟨0, Nat.zero_le _, hsame⟩
    · obtain ⟨k, hk, hfixed⟩ := ih t.samprasarana (by omega)
      exact ⟨k + 1, Nat.succ_le_succ hk, hfixed⟩

/-- **Samprasāraṇa turns the first semivowel before a vowel into its ik vowel, which swallows the
vowel after it, and changes nothing else.** Without such a semivowel the term stays. No syllable is
lost, and one sound or none; done again and again it comes to rest after no more times than there
are semivowels. -/
theorem samprasarana_vocalises_first (t : Term) :
    ((∃ i, VocalisesAt t.value i) → ∃ i c v, VocalisesAt t.value i
      ∧ (∀ j < i, ¬VocalisesAt t.value j) ∧ t.value[i]? = some c ∧ (c, v) ∈ ikForYan
      ∧ t.samprasarana = t.withValue (t.value.take i ++ v :: t.value.drop (i + 2)))
    ∧ ((¬∃ i, VocalisesAt t.value i) → t.samprasarana = t)
    ∧ t.samprasarana.numSyllables = t.numSyllables
    ∧ (t.samprasarana = t ∨ t.samprasarana.value.length + 1 = t.value.length)
    ∧ ∃ k ≤ t.numSemivowels, (samprasarana^[k] t).samprasarana = samprasarana^[k] t :=
  ⟨exists_samprasarana_at, fun h => samprasarana_of_forall_not (not_exists.mp h),
    t.numSyllables_samprasarana, t.samprasarana_shortens.imp_right And.left,
    t.exists_samprasarana_iterate⟩

/-- In vyadh the `v` stands before a consonant, so the `y` is the first to go. The root pac has no
semivowel. -/
theorem samprasarana_vocalises_first_vyaD :
    let vyaD := dhatu "vyaD".toList
    let pac := dhatu "pac".toList
    vyaD.samprasarana = vyaD.withValue "viD".toList ∧ pac.samprasarana = pac
      ∧ ∃ i c v, VocalisesAt vyaD.value i ∧ (∀ j < i, ¬VocalisesAt vyaD.value j)
        ∧ vyaD.value[i]? = some c ∧ (c, v) ∈ ikForYan ∧ vyaD.samprasarana
          = vyaD.withValue (vyaD.value.take i ++ v :: vyaD.value.drop (i + 2)) := by
  intro vyaD pac
  have hplace : VocalisesAt vyaD.value 1 := ⟨'y', 'a', by decide, by decide, by decide, by decide⟩
  have hnowhere : ¬∃ i, VocalisesAt pac.value i :=
    not_exists.mpr (vocaliseFirst?_eq_none_iff.mp (by decide))
  exact ⟨by decide, (samprasarana_vocalises_first pac).2.1 hnowhere,
    (samprasarana_vocalises_first vyaD).1 ⟨1, hplace⟩⟩

end Vyakarana.Term
