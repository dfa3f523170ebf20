import Vyakarana.Stem.LitE

/-!
# The last rule of the e-substitution decides

The rules 6.4.120 to 6.4.126 on the e-substitution overlap. Of those that hold for a stem the last
one decides, with one exception: a root that 6.4.122 names keeps its verdict when the list of
6.4.125 names it as well. By default that list has none of these roots.

* `LitE.rulings`, `LitE.lastVerdict` — the rules in order, and the verdict of the last that holds
* `LitE.verdict_eq_lastVerdict` — the verdict of the group, the exception apart
* `LitE.status_eq_lastVerdict` — the status of a state and its successors
-/

namespace Vyakarana.LitE

variable {gana : Gana} {abhyasa stem suffix : Term} {s : State} {i j k : Nat}

/-! ## The rules in order -/

/-- A rule as it stands for some stem: whether its condition holds, and its verdict. -/
structure Ruling where
  holds : Bool
  verdict : Status

/-- The verdict of the last rule that holds. Without any the substitution does not apply. -/
def lastVerdict (rulings : List Ruling) : Status :=
  ((rulings.reverse.find? Ruling.holds).map Ruling.verdict).getD .inapplicable

/-- The roots of 6.4.122 tṝphalabhajatrapaś ca. -/
def trapadi : List Text := ["tF", "Pal", "Baj", "trap"].map String.toList

/-- The roots of 6.4.124 vā jṝbhramutrasām. -/
def jradi : List Text := ["jF", "Bram", "tras"].map String.toList

/-- The roots that 6.4.126 na śasadadavādiguṇānām names. -/
def sasadi : List Text := ["Sas", "dad"].map String.toList

/-- The rules for a stem and its abhyāsa, from 6.4.120 to 6.4.126. That of 6.4.121 is about the
suffix. -/
def rulings (gana : Gana) (abhyasa stem : Term) : List Ruling := [
  ⟨decide (stem.upadha? = some 'a' ∧ stem.value.length = 3 ∧ stem.adi? = abhyasa.adi?), .mandatory⟩,
  ⟨decide (stem.clean ∈ trapadi), .mandatory⟩,
  ⟨decide (stem.clean = "rAD".toList), .optional⟩,
  ⟨decide (stem.clean ∈ jradi), .optional⟩,
  ⟨decide (stem.clean ∈ gana.phan), .optional⟩,
  ⟨decide (stem.clean ∈ sasadi ∨ stem.adi? = some 'v'), .inapplicable⟩]

theorem lastVerdict_nil : lastVerdict [] = .inapplicable := rfl

theorem lastVerdict_concat (rulings : List Ruling) (r : Ruling) :
    lastVerdict (rulings ++ [r]) = if r.holds then r.verdict else lastVerdict rulings := by
  rw [lastVerdict, List.reverse_append, List.reverse_singleton, List.singleton_append,
    List.find?_cons]
  cases r.holds with
  | true => rfl
  | false => rfl

/-- The rules are asked from the last one to the first. -/
theorem lastVerdict_rulings (gana : Gana) (abhyasa stem : Term) :
    lastVerdict (rulings gana abhyasa stem)
      = if stem.clean ∈ sasadi ∨ stem.adi? = some 'v' then .inapplicable
        else if stem.clean ∈ gana.phan then .optional
        else if stem.clean ∈ jradi then .optional
        else if stem.clean = "rAD".toList then .optional
        else if stem.clean ∈ trapadi then .mandatory
        else if stem.upadha? = some 'a' ∧ stem.value.length = 3 ∧ stem.adi? = abhyasa.adi? then
          .mandatory
        else .inapplicable := by
  show lastVerdict ([] ++ [_] ++ [_] ++ [_] ++ [_] ++ [_] ++ [_]) = _
  simp only [lastVerdict_concat, lastVerdict_nil, decide_eq_true_eq]

/-! ## The verdict of the group -/

/-- A stem of three sounds has an initial, so the abhyāsa has it too if they begin alike. -/
theorem isEkahalMadhya_and_isAnadeshadi :
    (isEkahalMadhya stem && isAnadeshadi abhyasa stem) = true
      ↔ stem.upadha? = some 'a' ∧ stem.value.length = 3 ∧ stem.adi? = abhyasa.adi? := by
  simp only [isEkahalMadhya, isAnadeshadi, Bool.and_eq_true, beq_iff_eq, and_assoc]
  refine and_congr_right fun _ => and_congr_right fun hlength => ?_
  constructor
  · exact fun h => h.2.symm
  · intro hsame
    obtain ⟨c, rest, hvalue⟩ := List.exists_cons_of_length_eq_add_one hlength
    have hadi : stem.adi? = some c := by rw [Term.adi?, hvalue, List.head?_cons]
    rw [← hsame, hadi]
    exact ⟨rfl, rfl⟩

/-- The roots of 6.4.122 are no others that are named. -/
theorem not_named_of_trapadi : ∀ clean ∈ trapadi,
    clean ∉ sasadi ∧ clean ∉ jradi ∧ clean ≠ "rAD".toList := by
  decide

/-- 6.4.122 and the list of 6.4.125 name the same root, and 6.4.126 does not hold. -/
def Contested (gana : Gana) (stem : Term) : Prop :=
  stem.clean ∈ trapadi ∧ stem.clean ∈ gana.phan ∧ stem.adi? ≠ some 'v'

instance : Decidable (Contested gana stem) := inferInstanceAs (Decidable (_ ∧ _ ∧ _))

/-- The verdict as the group reaches it: 6.4.126 comes first, then 6.4.122. -/
theorem verdict_eq (gana : Gana) (abhyasa stem : Term) :
    verdict gana abhyasa stem
      = if stem.clean ∈ sasadi ∨ stem.adi? = some 'v' then .inapplicable
        else if stem.clean ∈ trapadi then .mandatory
        else if stem.clean = "rAD".toList then .optional
        else if stem.clean ∈ jradi then .optional
        else if stem.clean ∈ gana.phan then .optional
        else if stem.upadha? = some 'a' ∧ stem.value.length = 3 ∧ stem.adi? = abhyasa.adi? then
          .mandatory
        else .inapplicable := by
  simp only [verdict, Gana.inPhan, List.contains_iff_mem, Bool.or_eq_true, beq_iff_eq,
    isEkahalMadhya_and_isAnadeshadi]
  rfl

/-- **The last rule that holds decides**, unless the root is contested. -/
theorem verdict_eq_lastVerdict (h : ¬Contested gana stem) :
    verdict gana abhyasa stem = lastVerdict (rulings gana abhyasa stem) := by
  rw [verdict_eq, lastVerdict_rulings]
  by_cases hlast : stem.clean ∈ sasadi ∨ stem.adi? = some 'v'
  · rw [if_pos hlast, if_pos hlast]
  rw [if_neg hlast, if_neg hlast]
  by_cases htrap : stem.clean ∈ trapadi
  · obtain ⟨-, hjr, hrad⟩ := not_named_of_trapadi _ htrap
    have hphan : stem.clean ∉ gana.phan := fun hphan =>
      h ⟨htrap, hphan, fun hv => hlast (Or.inr hv)⟩
    rw [if_pos htrap, if_neg hphan, if_neg hjr, if_neg hrad, if_pos htrap]
  · -- 6.4.123 to 6.4.125 have one verdict, so their order does not matter
    rw [if_neg htrap, if_neg htrap]
    by_cases hphan : stem.clean ∈ gana.phan
    · rw [if_pos hphan, if_pos hphan, ite_self, ite_self]
    rw [if_neg hphan, if_neg hphan]
    by_cases hjr : stem.clean ∈ jradi
    · rw [if_pos hjr, if_pos hjr, ite_self]
    · rw [if_neg hjr, if_neg hjr]

/-- A contested root keeps the verdict of 6.4.122, though 6.4.125 is the last rule that holds. -/
theorem verdict_of_contested (h : Contested gana stem) :
    verdict gana abhyasa stem = .mandatory
      ∧ lastVerdict (rulings gana abhyasa stem) = .optional := by
  obtain ⟨htrap, hphan, hv⟩ := h
  have hlast : ¬(stem.clean ∈ sasadi ∨ stem.adi? = some 'v') :=
    not_or.mpr ⟨(not_named_of_trapadi _ htrap).1, hv⟩
  rw [verdict_eq, lastVerdict_rulings, if_neg hlast, if_neg hlast]
  exact ⟨if_pos htrap, if_pos hphan⟩

/-! ## States -/

/-- Before a suffix of liṭ that admits the substitution the group has its say. -/
theorem status_of_admitsE (habhyasa : s.find? .abhyasa = some (abhyasa, i))
    (hstem : s.find? .anga = some (stem, j)) (hsuffix : s.next? j = some (suffix, k))
    (hlit : suffix.hasLakshana .liW = true) (hadmits : admitsE suffix = true) :
    status gana s = some (verdict gana abhyasa stem) := by
  simp only [status, habhyasa, hstem, hsuffix, hlit, hadmits]
  rfl

/-- The states that a verdict leads to, with the substituted one first. -/
def outcomes (substituted s : State) : Status → List State
  | .mandatory => [substituted]
  | .optional => [substituted, s]
  | .inapplicable => [s]

/-- The substitution takes the sounds of the abhyāsa away and turns the last `a` or `A` of the stem
into `e`. -/
theorem successors_of_status {v : Status} (habhyasa : s.find? .abhyasa = some (abhyasa, i))
    (hstem : s.find? .anga = some (stem, j)) (hstatus : status gana s = some v) :
    successors gana s = outcomes ((s.replace i abhyasa.lopa).replace j
      (stem.alTasya (.ofSounds [.a, .A]) (.ofSounds [.e]))) s v := by
  simp only [successors, substituted, habhyasa, hstem, hstatus]
  cases v with
  | mandatory => rfl
  | optional => rfl
  | inapplicable => rfl

/-- **The last rule that holds decides the status of a state** with an abhyāsa, a stem, and after the
stem a suffix of liṭ that is kit or ṅit or is `iTa`, unless the root is contested: then the
substitution is mandatory, where the last rule would leave a choice. A mandatory substitution is the
only outcome, an optional one comes before the state itself, and without one the state stays. -/
theorem status_eq_lastVerdict (gana : Gana) (habhyasa : s.find? .abhyasa = some (abhyasa, i))
    (hstem : s.find? .anga = some (stem, j)) (hsuffix : s.next? j = some (suffix, k))
    (hlit : suffix.hasLakshana .liW = true)
    (hadmits : suffix.hasMarker .kit = true ∨ suffix.hasMarker .Nit = true
      ∨ suffix.value = "iTa".toList) :
    (¬Contested gana stem → status gana s = some (lastVerdict (rulings gana abhyasa stem)))
      ∧ (Contested gana stem → status gana s = some .mandatory
        ∧ lastVerdict (rulings gana abhyasa stem) = .optional)
      ∧ ∀ v, status gana s = some v →
        successors gana s = outcomes ((s.replace i abhyasa.lopa).replace j
          (stem.alTasya (.ofSounds [.a, .A]) (.ofSounds [.e]))) s v := by
  have hopen : admitsE suffix = true := by
    rw [← or_assoc] at hadmits
    simpa [admitsE, Term.anyMarker] using hadmits
  have hstatus : status gana s = some (verdict gana abhyasa stem) :=
    status_of_admitsE habhyasa hstem hsuffix hlit hopen
  refine ⟨fun hcontested => ?_, fun hcontested => ?_, fun v => successors_of_status habhyasa hstem⟩
  · rw [hstatus, verdict_eq_lastVerdict hcontested]
  · obtain ⟨hmandatory, hoptional⟩ : verdict gana abhyasa stem = .mandatory ∧ _ :=
      verdict_of_contested hcontested
    exact ⟨hstatus.trans (congrArg some hmandatory), hoptional⟩

/-- The root of a perfect before atus, with its abhyāsa. -/
def beforeAtus (abhyasa root : String) : State :=
  .ofTerms [.abhyasa abhyasa.toList, .dhatu root.toList,
    ((Term.vibhakti "atus".toList).withMarkers [.kit]).withLakshana [.liW]]

/-- The root syam has both forms, by the list of 6.4.125. -/
theorem status_eq_lastVerdict_syam :
    let s := beforeAtus "sa" "syam"
    ∃ abhyasa stem suffix, s.find? .abhyasa = some (abhyasa, 0) ∧ s.find? .anga = some (stem, 1)
      ∧ s.next? 1 = some (suffix, 2) ∧ suffix.hasLakshana .liW = true
      ∧ suffix.hasMarker .kit = true ∧ ¬Contested {} stem
      ∧ status {} s = some .optional
      ∧ (successors {} s).map State.surface = ["syematus".toList, "sasyamatus".toList] := by
  intro s
  obtain ⟨hlast, -, hsuccessors⟩ := status_eq_lastVerdict {} (s := s) (i := 0) (j := 1) (k := 2)
    rfl rfl rfl rfl (Or.inl rfl)
  have hcontested : ¬Contested {} (.dhatu "syam".toList) := by decide
  have hstatus : status {} s = some .optional := (hlast hcontested).trans rfl
  refine ⟨_, _, _, rfl, rfl, rfl, rfl, rfl, hcontested, hstatus, ?_⟩
  rw [hsuccessors _ hstatus]
  decide

/-- The last rule that holds for the root trap, once the list of 6.4.125 names it, leaves a choice,
and the group leaves none. -/
theorem status_ne_lastVerdict_trap :
    let gana : Gana := { phan := ["trap".toList] }
    let s := beforeAtus "ta" "trap"
    ∃ abhyasa stem suffix, s.find? .abhyasa = some (abhyasa, 0) ∧ s.find? .anga = some (stem, 1)
      ∧ s.next? 1 = some (suffix, 2) ∧ suffix.hasLakshana .liW = true
      ∧ suffix.hasMarker .kit = true
      ∧ lastVerdict (rulings gana abhyasa stem) = .optional
      ∧ status gana s = some .mandatory :=
  ⟨_, _, _, rfl, rfl, rfl, rfl, rfl, rfl, rfl⟩

end Vyakarana.LitE
