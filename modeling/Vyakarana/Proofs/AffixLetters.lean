import Vyakarana.SoundClass
import Vyakarana.Proofs.ItLetters

/-!
# It-letters of affixes

By the it-rules a consonant at the end of an affix, an augment or a substitute is it, and of an
affix some consonants at the beginning. A letter is only taken away if there is a marker named for
it. So the rules are followed as far as the letters that they meet have markers; others stay.

* `Upadesha.stripped` — what the rules leave if they take away only some of the letters
* `Upadesha.value_parse_of_sounding` — what is read of a sequence of sounds
* `Upadesha.parse_affix` — it is what the rules leave exactly if the letters have markers
-/

namespace Vyakarana.Upadesha

variable {t : Text} {c : Char} {kind : UpadeshaKind} {it named p q : Char → Bool}

/-! ## The rules -/

/-- A final consonant is it (1.3.3 halantyam), but not the t-varga, `s` and `m` of a vibhakti
(1.3.4 na vibhaktau tusmāḥ). -/
def isItFinally (kind : UpadeshaKind) (c : Char) : Bool :=
  !isVowelChar c
    && !(kind == .vibhakti && (Varga.tu.sounds.contains c || c == 's' || c == 'm'))

/-- An initial `z` is it (1.3.6 ṣaḥ pratyayasya), so are the palatal and retroflex series
(1.3.7 cuṭū), and `l`, `S` and the ku series (1.3.8 laśakv ataddhite). -/
def isItInitially (c : Char) : Bool :=
  c == 'z' || Varga.cu.sounds.contains c || Varga.wu.sounds.contains c
    || c == 'l' || c == 'S' || Varga.ku.sounds.contains c

/-- The text without its last letter, if that is it. -/
def withoutFinal (it : Char → Bool) (t : Text) : Text :=
  if t.getLast?.any it then t.dropLast else t

/-- The text without its first letter, if that is it and not the only one. -/
def withoutInitial (it : Char → Bool) : Text → Text
  | c :: d :: rest => if it c then d :: rest else c :: d :: rest
  | t => t

/-- The kinds whose initial can be it. -/
def isAffix (kind : UpadeshaKind) : Bool := kind == .pratyaya || kind == .vibhakti

/-- What the rules leave of a form if they take away its final and then its initial, each only if it
is one of the `named`. -/
def stripped (kind : UpadeshaKind) (named : Char → Bool) (t : Text) : Text :=
  let closed := withoutFinal (fun c => isItFinally kind c && named c) t
  if isAffix kind then withoutInitial (fun c => isItInitially c && named c) closed else closed

/-- The letters that markers are named for. -/
def isNamed (c : Char) : Bool :=
  ['k', 'N', 'Y', 'R', 'w', 'p', 'm', 'S', 'z', 'c', 'l'].contains c

theorem isSome_ofLetter? (c : Char) : (Marker.ofLetter? c).isSome = isNamed c := by
  unfold Marker.ofLetter?
  split
  case h_12 hk hN hY hR hw hp hm hS hz hc hl =>
    simp_all [isNamed]
  all_goals rfl

/-! ## Ends of a text -/

theorem withoutFinal_concat (it : Char → Bool) (b : Text) (c : Char) :
    withoutFinal it (b ++ [c]) = if it c then b else b ++ [c] := by
  rw [withoutFinal, List.getLast?_concat, List.dropLast_concat, Option.any_some]

theorem withoutFinal_congr (h : ∀ c ∈ t, p c = q c) : withoutFinal p t = withoutFinal q t := by
  unfold withoutFinal
  cases hlast : t.getLast? with
  | none => rfl
  | some c => rw [Option.any_some, Option.any_some, h c (List.mem_of_getLast? hlast)]

theorem withoutInitial_congr (h : ∀ c ∈ t, p c = q c) :
    withoutInitial p t = withoutInitial q t := by
  unfold withoutInitial
  split
  · rw [h _ List.mem_cons_self]
  · rfl

theorem withoutInitial_cons (it : Char → Bool) (c d : Char) (rest : Text) :
    withoutInitial it (c :: d :: rest) = if it c then d :: rest else c :: d :: rest := rfl

theorem withoutFinal_subset (it : Char → Bool) (t : Text) : withoutFinal it t ⊆ t := by
  unfold withoutFinal
  split
  · exact List.dropLast_subset t
  · exact List.Subset.refl t

/-! ## Reading -/

namespace Reading

theorem letters_dropFinal (r : Reading) (kind : UpadeshaKind) (notated : Bool) :
    (r.dropFinal kind notated).letters
      = withoutFinal (fun c => finalCanBeIt kind notated c && isNamed c) r.letters := by
  unfold dropFinal withoutFinal
  cases r.letters.getLast? with
  | none => rfl
  | some c =>
    dsimp only
    rw [Option.any_some, ← isSome_ofLetter?]
    by_cases hcan : finalCanBeIt kind notated c = true
    · rw [if_pos hcan, hcan]
      cases Marker.ofLetter? c with
      | none => rfl
      | some m => rfl
    · simp [hcan]

theorem letters_dropInitial (r : Reading) :
    r.dropInitial.letters = withoutInitial (fun c => initialCanBeIt c && isNamed c) r.letters := by
  obtain ⟨letters, markers⟩ := r
  match letters with
  | [] => rfl
  | [_] => rfl
  | c :: d :: rest =>
    rw [withoutInitial_cons, ← isSome_ofLetter?]
    unfold dropInitial
    dsimp only
    by_cases hcan : initialCanBeIt c = true
    · rw [if_pos hcan, hcan]
      cases Marker.ofLetter? c with
      | none => rfl
      | some m => rfl
    · simp [hcan]

end Reading

/-- What holds of every sound holds of the letters of a sequence of sounds. -/
theorem forall_mem_of_sounding {P : Char → Prop} (h : isSounding t = true)
    (hall : ∀ σ ∈ Sound.all, P σ.toChar) : ∀ c ∈ t, P c := by
  intro c hc
  obtain ⟨σ, hσ⟩ := Option.isSome_iff_exists.mp (List.all_eq_true.mp h c hc)
  rw [← Sound.toChar_of_ofChar? hσ]
  exact hall σ (Sound.mem_all σ)

/-- Of sounds the final is looked at by the same rule in every form but a root. -/
theorem finalCanBeIt_of_sounding (h : isSounding t = true) (hkind : kind ≠ .dhatu)
    (notated : Bool) : ∀ c ∈ t, Reading.finalCanBeIt kind notated c = isItFinally kind c := by
  refine forall_mem_of_sounding h ?_
  cases kind with
  | dhatu => exact absurd rfl hkind
  | _ => decide +revert

theorem initialCanBeIt_of_sounding (h : isSounding t = true) :
    ∀ c ∈ t, Reading.initialCanBeIt c = isItInitially c :=
  forall_mem_of_sounding h (by decide)

/-- **What is read of a sequence of sounds** is what the rules leave if they take away only letters
that a marker is named for. -/
theorem value_parse_of_sounding (h : isSounding t = true) (hkind : kind ≠ .dhatu) :
    (parse t kind).value = stripped kind isNamed t := by
  have hplain : t.filter (!isAccent ·) = t := by
    refine List.filter_eq_self.mpr (forall_mem_of_sounding h ?_)
    decide
  have hclosed : ((⟨t, ∅⟩ : Reading).dropFinal kind (isNotated t)).letters
      = withoutFinal (fun c => isItFinally kind c && isNamed c) t := by
    rw [Reading.letters_dropFinal]
    refine withoutFinal_congr fun c hc => ?_
    rw [finalCanBeIt_of_sounding h hkind _ c hc]
  have hsub := withoutFinal_subset (fun c => isItFinally kind c && isNamed c) t
  have hnasal : '~' ∉ withoutFinal (fun c => isItFinally kind c && isNamed c) t :=
    fun hmem => not_mem_of_isSounding h (by decide) (hsub hmem)
  have hinitial : ∀ markers : OrderedSet Marker,
      (Reading.mk (withoutFinal (fun c => isItFinally kind c && isNamed c) t)
          markers).dropInitial.letters
        = withoutInitial (fun c => isItInitially c && isNamed c)
          (withoutFinal (fun c => isItFinally kind c && isNamed c) t) := by
    intro markers
    rw [Reading.letters_dropInitial]
    refine withoutInitial_congr fun c hc => ?_
    rw [initialCanBeIt_of_sounding h c (hsub hc)]
  have htrimmed : (kind == .dhatu && isNotated t) = false := by
    rw [beq_false_of_ne hkind, Bool.false_and]
  have haffixes : (kind == .pratyaya || kind == .vibhakti) = isAffix kind := rfl
  simp only [parse, analyse, stripped, haffixes, hplain, htrimmed, hclosed,
    Reading.dropNasals_of_not_mem hnasal, Bool.false_eq_true, if_false]
  by_cases haffix : isAffix kind = true
  · rw [if_pos haffix, if_pos haffix, hinitial]
  · rw [if_neg haffix, if_neg haffix]

/-! ## Letters without a marker -/

/-- The end is treated alike exactly if its letter has a marker where it is it. -/
theorem withoutFinal_and_eq_iff :
    withoutFinal (fun c => it c && named c) t = withoutFinal it t
      ↔ ∀ c, t.getLast? = some c → it c = true → named c = true := by
  rcases List.eq_nil_or_concat t with rfl | ⟨b, c, rfl⟩
  · simp [withoutFinal]
  rw [List.concat_eq_append, withoutFinal_concat, withoutFinal_concat, List.getLast?_concat]
  by_cases hit : it c = true <;> by_cases hnamed : named c = true <;> simp [hit, hnamed]

/-- So is the beginning. -/
theorem withoutInitial_and_eq_iff :
    withoutInitial (fun c => it c && named c) t = withoutInitial it t
      ↔ ∀ c d rest, t = c :: d :: rest → it c = true → named c = true := by
  match t with
  | [] => simp [withoutInitial]
  | [_] => simp [withoutInitial]
  | c :: d :: rest =>
    by_cases hit : it c = true <;> by_cases hnamed : named c = true <;>
      simp [withoutInitial, hit, hnamed]

/-- What is done at the beginning does not make up for a letter that stayed at the end. -/
theorem withoutInitial_concat_ne (hnamed : named c = false) (b : Text) :
    withoutInitial (fun c => it c && named c) (b ++ [c]) ≠ withoutInitial it b := by
  match b with
  | [] => simp [withoutInitial]
  | [i] =>
    by_cases hinitial : (it i && named i) = true
    · -- the first letter goes, and it is another one than the last, which has no marker
      have hne : c ≠ i := by
        rintro rfl
        simp [hnamed] at hinitial
      simpa [withoutInitial, hinitial] using hne
    · simp [withoutInitial, hinitial]
  | i :: j :: rest =>
    -- the left side is longer, since what goes on the left goes on the right
    refine fun heq => absurd (congrArg List.length heq) ?_
    by_cases hit : it i = true <;> by_cases hinitial : named i = true <;>
      simp [withoutInitial, hit, hinitial]
    omega

/-- If only the `named` letters are taken away, as much is left as the rules leave exactly if the
letters that they meet are named. -/
theorem stripped_eq_iff :
    stripped kind named t = stripped kind (fun _ => true) t
      ↔ (∀ c, t.getLast? = some c → isItFinally kind c = true → named c = true)
        ∧ (isAffix kind = true → ∀ c d rest,
            withoutFinal (isItFinally kind) t = c :: d :: rest →
              isItInitially c = true → named c = true) := by
  simp only [stripped, Bool.and_true]
  by_cases haffix : isAffix kind = true
  · rw [if_pos haffix, if_pos haffix, ← withoutFinal_and_eq_iff]
    constructor
    · intro heq
      have hfinal : withoutFinal (fun c => isItFinally kind c && named c) t
          = withoutFinal (isItFinally kind) t := by
        refine withoutFinal_and_eq_iff.mpr fun c hlast hit => ?_
        rw [← Bool.not_eq_false]
        intro hnamed
        obtain ⟨b, rfl⟩ := List.getLast?_eq_some_iff.mp hlast
        rw [withoutFinal_concat, withoutFinal_concat, hnamed, hit] at heq
        exact withoutInitial_concat_ne hnamed b heq
      rw [hfinal] at heq
      exact ⟨hfinal, fun _ => withoutInitial_and_eq_iff.mp heq⟩
    · rintro ⟨hfinal, hinitial⟩
      rw [hfinal]
      exact withoutInitial_and_eq_iff.mpr (hinitial haffix)
  · rw [if_neg haffix, if_neg haffix, withoutFinal_and_eq_iff]
    exact ⟨fun hfinal => ⟨hfinal, fun h => absurd h haffix⟩, fun h => h.1⟩

/-- **An affix, augment or substitute made of sounds** is read by the rules as far as there are
markers for its letters. What is read is what the rules leave if and only if the final, where it is
it, and the initial of an affix after that, where it is it and not alone, have markers. -/
theorem parse_affix (h : isSounding t = true) (hkind : kind ≠ .dhatu) :
    (parse t kind).value = stripped kind isNamed t
      ∧ ((parse t kind).value = stripped kind (fun _ => true) t
        ↔ (∀ c, t.getLast? = some c → isItFinally kind c = true → isNamed c = true)
          ∧ (isAffix kind = true → ∀ c d rest,
              withoutFinal (isItFinally kind) t = c :: d :: rest →
                isItInitially c = true → isNamed c = true)) := by
  rw [value_parse_of_sounding h hkind]
  exact ⟨rfl, stripped_eq_iff⟩

/-- The affix kta, whose letters have markers, and the affix GaY, whose initial has none. -/
theorem parse_affix_kta :
    isSounding "kta".toList = true ∧ isSounding "GaY".toList = true
      ∧ (parse "kta".toList .pratyaya).value = stripped .pratyaya (fun _ => true) "kta".toList
      ∧ (parse "GaY".toList .pratyaya).value = stripped .pratyaya isNamed "GaY".toList := by
  have hkta : isSounding "kta".toList = true := by decide
  have hghan : isSounding "GaY".toList = true := by decide
  have hinitial : ∀ c d rest, withoutFinal (isItFinally .pratyaya) "kta".toList = c :: d :: rest →
      isItInitially c = true → isNamed c = true := by
    intro c d rest heq _
    have hc : c = 'k' := (List.cons.inj heq).1.symm
    rw [hc]
    decide
  have hfinal : ∀ c, "kta".toList.getLast? = some c → isItFinally .pratyaya c = true →
      isNamed c = true := by
    intro c hlast hit
    rw [← Option.some.inj hlast] at hit
    exact absurd hit (by decide)
  exact ⟨hkta, hghan, (parse_affix hkta (by decide)).2.mpr ⟨hfinal, fun _ => hinitial⟩,
    (parse_affix hghan (by decide)).1⟩

/-- The rules leave `a` of the affix GaY, `va` of vat and `a` of the augment at. -/
theorem parse_affix_ne_ghan :
    isSounding "GaY".toList = true
      ∧ stripped .pratyaya (fun _ => true) "GaY".toList = "a".toList
      ∧ (parse "GaY".toList .pratyaya).value = "Ga".toList
      ∧ isSounding "vat".toList = true
      ∧ stripped .pratyaya (fun _ => true) "vat".toList = "va".toList
      ∧ (parse "vat".toList .pratyaya).value = "vat".toList
      ∧ isSounding "at".toList = true
      ∧ stripped .agama (fun _ => true) "at".toList = "a".toList
      ∧ (parse "at".toList .agama).value = "at".toList := by
  decide

end Vyakarana.Upadesha
