import Vyakarana.Proofs.ItLetters

/-!
# Reading undoes the it-notation

An element is taught with marks by writing a nasalised vowel and an it-letter after it, as in
`vu~k`. Reading such a form gives the element back, with the markers that the two stand for. What is
read of a root is bare: it reads as itself.

* `Upadesha.analyse_notation` — the letters and markers of a form in it-notation
* `Upadesha.parse_dhatu_of_bare` — roots without accents and nasals
* `Upadesha.parse_undoes_notation` — reading undoes the notation, and what is read reads as itself
-/

namespace Vyakarana.Upadesha

variable {raw b t : Text} {c x k : Char} {m n : Marker} {markers : OrderedSet Marker}
  {kind : UpadeshaKind} {notated : Bool}

/-! ## Forms in it-notation -/

namespace Reading

/-- Only a final `r` can belong to an `i~r`. -/
theorem dropIrit_concat (hc : c ≠ 'r') (b : Text) (markers : OrderedSet Marker) :
    (⟨b ++ [c], markers⟩ : Reading).dropIrit = ⟨b ++ [c], markers⟩ := by
  unfold dropIrit
  rw [List.reverse_concat]
  split
  · next h => exact absurd (List.cons.inj h).1 hc
  · rfl

/-- A final letter that can be it is taken away if a marker is named for it. -/
theorem dropFinal_concat (hcan : finalCanBeIt kind notated c = true)
    (hletter : Marker.ofLetter? c = some m) (b : Text) (markers : OrderedSet Marker) :
    (⟨b ++ [c], markers⟩ : Reading).dropFinal kind notated = ⟨b, markers.insert m⟩ := by
  rw [dropFinal, List.getLast?_concat]
  dsimp only
  rw [if_pos hcan, hletter, List.dropLast_concat]

theorem dropNasals_cons (h : t.head? ≠ some '~') :
    dropNasals (c :: t) markers
      = ⟨c :: (dropNasals t markers).letters, (dropNasals t markers).markers⟩ := by
  cases t with
  | nil => rfl
  | cons d rest =>
    have hd : ¬(d == '~') = true := by simpa using h
    rw [dropNasals, if_neg hd]

/-- A nasal at the end is taken away, and recorded if a marker is named for it. -/
theorem dropNasals_concat (hb : '~' ∉ b) (hx : x ≠ '~') :
    dropNasals (b ++ [x, '~']) markers
      = ⟨b, markers.insertAll (Marker.ofNasalVowel? x).toList⟩ := by
  induction b with
  | nil => rfl
  | cons d rest ih =>
    rw [List.mem_cons, not_or] at hb
    have hhead : (rest ++ [x, '~']).head? ≠ some '~' := by
      cases rest with
      | nil => simpa using hx
      | cons e rest => simpa using fun he : e = '~' => hb.2 (he ▸ List.mem_cons_self)
    rw [List.cons_append, dropNasals_cons hhead, ih hb.2]

end Reading

/-- A form of the kind is read as an augment is. A root must not begin with an it-syllable. -/
def ReadAsAugment (kind : UpadeshaKind) (letters : Text) : Prop :=
  kind = .agama ∨ kind = .adesha
    ∨ kind = .dhatu ∧ ∀ it ∈ ["Yi".toList, "wu".toList, "qu".toList], ¬it <+: letters

/-- A nasal before the final letter makes the form notated, so that a final consonant can be it in
a root too. After it the nasals are looked at. -/
theorem analyse_of_readAsAugment (hk : k ≠ 'r') (hraw : raw.filter (!isAccent ·) = b ++ ['~', k])
    (hkind : ReadAsAugment kind (b ++ ['~', k])) :
    ∃ notated, Reading.finalCanBeIt kind notated k = Reading.finalCanBeIt .agama notated k
      ∧ analyse raw kind =
        let closed := (⟨b ++ ['~', k], ∅⟩ : Reading).dropFinal kind notated
        Reading.dropNasals closed.letters closed.markers := by
  rcases hkind with rfl | rfl | ⟨rfl, hinitial⟩
  · refine ⟨isNotated raw, rfl, ?_⟩
    rw [← hraw]
    rfl
  · refine ⟨isNotated raw, rfl, ?_⟩
    rw [← hraw]
    rfl
  · have hnotated : isNotated raw = true := by
      refine isNotated_of_mem (List.mem_filter.mp (?_ : '~' ∈ raw.filter (!isAccent ·))).1
      rw [hraw]
      simp
    have hconcat : b ++ ['~', k] = b ++ ['~'] ++ [k] := by simp
    have htrimmed : ((⟨b ++ ['~', k], ∅⟩ : Reading).dropIrit).dropInitialSyllable
        = ⟨b ++ ['~', k], ∅⟩ := by
      rw [hconcat, Reading.dropIrit_concat hk, ← hconcat]
      exact Reading.dropInitialSyllable_of_not_prefix hinitial
    refine ⟨true, rfl, ?_⟩
    rw [analyse_dhatu hnotated, hraw, htrimmed]

/-- The it-letter is taken away, and then the nasalised vowel, which is last by that time. -/
theorem analyse_notation (hb : '~' ∉ b) (hx : x ≠ '~') (hletter : Marker.ofLetter? k = some m)
    (hraw : raw.filter (!isAccent ·) = b ++ [x, '~', k])
    (hkind : ReadAsAugment kind (b ++ [x, '~', k])) :
    analyse raw kind = ⟨b, .ofList (m :: (Marker.ofNasalVowel? x).toList)⟩ := by
  obtain ⟨hvowel, hnasal⟩ := Marker.consonant_of_ofLetter? hletter
  have hk : k ≠ 'r' := by
    rintro rfl
    exact absurd hletter nofun
  have hsplit : b ++ [x, '~', k] = b ++ [x] ++ ['~', k] := by simp
  rw [hsplit] at hraw hkind
  obtain ⟨notated, hcan, hanalyse⟩ := analyse_of_readAsAugment hk hraw hkind
  have hfinal : Reading.finalCanBeIt kind notated k = true := by
    rw [hcan]
    simp [Reading.finalCanBeIt, hvowel, hnasal]
  have hclosed : (⟨b ++ [x] ++ ['~', k], ∅⟩ : Reading).dropFinal kind notated
      = ⟨b ++ [x, '~'], OrderedSet.ofList [m]⟩ := by
    have hconcat : b ++ [x] ++ ['~', k] = b ++ [x, '~'] ++ [k] := by simp
    rw [hconcat, Reading.dropFinal_concat hfinal hletter]
    rfl
  rw [hanalyse, hclosed]
  exact Reading.dropNasals_concat hb hx

theorem mem_ofNasalVowel? : n ∈ (Marker.ofNasalVowel? x).toList
    ↔ n = .adit ∧ x = 'a' ∨ n = .idit ∧ x = 'i' ∨ n = .udit ∧ x = 'u' := by
  unfold Marker.ofNasalVowel?
  split
  · simp
  · simp
  · simp
  · next ha hi hu => simp [show x ≠ 'a' from ha, show x ≠ 'i' from hi, show x ≠ 'u' from hu]

/-! ## Bare roots -/

theorem isNotated_eq_false_iff :
    isNotated raw = false ↔ ∀ c ∈ raw, isAccent c = false ∧ c ≠ '~' := by
  simp [isNotated]

/-- No letter of a root is it that is written without accents and nasals. -/
theorem parse_dhatu_of_bare (h : isNotated raw = false) :
    (parse raw .dhatu).value = raw ∧ (parse raw .dhatu).markers = ∅ := by
  have hbare := isNotated_eq_false_iff.mp h
  have hplain : raw.filter (!isAccent ·) = raw :=
    List.filter_eq_self.mpr fun c hc => by rw [(hbare c hc).1, Bool.not_false]
  have hclosed : (⟨raw, ∅⟩ : Reading).dropFinal .dhatu false = ⟨raw, ∅⟩ := by
    unfold Reading.dropFinal
    split
    · rfl
    · rw [if_neg (by simp [Reading.finalCanBeIt])]
  have hanalyse : analyse raw .dhatu = Reading.dropNasals raw ∅ := by
    rw [analyse, h, hplain]
    show Reading.dropNasals ((⟨raw, ∅⟩ : Reading).dropFinal .dhatu false).letters
      ((⟨raw, ∅⟩ : Reading).dropFinal .dhatu false).markers = _
    rw [hclosed]
  rw [parse, hanalyse, Reading.dropNasals_of_not_mem fun hmem => (hbare _ hmem).2 rfl]
  exact ⟨rfl, rfl⟩

/-! ### What is left of a root -/

namespace Reading

variable {r : Reading}

theorem mem_of_mem_dropIrit (h : c ∈ r.dropIrit.letters) : c ∈ r.letters := by
  unfold dropIrit at h
  split at h
  · next rest hreverse =>
    have hmem : c ∈ r.letters.reverse := by
      rw [hreverse]
      simp only [List.mem_cons]
      exact Or.inr (Or.inr (Or.inr (List.mem_reverse.mp h)))
    exact List.mem_reverse.mp hmem
  · exact h

theorem mem_of_mem_dropInitialSyllable (h : c ∈ r.dropInitialSyllable.letters) :
    c ∈ r.letters := by
  unfold dropInitialSyllable at h
  split at h
  case h_4 => exact h
  all_goals
    next rest hletters =>
    rw [hletters]
    exact List.mem_cons_of_mem _ (List.mem_cons_of_mem _ h)

theorem mem_of_mem_dropNasals (h : c ∈ (dropNasals t markers).letters) : c ∈ t := by
  fun_induction dropNasals t markers with
  | case1 => exact h
  | case2 => exact h
  | case3 d e rest markers he ih => exact List.mem_cons_of_mem _ (List.mem_cons_of_mem _ (ih h))
  | case4 d e rest markers he r ih =>
    rcases List.mem_cons.mp h with rfl | h
    · exact List.mem_cons_self
    · exact List.mem_cons_of_mem _ (ih h)

end Reading

/-- The accents are gone before any letter is looked at, and no pass puts a letter in. -/
theorem not_isAccent_of_mem_parse_dhatu (h : c ∈ (parse raw .dhatu).value) :
    isAccent c = false := by
  have hplain : c ∈ raw.filter (!isAccent ·) := by
    have hclosed := Reading.mem_of_mem_dropFinal (Reading.mem_of_mem_dropNasals h)
    split at hclosed
    · exact Reading.mem_of_mem_dropIrit (Reading.mem_of_mem_dropInitialSyllable hclosed)
    · exact hclosed
  simpa using (List.mem_filter.mp hplain).2

/-! ## The notation undone -/

/-- **Reading undoes the it-notation.** Of a sequence of sounds that is taught with a nasalised
vowel and an it-letter after it, and with accents anywhere, it gives the sounds and the markers of
the two. A root without accents and nasals reads as itself, without markers. So does what was read
of a root, unless a nasal mark is left in it. -/
theorem parse_undoes_notation :
    (∀ {raw b : Text} {x k : Char} {m : Marker} {kind : UpadeshaKind}, isSounding b = true →
      isVowelChar x = true → Marker.ofLetter? k = some m →
      raw.filter (!isAccent ·) = b ++ [x, '~', k] → ReadAsAugment kind (b ++ [x, '~', k]) →
      (parse raw kind).value = b ∧ ∀ n, n ∈ (parse raw kind).markers
        ↔ n = m ∨ n = .adit ∧ x = 'a' ∨ n = .idit ∧ x = 'i' ∨ n = .udit ∧ x = 'u')
    ∧ (∀ {raw : Text}, (∀ c ∈ raw, isAccent c = false ∧ c ≠ '~') →
      (parse raw .dhatu).value = raw ∧ (parse raw .dhatu).markers = ∅)
    ∧ ∀ {raw : Text}, '~' ∉ (parse raw .dhatu).value →
      let again := parse (parse raw .dhatu).value .dhatu
      again.value = (parse raw .dhatu).value ∧ again.markers = ∅ := by
  refine ⟨fun hb hx hletter hraw hkind => ?_, fun hbare => ?_, fun hnasal => ?_⟩
  · next raw b x k m kind =>
    have hnasal : x ≠ '~' := by
      rintro rfl
      exact absurd hx (by decide)
    rw [parse, analyse_notation (not_mem_of_isSounding hb (by decide)) hnasal hletter hraw hkind]
    refine ⟨rfl, fun n => ?_⟩
    show n ∈ (∅ : OrderedSet Marker).insertAll (m :: (Marker.ofNasalVowel? x).toList) ↔ _
    rw [OrderedSet.mem_insertAll, List.mem_cons, mem_ofNasalVowel?]
    exact or_iff_right (OrderedSet.not_mem_empty n)
  · exact parse_dhatu_of_bare (isNotated_eq_false_iff.mpr hbare)
  · refine parse_dhatu_of_bare (isNotated_eq_false_iff.mpr fun c hc => ?_)
    refine ⟨not_isAccent_of_mem_parse_dhatu hc, ?_⟩
    rintro rfl
    exact hnasal hc

/-- The augment vuk and the root gamḷ, each with accents, the latter with an it-letter after it. The
root kṛ is taught as `qukf\Y`, and what is read of that reads as itself. -/
theorem parse_undoes_notation_vuk :
    (parse "vu\\~^k".toList .agama).value = "v".toList
      ∧ .udit ∈ (parse "vu\\~^k".toList .agama).markers
      ∧ (parse "ga\\mx~p".toList .dhatu).value = "gam".toList
      ∧ .adit ∉ (parse "ga\\mx~p".toList .dhatu).markers
      ∧ (parse "gam".toList .dhatu).value = "gam".toList
      ∧ (parse "qukf\\Y".toList .dhatu).value = "kf".toList
      ∧ (parse (parse "qukf\\Y".toList .dhatu).value .dhatu).value
        = (parse "qukf\\Y".toList .dhatu).value := by
  obtain ⟨htaught, hbare, hagain⟩ := parse_undoes_notation
  have hvuk : "vu\\~^k".toList.filter (!isAccent ·) = "v".toList ++ ['u', '~', 'k'] := by decide
  have hgam : "ga\\mx~p".toList.filter (!isAccent ·) = "gam".toList ++ ['x', '~', 'p'] := by decide
  obtain ⟨hv, hvMarkers⟩ := htaught (by decide) (by decide) rfl hvuk (Or.inl rfl)
  obtain ⟨hg, hgMarkers⟩ :=
    htaught (by decide) (by decide) rfl hgam (Or.inr (Or.inr ⟨rfl, by decide⟩))
  have hplain : ∀ c ∈ "gam".toList, isAccent c = false ∧ c ≠ '~' := by simp [isAccent]
  refine ⟨hv, (hvMarkers .udit).mpr (by simp), hg, fun hmem => ?_, (hbare hplain).1, by decide,
    (hagain (by decide)).1⟩
  simpa using (hgMarkers .adit).mp hmem

end Vyakarana.Upadesha
