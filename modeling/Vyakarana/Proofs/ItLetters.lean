import Vyakarana.Upadesha

/-!
# It-letters

A form is read in passes, each of which takes letters away from what the passes before it left. What
a pass does to letters of a known shape is said here pass by pass, and then for whole forms.

* `Upadesha.Reading.dropNasals_of_not_mem`, `Upadesha.Reading.dropFinal_dhatu` — single passes
* `Upadesha.analyse_dhatu_irit` — a root taught with `i~r`
* `Upadesha.parse_irit` — its value and markers: the `i~r` is taken away before the final letter is
  looked at, so a final consonant of the root is read as one that was taught last
-/

namespace Vyakarana

variable {raw b t : Text} {c : Char} {m : Marker} {markers : OrderedSet Marker}

/-! ## Letters -/

namespace Upadesha

/-- What is no sound does not occur in a sequence of sounds. -/
theorem not_mem_of_isSounding (h : isSounding t = true) (hc : Sound.ofChar? c = none) : c ∉ t := by
  intro hmem
  have hsound := List.all_eq_true.mp h c hmem
  rw [hc] at hsound
  exact Bool.false_ne_true hsound

/-- A form with a nasal is notated. -/
theorem isNotated_of_mem (h : '~' ∈ raw) : isNotated raw = true :=
  List.any_eq_true.mpr ⟨'~', h, rfl⟩

end Upadesha

/-- It-letters are consonants. -/
theorem Marker.consonant_of_ofLetter? (h : ofLetter? c = some m) :
    isVowelChar c = false ∧ c ≠ '~' := by
  unfold ofLetter? at h
  split at h
  all_goals first | decide | exact absurd h nofun

namespace Upadesha

/-! ## Single passes -/

namespace Reading

theorem dropIrit_append (b : Text) (markers : OrderedSet Marker) :
    (⟨b ++ "i~r".toList, markers⟩ : Reading).dropIrit = ⟨b, markers.insert .irit⟩ := by
  have hreverse : (b ++ "i~r".toList).reverse = 'r' :: '~' :: 'i' :: b.reverse :=
    List.reverse_append
  unfold dropIrit
  rw [hreverse]
  show (⟨b.reverse.reverse, markers.insert .irit⟩ : Reading) = _
  rw [List.reverse_reverse]

theorem dropInitialSyllable_of_not_prefix
    (h : ∀ it ∈ ["Yi".toList, "wu".toList, "qu".toList], ¬it <+: b) :
    (⟨b, markers⟩ : Reading).dropInitialSyllable = ⟨b, markers⟩ := by
  unfold dropInitialSyllable
  split
  · next rest hletters => exact absurd ⟨rest, hletters.symm⟩ (h "Yi".toList (by simp))
  · next rest hletters => exact absurd ⟨rest, hletters.symm⟩ (h "wu".toList (by simp))
  · next rest hletters => exact absurd ⟨rest, hletters.symm⟩ (h "qu".toList (by simp))
  · rfl

/-- The final letter of a notated root is it if a marker is named for it. -/
theorem dropFinal_dhatu (hb : b ≠ []) (markers : OrderedSet Marker) :
    (⟨b, markers⟩ : Reading).dropFinal .dhatu true
      = match Marker.ofLetter? (b.getLast hb) with
        | some m => ⟨b.dropLast, markers.insert m⟩
        | none => ⟨b, markers⟩ := by
  rw [dropFinal, List.getLast?_eq_some_getLast hb]
  cases hletter : Marker.ofLetter? (b.getLast hb) with
  | none =>
    dsimp only
    rw [hletter, ite_self]
  | some m =>
    obtain ⟨hvowel, hnasal⟩ := Marker.consonant_of_ofLetter? hletter
    dsimp only
    rw [hletter, if_pos (by simp [finalCanBeIt, hvowel, hnasal])]

theorem mem_of_mem_dropFinal {r : Reading} {kind : UpadeshaKind} {notated : Bool}
    (h : c ∈ (r.dropFinal kind notated).letters) : c ∈ r.letters := by
  unfold dropFinal at h
  split at h
  · exact h
  split at h
  · split at h
    · exact List.dropLast_subset _ h
    · exact h
  · exact h

/-- Without nasals nothing is taken away. -/
theorem dropNasals_of_not_mem (h : '~' ∉ t) : dropNasals t markers = ⟨t, markers⟩ := by
  fun_induction dropNasals t markers with
  | case1 => rfl
  | case2 => rfl
  | case3 c d rest markers hd ih =>
    rw [eq_of_beq hd] at h
    exact absurd (by simp) h
  | case4 c d rest markers hd r ih =>
    have hr : r = ⟨d :: rest, markers⟩ := ih fun hmem => h (List.mem_cons_of_mem c hmem)
    rw [hr]

end Reading

/-! ## Roots taught with irit -/

/-- The passes over a notated root. -/
theorem analyse_dhatu (h : isNotated raw = true) :
    analyse raw .dhatu =
      let trimmed := (⟨raw.filter (!isAccent ·), ∅⟩ : Reading).dropIrit.dropInitialSyllable
      let closed := trimmed.dropFinal .dhatu true
      Reading.dropNasals closed.letters closed.markers := by
  rw [analyse, h]
  rfl

/-- The root is read as if it had been taught without the `i~r`, as a notated form. -/
theorem analyse_dhatu_irit (hsounds : isSounding b = true)
    (hinitial : ∀ it ∈ ["Yi".toList, "wu".toList, "qu".toList], ¬it <+: b)
    (hraw : raw.filter (!isAccent ·) = b ++ "i~r".toList) :
    analyse raw .dhatu = (⟨b, OrderedSet.ofList [.irit]⟩ : Reading).dropFinal .dhatu true := by
  have hnotated : isNotated raw = true := by
    refine isNotated_of_mem (List.mem_filter.mp (?_ : '~' ∈ raw.filter (!isAccent ·))).1
    rw [hraw]
    exact List.mem_append_right b (by decide)
  have htrimmed : ((⟨raw.filter (!isAccent ·), ∅⟩ : Reading).dropIrit).dropInitialSyllable
      = ⟨b, OrderedSet.ofList [.irit]⟩ := by
    rw [hraw, Reading.dropIrit_append]
    exact Reading.dropInitialSyllable_of_not_prefix hinitial
  -- the nasals went with the `i~r`, since no sound of the root is written with `~`
  have hnasal : '~' ∉ ((⟨b, OrderedSet.ofList [.irit]⟩ : Reading).dropFinal .dhatu true).letters :=
    fun hmem => not_mem_of_isSounding hsounds (by decide) (Reading.mem_of_mem_dropFinal hmem)
  rw [analyse_dhatu hnotated, htrimmed]
  exact Reading.dropNasals_of_not_mem hnasal

/-- **A root taught with `i~r`** has the value that stands before it and the marker irit, wherever
accents are written, if no marker is named for its last sound. Otherwise that sound is taken for an
it-letter: the value loses it, and its marker is added. -/
theorem parse_irit (hb : b ≠ []) (hsounds : isSounding b = true)
    (hinitial : ∀ it ∈ ["Yi".toList, "wu".toList, "qu".toList], ¬it <+: b)
    (hraw : raw.filter (!isAccent ·) = b ++ "i~r".toList) :
    (Marker.ofLetter? (b.getLast hb) = none →
        (parse raw .dhatu).value = b ∧ (parse raw .dhatu).markers = .ofList [.irit])
      ∧ ∀ m, Marker.ofLetter? (b.getLast hb) = some m →
        (parse raw .dhatu).value = b.dropLast ∧ (parse raw .dhatu).markers = .ofList [.irit, m] := by
  rw [parse, analyse_dhatu_irit hsounds hinitial hraw, Reading.dropFinal_dhatu hb]
  constructor
  · intro hletter
    rw [hletter]
    exact ⟨rfl, rfl⟩
  · intro m hletter
    rw [hletter]
    exact ⟨rfl, rfl⟩

/-- The root Bid, with an accent, and the root ric, which loses its last sound. -/
theorem parse_irit_bhid :
    (parse "Bi\\di~r".toList .dhatu).value = "Bid".toList
      ∧ (parse "Bi\\di~r".toList .dhatu).markers = .ofList [.irit]
      ∧ (parse "rici~r".toList .dhatu).value = "ri".toList
      ∧ (parse "rici~r".toList .dhatu).markers = .ofList [.irit, .cit] := by
  have hbhid : "Bi\\di~r".toList.filter (!isAccent ·) = "Bid".toList ++ "i~r".toList := by decide
  have hric : "rici~r".toList.filter (!isAccent ·) = "ric".toList ++ "i~r".toList := by decide
  obtain ⟨hvalue, hmarkers⟩ :=
    (parse_irit (by decide) (by decide) (by decide) hbhid).1 (by decide)
  obtain ⟨hvalue', hmarkers'⟩ :=
    (parse_irit (by decide) (by decide) (by decide) hric).2 .cit (by decide)
  exact ⟨hvalue, hmarkers, hvalue', hmarkers'⟩

/-- A final consonant of the root can be taken for an it-letter. -/
theorem parse_irit_ne_ric :
    "ric".toList ≠ [] ∧ isSounding "ric".toList = true
      ∧ (∀ it ∈ ["Yi".toList, "wu".toList, "qu".toList], ¬it <+: "ric".toList)
      ∧ "rici~r".toList.filter (!isAccent ·) = "ric".toList ++ "i~r".toList
      ∧ (parse "rici~r".toList .dhatu).value ≠ "ric".toList
      ∧ (parse "rici~r".toList .dhatu).markers ≠ .ofList [.irit] := by
  decide

end Upadesha

end Vyakarana
