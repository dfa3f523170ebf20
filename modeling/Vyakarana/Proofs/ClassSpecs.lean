import Mathlib.Data.List.Basic
import Mathlib.Data.List.Forall2
import Mathlib.Data.List.Nodup
import Vyakarana.SoundClass

/-!
# Specifications of classes

However a class of sounds is built, it has no sound twice, so it is known by its text. A
specification names the ordered union of what its items name: each sound at its first occurrence.

* `Text.words_append_gap` — the items of two specifications with white space between them
* `SoundClass.sounds_extend` — pushing sounds keeps first occurrences
* `SoundClass.Built`, `SoundClass.Built.nodup` — the ways to build a class
* `SoundClass.ofItems_of_all`, `SoundClass.ofItems_of_first` — reading items from left to right
* `SoundClass.exists_ofItem?_eq`, `SoundClass.read_of_ne_nil` — every item names some sound, so only
  a specification without items is refused for naming none
* `SoundClass.read_is_ordered_union` — what a specification names
-/

namespace Vyakarana

/-! ## Words between white space -/

namespace Text

variable {t w gap : Text} {c : Char}

theorem words_cons_of_blank (hc : isBlank c = true) (t : Text) : words (c :: t) = words t := by
  rw [words, if_pos hc]

/-- A text that begins inside a word has one. -/
theorem words_ne_nil (h : beginsWord t = true) : words t ≠ [] := by
  cases t with
  | nil => simp [beginsWord] at h
  | cons c t =>
    rw [words, if_neg (by simpa [beginsWord] using h)]
    split
    · cases words t <;> simp [extendWord]
    · simp

theorem extendWord_append {ws : List Text} (h : ws ≠ []) (c : Char) (vs : List Text) :
    extendWord c (ws ++ vs) = extendWord c ws ++ vs := by
  cases ws with
  | nil => exact absurd rfl h
  | cons w ws => rfl

/-- White space parts the words before it from those after it. -/
theorem words_append_blank (hc : isBlank c = true) (t u : Text) :
    words (t ++ c :: u) = words t ++ words u := by
  induction t with
  | nil => rw [List.nil_append, words_cons_of_blank hc, words, List.nil_append]
  | cons d t ih =>
    have hbegins : beginsWord (t ++ c :: u) = beginsWord t := by
      cases t with
      | nil => simp [beginsWord, hc]
      | cons e t => rfl
    rw [List.cons_append, words, words, hbegins, ih]
    split
    · rfl
    · split
      · next hword => exact extendWord_append (words_ne_nil hword) d (words u)
      · rfl

theorem words_append_gap (hne : gap ≠ []) (hgap : ∀ c ∈ gap, isBlank c = true) (t u : Text) :
    words (t ++ gap ++ u) = words t ++ words u := by
  induction gap generalizing t with
  | nil => exact absurd rfl hne
  | cons c gap ih =>
    have hc := hgap c List.mem_cons_self
    cases gap with
    | nil => rw [List.append_assoc, List.singleton_append, words_append_blank hc]
    | cons d gap =>
      have hmore := ih (List.cons_ne_nil d gap) (fun x hx => hgap x (List.mem_cons_of_mem c hx)) []
      rw [List.nil_append, words, List.nil_append] at hmore
      rw [List.append_assoc, List.cons_append, words_append_blank hc, hmore]

/-- A word is not empty and has no white space in it. -/
theorem solid_of_mem_words (h : w ∈ words t) : w ≠ [] ∧ ∀ c ∈ w, isBlank c = false := by
  induction t generalizing w with
  | nil => simp [words] at h
  | cons d t ih =>
    rw [words] at h
    split at h
    · exact ih h
    · next hd =>
      have hsolid : isBlank d = false := Bool.eq_false_iff.mpr hd
      split at h
      · next hword =>
        cases hwords : words t with
        | nil => exact absurd hwords (words_ne_nil hword)
        | cons v vs =>
          rw [hwords, extendWord] at h
          rcases List.mem_cons.mp h with rfl | h
          · have hv := ih (w := v) (by rw [hwords]; exact List.mem_cons_self)
            exact ⟨List.cons_ne_nil d v, List.forall_mem_cons.mpr ⟨hsolid, hv.2⟩⟩
          · exact ih (by rw [hwords]; exact List.mem_cons_of_mem v h)
      · rcases List.mem_cons.mp h with rfl | h
        · exact ⟨List.cons_ne_nil d [], by simpa using hsolid⟩
        · exact ih h

theorem words_of_solid (hne : w ≠ []) (hw : ∀ c ∈ w, isBlank c = false) : words w = [w] := by
  induction w with
  | nil => exact absurd rfl hne
  | cons c w ih =>
    obtain ⟨hc, hw⟩ := List.forall_mem_cons.mp hw
    rw [words, if_neg (by simp [hc])]
    cases w with
    | nil => rfl
    | cons d w =>
      rw [if_pos (by simp [beginsWord, hw d List.mem_cons_self]), ih (List.cons_ne_nil d w) hw]
      rfl

/-- A word of a text is all that it has as a text of its own. -/
theorem words_of_mem_words (h : w ∈ words t) : words w = [w] :=
  words_of_solid (solid_of_mem_words h).1 (solid_of_mem_words h).2

end Text

/-! ## First occurrences -/

namespace SoundClass

variable {cls cls' : SoundClass} {sounds : List Sound} {σ : Sound}

theorem eraseDups_of_nodup (h : sounds.Nodup) : sounds.eraseDups = sounds := by
  induction sounds with
  | nil => rfl
  | cons σ sounds ih =>
    obtain ⟨hσ, hsounds⟩ := List.nodup_cons.mp h
    have hkept : sounds.filter (fun τ => !τ == σ) = sounds := by
      refine List.filter_eq_self.mpr fun τ hτ => ?_
      have hne : τ ≠ σ := fun hsame => hσ (hsame ▸ hτ)
      simpa using hne
    rw [List.eraseDups_cons, hkept, ih hsounds]

theorem nodup_push (h : cls.sounds.Nodup) (σ : Sound) : (cls.push σ).sounds.Nodup := by
  unfold push
  split
  · exact h
  · next hnew =>
    rw [← List.concat_eq_append]
    exact h.concat hnew

theorem sounds_push (h : cls.sounds.Nodup) (σ : Sound) :
    (cls.push σ).sounds = (cls.sounds ++ [σ]).eraseDups := by
  rw [List.eraseDups_append, eraseDups_of_nodup h]
  unfold push
  split
  · next hold => simp [List.removeAll, hold]
  · next hnew => simp [List.removeAll, hnew, List.eraseDups_cons]

theorem nodup_extend (h : cls.sounds.Nodup) (sounds : List Sound) :
    (cls.extend sounds).sounds.Nodup := by
  induction sounds generalizing cls with
  | nil => exact h
  | cons σ sounds ih => exact ih (nodup_push h σ)

/-- Sounds that are pushed are kept at their first occurrences. -/
theorem sounds_extend (h : cls.sounds.Nodup) (sounds : List Sound) :
    (cls.extend sounds).sounds = (cls.sounds ++ sounds).eraseDups := by
  induction sounds generalizing cls with
  | nil =>
    rw [List.append_nil, eraseDups_of_nodup h]
    rfl
  | cons σ sounds ih =>
    have hpush := nodup_push h σ
    have hnext : (cls.extend (σ :: sounds)).sounds = ((cls.push σ).sounds ++ sounds).eraseDups :=
      ih hpush
    have hcut : cls.sounds ++ σ :: sounds = (cls.sounds ++ [σ]) ++ sounds := by simp
    have hrest : sounds.removeAll (cls.push σ).sounds = sounds.removeAll (cls.sounds ++ [σ]) := by
      refine List.filter_congr fun τ _ => ?_
      simp only [List.elem_eq_mem, sounds_push h, List.mem_eraseDups]
    rw [hnext, hcut, List.eraseDups_append, List.eraseDups_append, eraseDups_of_nodup hpush, hrest,
      sounds_push h]

theorem mem_push {τ : Sound} : τ ∈ (cls.push σ).sounds ↔ τ ∈ cls.sounds ∨ τ = σ := by
  unfold push
  split
  · next hold =>
    refine ⟨Or.inl, fun h => h.elim id ?_⟩
    rintro rfl
    exact hold
  · simp

theorem mem_extend {τ : Sound} :
    τ ∈ (cls.extend sounds).sounds ↔ τ ∈ cls.sounds ∨ τ ∈ sounds := by
  induction sounds generalizing cls with
  | nil => simp [extend]
  | cons σ sounds ih =>
    have hnext : cls.extend (σ :: sounds) = (cls.push σ).extend sounds := rfl
    rw [hnext, ih, mem_push, or_assoc, List.mem_cons]

theorem extend_append (cls : SoundClass) (sounds more : List Sound) :
    cls.extend (sounds ++ more) = (cls.extend sounds).extend more := List.foldl_append

theorem extend_push (cls cls' : SoundClass) (σ : Sound) :
    cls.extend (cls'.push σ).sounds = (cls.extend cls'.sounds).push σ := by
  by_cases hold : σ ∈ cls'.sounds
  · have hmem : σ ∈ (cls.extend cls'.sounds).sounds := mem_extend.mpr (Or.inr hold)
    rw [push, if_pos hold, push, if_pos hmem]
  · rw [push, if_neg hold, extend_append]
    rfl

/-- To push what comes of pushing is to push all. -/
theorem extend_extend (cls cls' : SoundClass) (sounds : List Sound) :
    cls.extend (cls'.extend sounds).sounds = (cls.extend cls'.sounds).extend sounds := by
  induction sounds generalizing cls' with
  | nil => rfl
  | cons σ sounds ih =>
    have hnext : cls'.extend (σ :: sounds) = (cls'.push σ).extend sounds := rfl
    rw [hnext, ih, extend_push]
    rfl

theorem nodup_ofSounds (sounds : List Sound) : (ofSounds sounds).sounds.Nodup :=
  nodup_extend List.nodup_nil sounds

theorem union_ofSounds (sounds more : List Sound) :
    (ofSounds sounds).union (ofSounds more) = ofSounds (sounds ++ more) := by
  rw [union, ofSounds, ofSounds, extend_extend, ofSounds, extend_append]
  rfl

/-- Sounds make a class that has a sound. -/
theorem ofSounds_ne_nil (h : sounds ≠ []) : (ofSounds sounds).sounds ≠ [] := by
  obtain ⟨σ, hσ⟩ := List.exists_mem_of_ne_nil sounds h
  exact List.ne_nil_of_mem (mem_extend.mpr (Or.inr hσ))

theorem sounds_ofSounds (sounds : List Sound) : (ofSounds sounds).sounds = sounds.eraseDups :=
  sounds_extend List.nodup_nil sounds

theorem ofSounds_of_nodup (h : cls.sounds.Nodup) : ofSounds cls.sounds = cls := by
  have hsounds := (sounds_ofSounds cls.sounds).trans (eraseDups_of_nodup h)
  cases cls
  exact congrArg SoundClass.mk hsounds

/-! ## Texts of classes -/

theorem filterMap_text (cls : SoundClass) : cls.text.filterMap Sound.ofChar? = cls.sounds := by
  rw [text, List.filterMap_map]
  have hback : Sound.ofChar? ∘ Sound.toChar = some := funext Sound.ofChar?_toChar
  rw [hback, List.filterMap_some]

theorem isSome_of_mem_text {c : Char} (h : c ∈ cls.text) : (Sound.ofChar? c).isSome = true := by
  obtain ⟨σ, -, rfl⟩ := List.mem_map.mp h
  rw [Sound.ofChar?_toChar]
  rfl

theorem nodup_text (h : cls.sounds.Nodup) : cls.text.Nodup :=
  h.map fun _ _ => Sound.toChar_injective

/-- A class is known by its text. -/
theorem ofText_text (h : cls.sounds.Nodup) : ofText cls.text = cls := by
  rw [ofText, filterMap_text, ofSounds_of_nodup h]

/-! ## Items -/

variable {item : Text} {items : List Text} {classes : List SoundClass}

theorem nodup_varga (v : Varga) : v.sounds.sounds.Nodup := by
  cases v <;> decide

theorem exists_homogeneous_eq (σ : Sound) :
    ∃ sounds, sounds ≠ [] ∧ homogeneous σ = ofSounds sounds := by
  unfold homogeneous
  split <;> exact ⟨_, List.cons_ne_nil _ _, rfl⟩

theorem exists_varga_eq (v : Varga) : ∃ sounds, sounds ≠ [] ∧ v.sounds = ofSounds sounds :=
  ⟨v.sounds.sounds, by cases v <;> decide, (ofSounds_of_nodup (nodup_varga v)).symm⟩

/-- An abbreviation covers the sound that it starts from. -/
theorem first_mem_soundsBetween (p : Pratyahara) :
    p.first ∈ soundsBetween p.first p.closing maheshvaraSutras := by
  cases p <;> decide

theorem exists_pratyahara_eq (p : Pratyahara) :
    ∃ sounds, sounds ≠ [] ∧ p.sounds = ofSounds sounds := by
  have hfirst : p.first ∈ (soundsBetween p.first p.closing maheshvaraSutras).flatMap
      fun σ => σ :: σ.dirgha?.toList :=
    List.mem_flatMap.mpr ⟨p.first, first_mem_soundsBetween p, List.mem_cons_self⟩
  exact ⟨_, List.ne_nil_of_mem hfirst, rfl⟩

theorem exists_ofLetters?_eq (h : ofLetters? item = some cls) :
    ∃ sounds, sounds ≠ [] ∧ cls = ofSounds sounds := by
  unfold ofLetters? at h
  split at h
  · obtain ⟨σ, -, rfl⟩ := Option.map_eq_some_iff.mp h
    exact exists_homogeneous_eq σ
  · obtain ⟨σ, -, rfl⟩ := Option.map_eq_some_iff.mp h
    exact ⟨[σ], List.cons_ne_nil σ [], rfl⟩
  · simp at h

/-- What an item names is the class of some sounds, of one at least. -/
theorem exists_ofItem?_eq (h : ofItem? item = some cls) :
    ∃ sounds, sounds ≠ [] ∧ cls = ofSounds sounds := by
  unfold ofItem? at h
  split at h
  · rw [← Option.some.inj h]
    exact exists_pratyahara_eq _
  · split at h
    · rw [← Option.some.inj h]
      exact exists_varga_eq _
    · exact exists_ofLetters?_eq h

theorem nodup_ofItem? (h : ofItem? item = some cls) : cls.sounds.Nodup := by
  obtain ⟨sounds, -, rfl⟩ := exists_ofItem?_eq h
  exact nodup_ofSounds sounds

theorem ne_nil_of_ofItem? (h : ofItem? item = some cls) : cls.sounds ≠ [] := by
  obtain ⟨sounds, hne, rfl⟩ := exists_ofItem?_eq h
  exact ofSounds_ne_nil hne

/-! ## Lists of items -/

/-- Each of the items names the class at its place. -/
def AllName (items : List Text) (classes : List SoundClass) : Prop :=
  List.Forall₂ (fun item c => ofItem? item = some c) items classes

theorem AllName.exists_of_mem (h : AllName items classes) (hitem : item ∈ items) :
    ∃ c, ofItem? item = some c := by
  induction h with
  | nil => simp at hitem
  | @cons first c _ _ hfirst _ ih =>
    rcases List.mem_cons.mp hitem with rfl | hitem
    · exact ⟨c, hfirst⟩
    · exact ih hitem

/-- All items name classes, or some item is the first that names none. -/
theorem allName_or_first (items : List Text) :
    (∃ classes, AllName items classes)
      ∨ ∃ before item after classes, items = before ++ item :: after ∧ AllName before classes
        ∧ ofItem? item = none := by
  induction items with
  | nil => exact Or.inl ⟨[], .nil⟩
  | cons item items ih =>
    cases hitem : ofItem? item with
    | none => exact Or.inr ⟨[], item, items, [], rfl, .nil, hitem⟩
    | some c =>
      rcases ih with ⟨classes, hall⟩ | ⟨before, bad, after, classes, rfl, hall, hbad⟩
      · exact Or.inl ⟨c :: classes, .cons hitem hall⟩
      · exact Or.inr ⟨item :: before, bad, after, c :: classes, rfl, .cons hitem hall, hbad⟩

/-- If all items name classes, their sounds are pushed in order. -/
theorem ofItems_of_all (h : AllName items classes) (cls : SoundClass) :
    ofItems cls items = .ok (cls.extend (classes.flatMap SoundClass.sounds)) := by
  induction h generalizing cls with
  | nil => rfl
  | cons hitem _ ih =>
    rw [ofItems, hitem, List.flatMap_cons, extend_append]
    exact ih _

/-- The first item that names no class is the error. -/
theorem ofItems_of_first (h : AllName items classes) (hitem : ofItem? item = none)
    (cls : SoundClass) (after : List Text) :
    ofItems cls (items ++ item :: after) = .error ⟨item⟩ := by
  induction h generalizing cls with
  | nil => rw [List.nil_append, ofItems, hitem]
  | cons hfirst _ ih =>
    rw [List.cons_append, ofItems, hfirst]
    exact ih _

/-- What items name together has a sound, unless there are no items. -/
theorem ne_nil_of_ofItems (hne : items ≠ []) (h : ofItems cls items = .ok cls') :
    cls'.sounds ≠ [] := by
  rcases allName_or_first items with
    ⟨classes, hall⟩ | ⟨before, bad, after, classes, rfl, hall, hbad⟩
  · rw [ofItems_of_all hall] at h
    obtain ⟨σ, hσ⟩ : ∃ σ, σ ∈ classes.flatMap SoundClass.sounds := by
      cases hall with
      | nil => exact absurd rfl hne
      | cons hfirst _ =>
        obtain ⟨σ, hσ⟩ := List.exists_mem_of_ne_nil _ (ne_nil_of_ofItem? hfirst)
        exact ⟨σ, List.mem_flatMap.mpr ⟨_, List.mem_cons_self, hσ⟩⟩
    rw [← Except.ok.inj h]
    exact List.ne_nil_of_mem (mem_extend.mpr (Or.inr hσ))
  · rw [ofItems_of_first hall hbad] at h
    simp at h

/-! ## Reading -/

variable {spec : Text}

theorem read_of_nil (h : spec.words = []) : read spec = .error ⟨spec⟩ := by
  rw [read, h]
  rfl

/-- Only a specification without items names no sound. -/
theorem read_of_ne_nil (h : spec.words ≠ []) : read spec = ofItems empty spec.words := by
  unfold read
  cases hread : ofItems empty spec.words with
  | error e => rfl
  | ok cls => simp [ne_nil_of_ofItems h hread]

/-- An item by itself names what it names among others. -/
theorem read_item (h : item.words = [item]) :
    read item = match ofItem? item with
      | some c => .ok c
      | none => .error ⟨item⟩ := by
  rw [read_of_ne_nil (by simp [h]), h, ofItems]
  cases hitem : ofItem? item with
  | none => rfl
  | some c => exact congrArg Except.ok (ofSounds_of_nodup (nodup_ofItem? hitem))

theorem read_item_eq_ok_iff (h : item.words = [item]) :
    read item = .ok cls ↔ ofItem? item = some cls := by
  rw [read_item h]
  cases ofItem? item <;> simp

/-- The classes that the items of a specification name are those that they name alone. -/
theorem allName_words_iff :
    AllName spec.words classes
      ↔ List.Forall₂ (fun item c => read item = .ok c) spec.words classes := by
  have hitems : ∀ item ∈ spec.words, item.words = [item] := fun _ => Text.words_of_mem_words
  unfold AllName
  generalize spec.words = items at hitems
  induction items generalizing classes with
  | nil => simp
  | cons item items ih =>
    obtain ⟨hitem, hitems⟩ := List.forall_mem_cons.mp hitems
    cases classes with
    | nil => simp
    | cons c classes =>
      rw [List.forall₂_cons, List.forall₂_cons, read_item_eq_ok_iff hitem]
      exact and_congr_right fun _ => ih hitems

/-- A specification is read if it has items and each of them is read alone. It names the ordered
union of what they name. -/
theorem read_of_all (hne : spec.words ≠ []) (h : AllName spec.words classes) :
    read spec = .ok (ofSounds (classes.flatMap SoundClass.sounds)) := by
  rw [read_of_ne_nil hne]
  exact ofItems_of_all h empty

/-- What is read has items, all of which name classes. -/
theorem read_eq_ok_iff : read spec = .ok cls ↔ spec.words ≠ [] ∧ ∃ classes,
    AllName spec.words classes ∧ cls = ofSounds (classes.flatMap SoundClass.sounds) := by
  constructor
  · intro h
    have hne : spec.words ≠ [] := by
      intro hnil
      rw [read_of_nil hnil] at h
      simp at h
    rcases allName_or_first spec.words with
      ⟨classes, hall⟩ | ⟨before, item, after, classes, hsplit, hall, hitem⟩
    · rw [read_of_all hne hall] at h
      exact ⟨hne, classes, hall, (Except.ok.inj h).symm⟩
    · rw [read_of_ne_nil hne, hsplit, ofItems_of_first hall hitem] at h
      simp at h
  · rintro ⟨hne, classes, hall, rfl⟩
    exact read_of_all hne hall

/-- A specification without items is the error itself; any other has as error the first item that is
not read alone. -/
theorem read_eq_error {e : UnknownSoundClass} (h : read spec = .error e) :
    (spec.words = [] ∧ e.text = spec)
      ∨ ∃ before item after, spec.words = before ++ item :: after
        ∧ (∀ w ∈ before, ∃ c, read w = .ok c) ∧ (∀ c, read item ≠ .ok c) ∧ e.text = item := by
  by_cases hne : spec.words = []
  · rw [read_of_nil hne] at h
    exact Or.inl ⟨hne, by rw [← Except.error.inj h]⟩
  · rcases allName_or_first spec.words with
      ⟨classes, hall⟩ | ⟨before, item, after, classes, hsplit, hall, hitem⟩
    · rw [read_of_all hne hall] at h
      simp at h
    · have hwords : ∀ w ∈ before ++ item :: after, w.words = [w] := by
        rw [← hsplit]
        exact fun _ => Text.words_of_mem_words
      refine Or.inr ⟨before, item, after, hsplit, fun w hw => ?_, fun c hc => ?_, ?_⟩
      · obtain ⟨c, hc⟩ := hall.exists_of_mem hw
        exact ⟨c, (read_item_eq_ok_iff (hwords w (List.mem_append_left _ hw))).mpr hc⟩
      · rw [read_item_eq_ok_iff (hwords item (by simp)), hitem] at hc
        simp at hc
      · rw [read_of_ne_nil hne, hsplit, ofItems_of_first hall hitem] at h
        rw [← Except.error.inj h]

/-- A specification is read if it has items and each of them is read alone. -/
theorem exists_read_iff : (∃ cls, read spec = .ok cls)
    ↔ spec.words ≠ [] ∧ ∀ item ∈ spec.words, ∃ c, read item = .ok c := by
  constructor
  · rintro ⟨cls, h⟩
    obtain ⟨hne, classes, hall, -⟩ := read_eq_ok_iff.mp h
    refine ⟨hne, fun item hitem => ?_⟩
    obtain ⟨c, hc⟩ := hall.exists_of_mem hitem
    exact ⟨c, (read_item_eq_ok_iff (Text.words_of_mem_words hitem)).mpr hc⟩
  · rintro ⟨hne, hitems⟩
    cases h : read spec with
    | ok cls => exact ⟨cls, rfl⟩
    | error e =>
      rcases read_eq_error h with ⟨hnil, -⟩ | ⟨before, item, after, hsplit, -, hbad, -⟩
      · exact absurd hnil hne
      · obtain ⟨c, hc⟩ := hitems item (by simp [hsplit])
        exact absurd hc (hbad c)

theorem nodup_read (h : read spec = .ok cls) : cls.sounds.Nodup := by
  obtain ⟨-, classes, -, rfl⟩ := read_eq_ok_iff.mp h
  exact nodup_ofSounds _

/-- Two specifications with white space between them name the ordered union of what they name. -/
theorem read_append_gap {a b gap : Text} {x y : SoundClass} (hne : gap ≠ [])
    (hgap : ∀ c ∈ gap, Text.isBlank c = true) (hx : read a = .ok x) (hy : read b = .ok y) :
    read (a ++ gap ++ b) = .ok (x.union y) := by
  obtain ⟨hawords, as, has, rfl⟩ := read_eq_ok_iff.mp hx
  obtain ⟨-, bs, hbs, rfl⟩ := read_eq_ok_iff.mp hy
  have hwords := Text.words_append_gap hne hgap a b
  refine read_eq_ok_iff.mpr ⟨?_, as ++ bs, ?_, ?_⟩
  · rw [hwords]
    exact List.append_ne_nil_of_left_ne_nil hawords _
  · rw [hwords]
    exact List.rel_append has hbs
  · rw [List.flatMap_append, union_ofSounds]

/-! ## Ways to build a class -/

/-- The ways to build a class of sounds: of the sounds of a text, of all that is homogeneous with
one, of a series, of an abbreviation, and by a specification. -/
inductive Built : SoundClass → Prop where
  | ofText (t : Text) : Built (ofText t)
  | homogeneousTo (c : Char) : Built (homogeneousTo c)
  | varga (v : Varga) : Built v.sounds
  | pratyahara (p : Pratyahara) : Built p.sounds
  | read {spec : Text} {cls : SoundClass} (h : read spec = .ok cls) : Built cls

/-- However a class is built, it has no sound twice. -/
theorem Built.nodup (h : Built cls) : cls.sounds.Nodup := by
  cases h with
  | ofText t => exact nodup_ofSounds _
  | homogeneousTo c =>
    unfold SoundClass.homogeneousTo
    split
    · next σ _ =>
      obtain ⟨sounds, -, hsounds⟩ := exists_homogeneous_eq σ
      rw [hsounds]
      exact nodup_ofSounds sounds
    · exact List.nodup_nil
  | varga v => exact nodup_varga v
  | pratyahara p => exact nodup_ofSounds _
  | read h => exact nodup_read h

/-- **Classes and their specifications.** However a class is built, its text is a list of different
sounds and gives the class back. A specification is read if and only if it has items and each of
them is read alone; it names the ordered union of what they name, so two with white space between
them name the union of the two classes. The error is the first item that is not read alone, or the
whole specification if it has none. -/
theorem read_is_ordered_union :
    (∀ {cls}, Built cls → cls.text.Nodup ∧ (∀ c ∈ cls.text, (Sound.ofChar? c).isSome = true)
      ∧ cls.text.filterMap Sound.ofChar? = cls.sounds ∧ cls.text.length = cls.sounds.length
      ∧ ofText cls.text = cls)
    ∧ (∀ spec, (∃ cls, read spec = .ok cls)
      ↔ spec.words ≠ [] ∧ ∀ item ∈ spec.words, ∃ c, read item = .ok c)
    ∧ (∀ {spec cls}, read spec = .ok cls →
      ∃ classes, List.Forall₂ (fun item c => read item = .ok c) spec.words classes
        ∧ cls.sounds = (classes.flatMap SoundClass.sounds).eraseDups)
    ∧ (∀ {a b gap x y}, gap ≠ [] → (∀ c ∈ gap, Text.isBlank c = true) → read a = .ok x →
      read b = .ok y → ∃ z, read (a ++ gap ++ b) = .ok z
        ∧ z.sounds = (x.sounds ++ y.sounds).eraseDups)
    ∧ ∀ {spec e}, read spec = .error e → (spec.words = [] ∧ e.text = spec)
      ∨ ∃ before item after, spec.words = before ++ item :: after
        ∧ (∀ w ∈ before, ∃ c, read w = .ok c) ∧ (∀ c, read item ≠ .ok c) ∧ e.text = item := by
  refine ⟨fun hbuilt => ?_, fun _ => exists_read_iff, fun h => ?_, ?_, read_eq_error⟩
  · have hlength : ∀ c : SoundClass, c.text.length = c.sounds.length := fun _ => List.length_map _
    exact ⟨nodup_text hbuilt.nodup, fun _ => isSome_of_mem_text, filterMap_text _, hlength _,
      ofText_text hbuilt.nodup⟩
  · obtain ⟨-, classes, hall, rfl⟩ := read_eq_ok_iff.mp h
    exact ⟨classes, allName_words_iff.mp hall, sounds_ofSounds _⟩
  · intro a b gap x y hne hgap hx hy
    exact ⟨x.union y, read_append_gap hne hgap hx hy, sounds_extend (nodup_read hx) y.sounds⟩

/-- White space of any kind parts items, and each sound of the union stands where it first occurs. A
specification with a letter too many in one item is not read, and of one of blanks the whole is the
error. -/
theorem read_is_ordered_union_iku :
    ∃ x y z, read "i et".toList = .ok x ∧ read "e ik".toList = .ok y
      ∧ read ("i et".toList ++ "\t\u00a0".toList ++ "e ik".toList) = .ok z
      ∧ z.sounds = (x.sounds ++ y.sounds).eraseDups ∧ z.text = "iIeuUfFxX".toList
      ∧ ofText z.text = z ∧ (¬∃ c, read "i kut ik zz".toList = .ok c)
      ∧ (∀ e, read "  ".toList = .error e → e.text = "  ".toList) := by
  obtain ⟨hbuilt, hreads, -, hjoined, herror⟩ := read_is_ordered_union
  have hx : read "i et".toList = .ok ⟨[.i, .I, .e]⟩ := by decide
  have hy : read "e ik".toList = .ok ⟨[.e, .i, .I, .u, .U, .f, .F, .x, .X]⟩ := by decide
  have hgap : "\t\u00a0".toList.all Text.isBlank = true := by decide
  obtain ⟨z, hz, hsounds⟩ := hjoined (by decide) (List.all_eq_true.mp hgap) hx hy
  refine ⟨_, _, z, hx, hy, hz, hsounds, ?_, (hbuilt (.read hz)).2.2.2.2, ?_, fun e he => ?_⟩
  · rw [text, hsounds]
    decide
  · rw [hreads]
    rintro ⟨-, hitems⟩
    obtain ⟨c, hc⟩ := hitems "kut".toList (by decide)
    have hbad : read "kut".toList = .error ⟨"kut".toList⟩ := by decide
    rw [hbad] at hc
    simp at hc
  · rcases herror he with ⟨-, htext⟩ | ⟨before, item, after, hsplit, -⟩
    · exact htext
    · have hnone : Text.words "  ".toList = [] := by decide
      rw [hnone] at hsplit
      simp at hsplit

end SoundClass

end Vyakarana
