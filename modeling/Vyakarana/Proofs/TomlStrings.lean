import Vyakarana.Toml.Quoting

/-!
# Strings are read as they were written

Whatever the quoting style, a string that is written is read back as the text it was. In the styles
that know escapes this holds of every text; the style without escapes on one line must not hold
what ends it, and the one on several lines no three single quotes in a row.

* `readBasic_escapeText`, `readMultiBasic_escapeText` — escapes
* `readLiteral_append`, `readMultiLiteral_append` — text as it is
* `readString_writeString` — the style that the writer chooses
-/

namespace Vyakarana.Toml

variable {c d : Char} {t rest w : Text} {quotes run : Nat} {multi : Bool}

/-! ## Escapes -/

theorem hexValue?_upperHexDigit {d : Nat} (h : d < 16) : hexValue? (upperHexDigit d) = some d := by
  have hall : ∀ e ∈ List.range 16, hexValue? (upperHexDigit e) = some e := by decide
  exact hall d (List.mem_range.mpr h)

theorem charOf?_toNat (c : Char) : charOf? c.toNat = some c := by
  have hvalid : c.toNat.isValidChar := c.valid
  rw [charOf?, if_pos hvalid, Char.ofNat_toNat]

theorem toNat_lt_of_isAsciiControl (h : Text.isAsciiControl c = true) : c.toNat < 128 := by
  simp only [Text.isAsciiControl, Bool.or_eq_true, decide_eq_true_eq, beq_iff_eq] at h
  omega

theorem isPlain_of_not_control (h : Text.isAsciiControl c = false) : isPlain c = true := by
  rw [isPlain, h]
  simp

/-- The digits of an escape give back the character. -/
theorem charOf?_digits (c : Char) : charOf? (c.toNat / 16 * 16 + c.toNat % 16) = some c := by
  rw [Nat.div_add_mod', charOf?_toNat]

theorem hexValue?_digits (h : Text.isAsciiControl c = true) :
    hexValue? (upperHexDigit (c.toNat / 16)) = some (c.toNat / 16)
      ∧ hexValue? (upperHexDigit (c.toNat % 16)) = some (c.toNat % 16) := by
  have hlt := toNat_lt_of_isAsciiControl h
  exact ⟨hexValue?_upperHexDigit (by omega), hexValue?_upperHexDigit (Nat.mod_lt _ (by decide))⟩

theorem escapeText_of_ne (h : c ≠ '"') :
    escapeText multi quotes run (c :: t) = escapeChar multi c ++ escapeText multi quotes 0 t := by
  simp [escapeText, h]

theorem escapeText_of_le (h : quotes ≤ run + 1) :
    escapeText multi quotes run ('"' :: t) = '\\' :: '"' :: escapeText multi quotes 0 t := by
  simp [escapeText, h]

theorem escapeText_of_lt (h : run + 1 < quotes) :
    escapeText multi quotes run ('"' :: t) = '"' :: escapeText multi quotes (run + 1) t := by
  simp [escapeText, Nat.not_le.mpr h]

/-- An escape begins with a backslash. -/
theorem exists_escapeChar_eq (multi : Bool) (c : Char) :
    ∃ d v, escapeChar multi c = d :: v ∧ (d = '\\' ∨ d = c) := by
  unfold escapeChar
  split
  · exact ⟨_, _, rfl, Or.inl rfl⟩
  · exact ⟨_, _, rfl, Or.inl rfl⟩
  · split
    · exact ⟨_, _, rfl, Or.inr rfl⟩
    · exact ⟨_, _, rfl, Or.inl rfl⟩
  · exact ⟨_, _, rfl, Or.inl rfl⟩
  · exact ⟨_, _, rfl, Or.inl rfl⟩
  · exact ⟨_, _, rfl, Or.inl rfl⟩
  · split
    · exact ⟨_, _, rfl, Or.inl rfl⟩
    · exact ⟨_, _, rfl, Or.inr rfl⟩

/-- A text that does not begin with an unescaped double quote. -/
theorem escapeText_ne_quote (hne : t ≠ []) (h : t.head? = some '"' → quotes ≤ run + 1) (v : Text) :
    escapeText multi quotes run t ++ w ≠ '"' :: v := by
  cases t with
  | nil => exact absurd rfl hne
  | cons c t =>
    by_cases hquote : c = '"'
    · subst hquote
      rw [escapeText_of_le (h rfl)]
      simp
    · obtain ⟨d, x, hx, rfl | rfl⟩ := exists_escapeChar_eq multi c
      · rw [escapeText_of_ne hquote, hx]
        simp
      · rw [escapeText_of_ne hquote, hx]
        simp [hquote]

/-! ## Strings with escapes -/

theorem readBasic_unicodeEscape (h : Text.isAsciiControl c = true) :
    readBasic .plain (unicodeEscape c ++ w) = prepend c (readBasic .plain w) := by
  obtain ⟨hhigh, hlow⟩ := hexValue?_digits h
  have hzero : hexValue? '0' = some 0 := by decide
  have hescape : escaped? 'u' = none := by decide
  have hwidth : escapeWidth? 'u' = some 4 := by decide
  simp only [unicodeEscape, List.cons_append, List.nil_append, readBasic, hescape, hwidth, hzero,
    hhigh, hlow]
  simp [charOf?_digits c]

theorem readBasic_escapeChar (h : c ≠ '"') :
    readBasic .plain (escapeChar false c ++ w) = prepend c (readBasic .plain w) := by
  unfold escapeChar
  split
  · rfl
  · rfl
  · rfl
  · rfl
  · rfl
  · rfl
  · next hslash =>
    cases hcontrol : Text.isAsciiControl c with
    | true => exact readBasic_unicodeEscape hcontrol
    | false => simp [readBasic, isPlain_of_not_control hcontrol]

/-- **A text between double quotes is read back.** Every double quote in it is escaped. -/
theorem readBasic_escapeText (t : Text) :
    readBasic .plain (escapeText false 1 run t ++ '"' :: rest) = some (t, rest) := by
  induction t generalizing run with
  | nil => rfl
  | cons c t ih =>
    by_cases hquote : c = '"'
    · subst hquote
      rw [escapeText_of_le (Nat.le_add_left 1 run)]
      show prepend '"' (readBasic .plain (escapeText false 1 0 t ++ '"' :: rest)) = _
      rw [ih]
      rfl
    · rw [escapeText_of_ne hquote, List.append_assoc, readBasic_escapeChar hquote, ih]
      rfl

/-! ## Strings with escapes on several lines -/

theorem readMultiBasic_unicodeEscape (h : Text.isAsciiControl c = true) :
    readMultiBasic .plain (unicodeEscape c ++ w) = prepend c (readMultiBasic .plain w) := by
  obtain ⟨hhigh, hlow⟩ := hexValue?_digits h
  have hzero : hexValue? '0' = some 0 := by decide
  have hescape : escaped? 'u' = none := by decide
  have hwidth : escapeWidth? 'u' = some 4 := by decide
  simp only [unicodeEscape, List.cons_append, List.nil_append, readMultiBasic, hescape, hwidth,
    hzero, hhigh, hlow]
  simp [charOf?_digits c]

theorem readMultiBasic_escapeChar (h : c ≠ '"') :
    readMultiBasic .plain (escapeChar true c ++ w) = prepend c (readMultiBasic .plain w) := by
  unfold escapeChar
  split
  · rfl
  · rfl
  · rfl
  · rfl
  · rfl
  · rfl
  · next hslash =>
    cases hcontrol : Text.isAsciiControl c with
    | true => exact readMultiBasic_unicodeEscape hcontrol
    | false => simp [readMultiBasic, isPlain_of_not_control hcontrol, h]

/-- A double quote that no two others follow stands for itself. -/
theorem readMultiBasic_quote (h : ∀ v, w ≠ '"' :: '"' :: v) :
    readMultiBasic .plain ('"' :: w) = prepend '"' (readMultiBasic .plain w) := by
  have hplain : isPlain '"' = true := by decide
  rw [readMultiBasic]
  · simp [hplain]
  all_goals simp [h]

/-- After an unescaped double quote two more follow only where the string ends. -/
theorem escapeText_ne_quotes (hne : t ≠ []) (h : t = ['"'] → 3 ≤ run + 2) (v : Text) :
    escapeText true 3 (run + 1) t ++ w ≠ '"' :: '"' :: v := by
  cases t with
  | nil => exact absurd rfl hne
  | cons c t =>
    by_cases hraw : c = '"' ∧ run + 2 < 3
    · obtain ⟨rfl, hlt⟩ := hraw
      rw [escapeText_of_lt hlt, List.cons_append]
      intro heq
      have hnil : t ≠ [] := by
        rintro rfl
        exact absurd (h rfl) (Nat.not_le.mpr hlt)
      exact escapeText_ne_quote hnil (fun _ => Nat.le_add_left 3 run) v (List.cons.inj heq).2
    · refine escapeText_ne_quote (List.cons_ne_nil c t) (fun hquote => ?_) ('"' :: v)
      exact Nat.not_lt.mp fun hlt => hraw ⟨Option.some.inj hquote, hlt⟩

/-- The three quotes that end a string. -/
theorem readMultiBasic_end (hrest : rest.head? ≠ some '"') :
    readMultiBasic .plain ('"' :: '"' :: '"' :: rest) = some ([], rest)
      ∧ readMultiBasic .plain ('"' :: '"' :: '"' :: '"' :: rest) = some (['"'], rest)
      ∧ readMultiBasic .plain ('"' :: '"' :: '"' :: '"' :: '"' :: rest)
        = some (['"', '"'], rest) := by
  cases rest with
  | nil => exact ⟨rfl, rfl, rfl⟩
  | cons d rest =>
    have hd : d ≠ '"' := by
      rintro rfl
      exact hrest rfl
    simp [readMultiBasic, hd]

/-- **A text between three double quotes is read back.** Every third double quote in a row is
escaped, and one or two before the closing ones count as text. -/
theorem readMultiBasic_escapeText (hrest : rest.head? ≠ some '"') (t : Text) :
    readMultiBasic .plain (escapeText true 3 run t ++ '"' :: '"' :: '"' :: rest)
      = some (t, rest) := by
  obtain ⟨hthree, hfour, hfive⟩ := readMultiBasic_end hrest
  induction t generalizing run with
  | nil => exact hthree
  | cons c t ih =>
    by_cases hquote : c = '"'
    · subst hquote
      by_cases hrun : 3 ≤ run + 1
      · rw [escapeText_of_le hrun]
        show prepend '"' (readMultiBasic .plain (escapeText true 3 0 t ++ _)) = _
        rw [ih]
        rfl
      · have hlt : run + 1 < 3 := Nat.not_le.mp hrun
        have hraw : escapeText true 3 run ('"' :: t) = '"' :: escapeText true 3 (run + 1) t :=
          escapeText_of_lt hlt
        -- the last quotes of the text are read together with the closing ones
        by_cases hnil : t = []
        · rw [hraw, hnil]
          exact hfour
        by_cases hone : t = ['"'] ∧ run + 2 < 3
        · rw [hraw, hone.1, escapeText_of_lt hone.2]
          exact hfive
        have hquotes := escapeText_ne_quotes (w := '"' :: '"' :: '"' :: rest) hnil fun hsingle =>
          Nat.not_lt.mp fun hlt => hone ⟨hsingle, hlt⟩
        rw [hraw, List.cons_append, readMultiBasic_quote hquotes, ih]
        rfl
    · rw [escapeText_of_ne hquote, List.append_assoc, readMultiBasic_escapeChar hquote, ih]
      rfl

/-! ## Strings without escapes -/

/-- **A text between single quotes is read back** if it has no single quote and no character that
must be escaped. -/
theorem readLiteral_append (hquote : '\'' ∉ t) (hplain : ∀ c ∈ t, isPlain c = true) :
    readLiteral (t ++ '\'' :: rest) = some (t, rest) := by
  induction t with
  | nil => rfl
  | cons c t ih =>
    rw [List.mem_cons, not_or] at hquote
    obtain ⟨hc, ht⟩ := List.forall_mem_cons.mp hplain
    have hstep : readLiteral (c :: (t ++ '\'' :: rest))
        = prepend c (readLiteral (t ++ '\'' :: rest)) := by
      simp [readLiteral, Ne.symm hquote.1, hc]
    rw [List.cons_append, hstep, ih hquote.2 ht]
    rfl

theorem le_longestRun (c : Char) (run : Nat) (t : Text) : run ≤ longestRun c run t := by
  induction t generalizing run with
  | nil => exact Nat.le_refl run
  | cons d t ih =>
    rw [longestRun]
    split
    · exact Nat.le_trans (Nat.le_succ run) (ih (run + 1))
    · exact Nat.le_max_left _ _

theorem longestRun_cons_self : longestRun c run (c :: t) = longestRun c (run + 1) t := by
  simp [longestRun]

theorem longestRun_zero_le (h : d ≠ c) : longestRun c 0 t ≤ longestRun c run (d :: t) := by
  have hstep : longestRun c run (d :: t) = max run (longestRun c 0 t) := by simp [longestRun, h]
  rw [hstep]
  exact Nat.le_max_right _ _

/-- The three quotes that end a string. -/
theorem readMultiLiteral_end (hrest : rest.head? ≠ some '\'') :
    readMultiLiteral ('\'' :: '\'' :: '\'' :: rest) = some ([], rest)
      ∧ readMultiLiteral ('\'' :: '\'' :: '\'' :: '\'' :: rest) = some (['\''], rest)
      ∧ readMultiLiteral ('\'' :: '\'' :: '\'' :: '\'' :: '\'' :: rest)
        = some (['\'', '\''], rest) := by
  cases rest with
  | nil => exact ⟨rfl, rfl, rfl⟩
  | cons d rest =>
    have hd : d ≠ '\'' := by
      rintro rfl
      exact hrest rfl
    simp [readMultiLiteral, hd]

theorem readMultiLiteral_cons (hc : c = '\n' ∨ isPlain c = true)
    (h : c = '\'' → ∀ v, w ≠ '\'' :: '\'' :: v) :
    readMultiLiteral (c :: w) = prepend c (readMultiLiteral w) := by
  rw [readMultiLiteral]
  · simp [hc]
  · intro v hc hv
    exact h hc _ hv
  · intro v hc hv
    exact h hc _ hv
  · intro v hc hv
    exact h hc _ hv

/-- After a single quote two more follow only where the string ends. -/
theorem ne_quotes_of_longestRun (hnil : t ≠ []) (hone : t ≠ ['\''])
    (hrun : longestRun '\'' (run + 1) t < 3) (v : Text) : t ++ w ≠ '\'' :: '\'' :: v := by
  intro heq
  match t, hnil, hone, hrun with
  | [d], _, hone, _ =>
    obtain ⟨rfl, -⟩ := List.cons.inj heq
    exact hone rfl
  | d :: e :: t, _, _, hrun =>
    obtain ⟨rfl, htail⟩ := List.cons.inj heq
    obtain ⟨rfl, -⟩ := List.cons.inj htail
    rw [longestRun_cons_self, longestRun_cons_self] at hrun
    have hle := le_longestRun '\'' (run + 1 + 1 + 1) t
    omega

/-- **A text between three single quotes is read back** if it has no three of them in a row and no
character that must be escaped. -/
theorem readMultiLiteral_append (hrest : rest.head? ≠ some '\'')
    (hplain : ∀ c ∈ t, c = '\n' ∨ isPlain c = true) (hrun : longestRun '\'' run t < 3) :
    readMultiLiteral (t ++ '\'' :: '\'' :: '\'' :: rest) = some (t, rest) := by
  obtain ⟨hthree, hfour, hfive⟩ := readMultiLiteral_end hrest
  induction t generalizing run with
  | nil => exact hthree
  | cons c t ih =>
    obtain ⟨hc, ht⟩ := List.forall_mem_cons.mp hplain
    by_cases hquote : c = '\''
    · subst hquote
      rw [longestRun_cons_self] at hrun
      -- the last quotes of the text are read together with the closing ones
      by_cases hnil : t = []
      · rw [hnil]
        exact hfour
      by_cases hone : t = ['\'']
      · rw [hone]
        exact hfive
      rw [List.cons_append,
        readMultiLiteral_cons hc fun _ => ne_quotes_of_longestRun hnil hone hrun, ih ht hrun]
      rfl
    · rw [List.cons_append, readMultiLiteral_cons hc fun h => absurd h hquote,
        ih ht (Nat.lt_of_le_of_lt (longestRun_zero_le hquote) hrun)]
      rfl

/-! ## The style that the writer chooses -/

/-- What a text must be like to be written in a style. -/
def QuoteStyle.Holds : QuoteStyle → Text → Prop
  | .basic, _ | .multiBasic, _ => True
  | .literal, t => '\'' ∉ t ∧ ∀ c ∈ t, isPlain c = true
  | .multiLiteral, t => (∀ c ∈ t, c = '\n' ∨ isPlain c = true) ∧ longestRun '\'' 0 t < 3

theorem isPlain_of_not_needsEscape (h : needsEscape c = false) : c = '\n' ∨ isPlain c = true := by
  by_cases hbreak : c = '\n'
  · exact Or.inl hbreak
  · refine Or.inr ?_
    by_cases htab : c = '\t'
    · rw [htab]
      rfl
    · simpa [needsEscape, isPlain, hbreak, htab] using h

theorem holds_styleOf (t : Text) : (styleOf t).Holds t := by
  have hplain : t.any needsEscape = false → ∀ c ∈ t, c = '\n' ∨ isPlain c = true := by
    intro hescapes c hc
    refine isPlain_of_not_needsEscape ?_
    simpa using List.any_eq_false.mp hescapes c hc
  unfold styleOf
  simp only
  split
  · trivial
  split
  · next hcond =>
    simp only [Bool.and_eq_true, Bool.not_eq_true', List.contains_eq_mem, decide_eq_false_iff_not]
      at hcond
    obtain ⟨⟨hescapes, hquote⟩, hbreaks⟩ := hcond
    refine ⟨hquote, fun c hc => (hplain hescapes c hc).resolve_left ?_⟩
    rintro rfl
    exact hbreaks hc
  split
  · trivial
  split
  · next hcond =>
    simp only [Bool.and_eq_true, Bool.not_eq_true', decide_eq_true_eq] at hcond
    exact ⟨hplain hcond.1, hcond.2⟩
  split
  · trivial
  · trivial

theorem readString_basic (h : ∀ v, w ≠ '"' :: '"' :: v) :
    readString ('"' :: w) = readBasic .plain w := by
  rw [readString]
  intro v hv
  exact h v hv

theorem readString_literal (h : ∀ v, w ≠ '\'' :: '\'' :: v) :
    readString ('\'' :: w) = readLiteral w := by
  rw [readString]
  intro v hv
  exact h v hv

theorem skipFirstBreak_openingBreak (h : '\n' ∉ t → w.head? ≠ some '\n') :
    skipFirstBreak (openingBreak t ++ w) = w := by
  by_cases hbreak : '\n' ∈ t
  · simp [openingBreak, hbreak, skipFirstBreak]
  · have hnone : openingBreak t = [] := by simp [openingBreak, hbreak]
    rw [hnone, List.nil_append]
    cases w with
    | nil => rfl
    | cons c w =>
      have hc : c ≠ '\n' := by
        rintro rfl
        exact h hbreak rfl
      simp [skipFirstBreak, hc]

/-- A text without line breaks does not begin with one when it is escaped. -/
theorem head?_escapeText_ne (h : '\n' ∉ t) (hw : w.head? ≠ some '\n') :
    (escapeText true 3 0 t ++ w).head? ≠ some '\n' := by
  cases t with
  | nil => exact hw
  | cons c t =>
    rw [List.mem_cons, not_or] at h
    by_cases hquote : c = '"'
    · subst hquote
      rw [escapeText_of_lt (by decide)]
      simp
    · obtain ⟨d, x, hx, rfl | rfl⟩ := exists_escapeChar_eq true c
      · rw [escapeText_of_ne hquote, hx]
        simp
      · rw [escapeText_of_ne hquote, hx]
        simpa using Ne.symm h.1

section Written

variable (hdouble : rest.head? ≠ some '"') (hsingle : rest.head? ≠ some '\'')
include hdouble hsingle

/-- **A text is read back from every style that holds it**, if no quote follows the string. -/
theorem readString_writeAs {style : QuoteStyle} (h : style.Holds t) :
    readString (writeAs style t ++ rest) = some (t, rest) := by
  cases style with
  | basic =>
    have hwritten : writeAs .basic t ++ rest = '"' :: (escapeText false 1 0 t ++ '"' :: rest) := by
      simp [writeAs]
    rw [hwritten, readString_basic, readBasic_escapeText]
    intro v
    by_cases hnil : t = []
    · subst hnil
      intro heq
      obtain ⟨-, htail⟩ := List.cons.inj heq
      rw [htail] at hdouble
      exact hdouble rfl
    · exact escapeText_ne_quote hnil (fun _ => Nat.le_refl 1) _
  | literal =>
    have hwritten : writeAs .literal t ++ rest = '\'' :: (t ++ '\'' :: rest) := by
      simp [writeAs]
    rw [hwritten, readString_literal, readLiteral_append h.1 h.2]
    intro v heq
    cases t with
    | nil =>
      obtain ⟨-, htail⟩ := List.cons.inj heq
      rw [htail] at hsingle
      exact hsingle rfl
    | cons c t =>
      obtain ⟨rfl, -⟩ := List.cons.inj heq
      exact h.1 List.mem_cons_self
  | multiBasic =>
    have hwritten : writeAs .multiBasic t ++ rest = '"' :: '"' :: '"' :: (openingBreak t
        ++ (escapeText true 3 0 t ++ '"' :: '"' :: '"' :: rest)) := by
      simp [writeAs]
    rw [hwritten, readString, skipFirstBreak_openingBreak, readMultiBasic_escapeText hdouble]
    exact fun hbreak => head?_escapeText_ne hbreak (by simp)
  | multiLiteral =>
    have hwritten : writeAs .multiLiteral t ++ rest = '\'' :: '\'' :: '\'' :: (openingBreak t
        ++ (t ++ '\'' :: '\'' :: '\'' :: rest)) := by
      simp [writeAs]
    rw [hwritten, readString, skipFirstBreak_openingBreak, readMultiLiteral_append hsingle h.1 h.2]
    intro hbreak
    cases t with
    | nil => simp
    | cons c t =>
      rw [List.mem_cons, not_or] at hbreak
      simpa using Ne.symm hbreak.1

/-- **Every text is read back as it was written**, if no quote follows the string. -/
theorem readString_writeString (t : Text) :
    readString (writeString t ++ rest) = some (t, rest) :=
  readString_writeAs hdouble hsingle (holds_styleOf t)

end Written

/-- A written string begins with a quote. -/
theorem exists_writeString_eq (t : Text) :
    ∃ quote v, writeString t = quote :: v ∧ (quote = '"' ∨ quote = '\'') := by
  unfold writeString
  cases styleOf t with
  | basic => exact ⟨_, _, rfl, Or.inl rfl⟩
  | literal => exact ⟨_, _, rfl, Or.inr rfl⟩
  | multiBasic => exact ⟨_, _, rfl, Or.inl rfl⟩
  | multiLiteral => exact ⟨_, _, rfl, Or.inr rfl⟩

/-! ## Carriage returns -/

theorem upperHexDigit_ne_return {d : Nat} (h : d < 16) : '\r' ≠ upperHexDigit d := by
  have hall : ∀ e ∈ List.range 16, '\r' ≠ upperHexDigit e := by decide
  exact hall d (List.mem_range.mpr h)

theorem return_not_mem_escapeChar (multi : Bool) (c : Char) : '\r' ∉ escapeChar multi c := by
  unfold escapeChar
  split
  · decide
  · decide
  · cases multi <;> decide
  · decide
  · decide
  · decide
  · next hreturn _ =>
    split
    · next hcontrol =>
      have hlt := toNat_lt_of_isAsciiControl hcontrol
      have hhigh := upperHexDigit_ne_return (show c.toNat / 16 < 16 by omega)
      have hlow := upperHexDigit_ne_return (show c.toNat % 16 < 16 by omega)
      simp [unicodeEscape, hhigh, hlow]
    · simpa using Ne.symm hreturn

theorem return_not_mem_escapeText (multi : Bool) (quotes run : Nat) (t : Text) :
    '\r' ∉ escapeText multi quotes run t := by
  induction t generalizing run with
  | nil => simp [escapeText]
  | cons c t ih =>
    rw [escapeText]
    split
    · split
      · simpa using ih 0
      · simpa using ih (run + 1)
    · rw [List.mem_append, not_or]
      exact ⟨return_not_mem_escapeChar multi c, ih 0⟩

theorem return_not_mem_openingBreak (t : Text) : '\r' ∉ openingBreak t := by
  unfold openingBreak
  split
  · decide
  · decide

/-- A written string has no carriage return, so the reader of documents sees it unchanged. -/
theorem return_not_mem_writeString (t : Text) : '\r' ∉ writeString t := by
  have hbreak := return_not_mem_openingBreak t
  have hreturn : isPlain '\r' = false := by decide
  have hholds := holds_styleOf t
  unfold writeString
  cases hstyle : styleOf t with
  | basic => simp [writeAs, return_not_mem_escapeText]
  | literal =>
    rw [hstyle] at hholds
    have ht : '\r' ∉ t := fun hmem => by simp [hholds.2 _ hmem] at hreturn
    simp [writeAs, ht]
  | multiBasic => simp [writeAs, return_not_mem_escapeText, hbreak]
  | multiLiteral =>
    rw [hstyle] at hholds
    have ht : '\r' ∉ t := fun hmem => by
      rcases hholds.1 _ hmem with heq | hplain
      · simp at heq
      · simp [hplain] at hreturn
    simp [writeAs, ht, hbreak]

end Vyakarana.Toml
