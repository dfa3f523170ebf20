import Vyakarana.Proofs.TomlStrings
import Vyakarana.Toml.Reader

/-!
# Documents of headers and entries

A document that consists of headers, each with lines of keys and values below it, is read line by
line. If no header and no key within a table stands twice, it becomes the tables that it shows.

* `readScalar_toDigits` — numbers
* `readItems_itemLines` — arrays of strings
* `ReadsAs` — what the lines of a text are read as
* `build_tables` — what they come to
-/

namespace Vyakarana.Toml

variable {c d : Char} {t rest w : Text} {texts : List Text} {k : Key} {n steps : Nat}

/-! ## Line ends and blanks -/

theorem unifyLineEnds_of_not_mem (h : '\r' ∉ t) : unifyLineEnds t = t := by
  induction t with
  | nil => rfl
  | cons c t ih =>
    rw [List.mem_cons, not_or] at h
    rw [unifyLineEnds]
    · rw [ih h.2]
    · intro v hc
      exact absurd hc.symm h.1

theorem not_mem_intercalate {sep : Text} (hsep : c ∉ sep) (h : ∀ t ∈ texts, c ∉ t) :
    c ∉ sep.intercalate texts := by
  induction texts with
  | nil => simp
  | cons t texts ih =>
    obtain ⟨ht, htexts⟩ := List.forall_mem_cons.mp h
    cases texts with
    | nil => simpa using ht
    | cons next texts =>
      rw [List.intercalate_cons_cons]
      simp [ht, hsep, ih htexts]

/-- The character begins something: it is no blank and no line end, and opens no comment. -/
def IsSolid (c : Char) : Prop := isGap c = false ∧ c ≠ '\n' ∧ c ≠ '#'

instance : DecidablePred IsSolid := fun c => by
  unfold IsSolid
  infer_instance

theorem skipTrivia_of_solid (h : IsSolid c) : skipTrivia false (c :: t) = some (c :: t) := by
  obtain ⟨hgap, hbreak, hcomment⟩ := h
  simp [skipTrivia, hgap, hbreak, hcomment]

theorem skipGap_of_solid (h : IsSolid c) : skipGap (c :: t) = c :: t := by
  rw [skipGap, List.dropWhile_cons_of_neg]
  simp [h.1]

/-! ## Numbers -/

theorem toNat_of_isDigit (h : c.isDigit = true) : 0x30 ≤ c.toNat ∧ c.toNat ≤ 0x39 := by
  simp only [Char.isDigit, Bool.and_eq_true, decide_eq_true_eq] at h
  exact h

theorem ne_of_isDigit (hc : c.isDigit = true) (hd : d.isDigit = false) : c ≠ d := by
  rintro rfl
  rw [hc] at hd
  simp at hd

theorem digit?_of_isDigit (h : c.isDigit = true) : digit? 10 c = some (c.toNat - '0'.toNat) := by
  obtain ⟨hlow, hhigh⟩ := toNat_of_isDigit h
  have hlt : c.toNat - 0x30 < 10 := by omega
  simp [digit?, hlow, hhigh, hlt]

theorem moreDigits?_eq {acc : Nat} (h : ∀ c ∈ t, c.isDigit = true) :
    moreDigits? 10 acc t = some (Nat.ofDigitChars 10 t acc) := by
  induction t generalizing acc with
  | nil => rfl
  | cons c t ih =>
    obtain ⟨hc, ht⟩ := List.forall_mem_cons.mp h
    have hne : c ≠ '_' := ne_of_isDigit hc (by decide)
    rw [Nat.ofDigitChars_cons, moreDigits?, digit?_of_isDigit hc]
    · simp only
      rw [ih ht, Nat.mul_comm]
    · intro d v hd
      exact absurd hd hne

theorem digits?_eq (hne : t ≠ []) (h : ∀ c ∈ t, c.isDigit = true) :
    digits? 10 t = some (Nat.ofDigitChars 10 t 0) := by
  cases t with
  | nil => exact absurd rfl hne
  | cons c t =>
    obtain ⟨hc, ht⟩ := List.forall_mem_cons.mp h
    rw [digits?, digit?_of_isDigit hc, Nat.ofDigitChars_cons]
    simp only
    rw [moreDigits?_eq ht, Nat.mul_zero, Nat.zero_add]

theorem isDigit_of_mem_toDigits (h : c ∈ Nat.toDigits 10 n) : c.isDigit = true :=
  Nat.isDigit_of_mem_toDigits (by decide) (by decide) h

/-- A number is written without superfluous zeros in front. -/
theorem exists_toDigits_eq (h : 0 < n) : ∃ c t, Nat.toDigits 10 n = c :: t ∧ c ≠ '0' := by
  induction n using Nat.strongRecOn with
  | _ n ih =>
    by_cases hlt : n < 10
    · refine ⟨n.digitChar, [], Nat.toDigits_of_lt_base hlt, ?_⟩
      have hall : ∀ m ∈ List.range 10, 0 < m → m.digitChar ≠ '0' := by decide
      exact hall n (List.mem_range.mpr hlt) h
    · have hle : 10 ≤ n := Nat.not_lt.mp hlt
      obtain ⟨c, t, ht, hc⟩ := ih (n / 10) (by omega) (by omega)
      refine ⟨c, t ++ [(n % 10).digitChar], ?_, hc⟩
      rw [Nat.toDigits_of_base_le (by decide) hle, ht, List.cons_append]

theorem decimal?_toDigits (h : 0 < n) : decimal? (Nat.toDigits 10 n) = some n := by
  obtain ⟨c, t, ht, hc⟩ := exists_toDigits_eq h
  have hdigits := digits?_eq (t := Nat.toDigits 10 n) Nat.toDigits_ne_nil
    fun _ => isDigit_of_mem_toDigits
  rw [Nat.ofDigitChars_ten_toDigits] at hdigits
  rw [← hdigits, ht, decimal?]
  intro d v heq
  exact absurd (List.cons.inj heq).1 hc

theorem integer?_toDigits (h : 0 < n) : integer? (Nat.toDigits 10 n) = some (n : Int) := by
  have hdecimal := decimal?_toDigits h
  obtain ⟨c, t, ht, hc⟩ := exists_toDigits_eq h
  have hdigit : c.isDigit = true := isDigit_of_mem_toDigits (n := n) (by simp [ht])
  have hne : ∀ {d}, d.isDigit = false → ∀ {v}, c :: t ≠ d :: v := by
    intro d hd v heq
    exact ne_of_isDigit hdigit hd (List.cons.inj heq).1
  have hsign : splitSign (c :: t) = (false, c :: t) := by
    rw [splitSign]
    · exact fun v => hne (by decide)
    · exact fun v => hne (by decide)
  have hzero : ∀ {v}, c :: t ≠ '0' :: v := by
    intro v heq
    exact hc (List.cons.inj heq).1
  rw [ht] at hdecimal ⊢
  rw [integer?]
  · simp [hsign, hdecimal]
  · exact fun v => hzero
  · exact fun v => hzero
  · exact fun v => hzero

theorem scalar?_toDigits (h : 0 < n) : scalar? (Nat.toDigits 10 n) = some (.integer n) := by
  have hword : ∀ w : Text, (∃ c ∈ w, c.isDigit = false) → Nat.toDigits 10 n ≠ w := by
    rintro w ⟨c, hc, hdigit⟩ rfl
    rw [isDigit_of_mem_toDigits hc] at hdigit
    simp at hdigit
  have htrue := hword "true".toList ⟨'t', by simp, rfl⟩
  have hfalse := hword "false".toList ⟨'f', by simp, rfl⟩
  rw [scalar?, if_neg (by simpa using htrue), if_neg (by simpa using hfalse), integer?_toDigits h]

/-- **A positive number is read back**, up to the end of its line. -/
theorem readScalar_toDigits (h : 0 < n) :
    readScalar (Nat.toDigits 10 n ++ '\n' :: rest) = some (.integer n, '\n' :: rest) := by
  have hchars : ∀ c ∈ Nat.toDigits 10 n, isScalarChar c = true := by
    intro c hc
    simp [isScalarChar, Char.isAlphanum, isDigit_of_mem_toDigits hc]
  have hbreak : isScalarChar '\n' = false := by decide
  have hword : (Nat.toDigits 10 n ++ '\n' :: rest).takeWhile isScalarChar = Nat.toDigits 10 n := by
    rw [List.takeWhile_append_of_pos hchars, List.takeWhile_cons_of_neg (by simp [hbreak]),
      List.append_nil]
  have hafter : (Nat.toDigits 10 n ++ '\n' :: rest).dropWhile isScalarChar = '\n' :: rest := by
    rw [List.dropWhile_append_of_pos hchars, List.dropWhile_cons_of_neg (by simp [hbreak])]
  rw [readScalar, hword, hafter]
  split
  · next heq => simp at heq
  · rw [scalar?_toDigits h]
    rfl

/-! ## Keys -/

/-- The key needs no quotes. -/
def IsBareKey (k : Key) : Prop := k ≠ [] ∧ ∀ c ∈ k, isBare c = true

theorem isSolid_of_isBare (h : isBare c = true) : IsSolid c ∧ c ≠ '[' ∧ c ≠ '"' ∧ c ≠ '\'' := by
  have hne : ∀ d, isBare d = false → c ≠ d := by
    rintro d hd rfl
    simp [h] at hd
  have hgap : isGap c = false := by
    have hspace := hne ' ' (by decide)
    have htab := hne '\t' (by decide)
    simp [isGap, hspace, htab]
  exact ⟨⟨hgap, hne '\n' (by decide), hne '#' (by decide)⟩, hne '[' (by decide),
    hne '"' (by decide), hne '\'' (by decide)⟩

theorem IsBareKey.exists_eq (h : IsBareKey k) :
    ∃ c t, k = c :: t ∧ IsSolid c ∧ c ≠ '[' ∧ c ≠ '"' ∧ c ≠ '\'' := by
  cases k with
  | nil => exact absurd rfl h.1
  | cons c t => exact ⟨c, t, rfl, isSolid_of_isBare (h.2 c List.mem_cons_self)⟩

theorem readKey_of_bare (h : IsBareKey k) (hc : isBare c = false) :
    readKey (k ++ c :: t) = some (k, c :: t) := by
  have hkey : (k ++ c :: t).takeWhile isBare = k := by
    rw [List.takeWhile_append_of_pos h.2, List.takeWhile_cons_of_neg (by simp [hc]),
      List.append_nil]
  have hafter : (k ++ c :: t).dropWhile isBare = c :: t := by
    rw [List.dropWhile_append_of_pos h.2, List.dropWhile_cons_of_neg (by simp [hc])]
  obtain ⟨d, v, rfl, -, -, hdouble, hsingle⟩ := h.exists_eq
  rw [readKey]
  · rw [hkey, hafter]
  · intro v heq
    exact absurd (List.cons.inj heq).1 hdouble
  · intro v heq
    exact absurd (List.cons.inj heq).1 hsingle

/-- A key with no dot after it. -/
theorem readPath_of_bare (h : IsBareKey k) (hc : isBare c = false)
    (hskip : skipGap (c :: t) = d :: rest) (hdot : d ≠ '.') :
    readPath (steps + 1) (k ++ c :: t) = some ([k], d :: rest) := by
  have hstart : skipGap (k ++ c :: t) = k ++ c :: t := by
    obtain ⟨e, v, rfl, hsolid, -⟩ := h.exists_eq
    exact skipGap_of_solid hsolid
  rw [readPath, hstart, readKey_of_bare h hc]
  simp only [hskip]
  split
  · next heq => exact absurd (List.cons.inj heq).1 hdot
  · rfl

/-! ## Numbers as values -/

/-- A number begins with a digit, so it is no string and no table. -/
theorem exists_toDigits_append (n : Nat) (rest : Text) :
    ∃ c t, Nat.toDigits 10 n ++ rest = c :: t ∧ c.isDigit = true := by
  obtain ⟨c, t, ht⟩ := List.exists_cons_of_ne_nil (Nat.toDigits_ne_nil (n := n) (b := 10))
  have hdigit : c.isDigit = true := isDigit_of_mem_toDigits (n := n) (by simp [ht])
  exact ⟨c, t ++ rest, by rw [ht, List.cons_append], hdigit⟩

theorem isSolid_of_isDigit (h : c.isDigit = true) : IsSolid c := by
  refine (isSolid_of_isBare ?_).1
  simp [isBare, Char.isAlphanum, h]

theorem readValue_toDigits (h : 0 < n) :
    readValue (steps + 1) (Nat.toDigits 10 n ++ '\n' :: rest)
      = some (.integer n, '\n' :: rest) := by
  have hread : readScalar (Nat.toDigits 10 n ++ '\n' :: rest) = some (.integer n, '\n' :: rest) :=
    readScalar_toDigits h
  obtain ⟨c, t, ht, hdigit⟩ := exists_toDigits_append n ('\n' :: rest)
  have hne : ∀ {d}, d.isDigit = false → ∀ {v}, c :: t ≠ d :: v := by
    intro d hd v heq
    exact ne_of_isDigit hdigit hd (List.cons.inj heq).1
  rw [ht] at hread ⊢
  rw [readValue, hread]
  · exact fun v => hne (by decide)
  · exact fun v => hne (by decide)
  · exact fun v => hne (by decide)
  · exact fun v => hne (by decide)

/-! ## Arrays of strings -/

/-- A written string begins with a quote, so it is no blank, no comment and no end of an array, and
it is read back as a value. -/
theorem exists_item (steps : Nat) (t : Text) (hdouble : rest.head? ≠ some '"')
    (hsingle : rest.head? ≠ some '\'') :
    ∃ c v, writeString t ++ rest = c :: v ∧ IsSolid c ∧ c ≠ ']'
      ∧ readValue (steps + 1) (c :: v) = some (.string t, rest) := by
  have hread := readString_writeString hdouble hsingle t
  obtain ⟨quote, v, hv, rfl | rfl⟩ := exists_writeString_eq t
  · rw [hv, List.cons_append] at hread ⊢
    refine ⟨'"', v ++ rest, rfl, by decide, by decide, ?_⟩
    rw [readValue, hread]
    rfl
  · rw [hv, List.cons_append] at hread ⊢
    refine ⟨'\'', v ++ rest, rfl, by decide, by decide, ?_⟩
    rw [readValue, hread]
    rfl

theorem readItems_comma (t rest : Text) :
    readItems (steps + 2) (writeString t ++ ',' :: rest)
      = (readItems (steps + 1) rest).map fun r => (.string t :: r.1, r.2) := by
  have hcomma : skipTrivia false (',' :: rest) = some (',' :: rest) :=
    skipTrivia_of_solid (by decide)
  obtain ⟨c, v, hv, hsolid, hbracket, hvalue⟩ :=
    exists_item steps t (show (',' :: rest).head? ≠ some '"' by simp) (by simp)
  rw [hv, readItems, skipTrivia_of_solid hsolid]
  simp [hbracket, hvalue, hcomma]

theorem readItems_last (t rest : Text) :
    readItems (steps + 2) (writeString t ++ ']' :: rest) = some ([.string t], rest) := by
  have hend : skipTrivia false (']' :: rest) = some (']' :: rest) :=
    skipTrivia_of_solid (by decide)
  obtain ⟨c, v, hv, hsolid, hbracket, hvalue⟩ :=
    exists_item steps t (show (']' :: rest).head? ≠ some '"' by simp) (by simp)
  rw [hv, readItems, skipTrivia_of_solid hsolid]
  simp [hbracket, hvalue, hend]

/-- An item on a line of its own. -/
theorem readItems_indented (t : Text) :
    readItems steps ('\n' :: ("    ".toList ++ t)) = readItems steps t := by
  cases steps with
  | zero => rfl
  | succ steps =>
    rw [readItems, readItems]
    rfl

/-- Strings as items, each on a line of its own and with a comma. -/
def itemLines (texts : List Text) : Text :=
  texts.flatMap fun text => "    ".toList ++ writeString text ++ [',', '\n']

theorem length_le_itemLines (texts : List Text) : texts.length ≤ (itemLines texts).length := by
  induction texts with
  | nil => exact Nat.zero_le _
  | cons text texts ih =>
    rw [itemLines, List.flatMap_cons, List.length_append, List.length_append, List.length_cons]
    have hline : 1 ≤ ([',', '\n'] : Text).length := by decide
    rw [itemLines] at ih
    omega

theorem readItems_itemLines (h : texts.length < steps) :
    readItems steps ('\n' :: (itemLines texts ++ ']' :: rest))
      = some (texts.map .string, rest) := by
  induction texts generalizing steps with
  | nil =>
    obtain ⟨steps, rfl⟩ : ∃ k, steps = k + 1 := ⟨steps - 1, by omega⟩
    rfl
  | cons text texts ih =>
    rw [List.length_cons] at h
    obtain ⟨steps, rfl⟩ : ∃ k, steps = k + 2 := ⟨steps - 2, by omega⟩
    have hrest : readItems (steps + 1) ('\n' :: (itemLines texts ++ ']' :: rest))
        = some (texts.map .string, rest) := ih (by omega)
    rw [itemLines, List.flatMap_cons, List.append_assoc, List.append_assoc, List.append_assoc,
      readItems_indented, List.cons_append, List.cons_append, List.nil_append,
      readItems_comma]
    show (readItems (steps + 1) ('\n' :: (itemLines texts ++ ']' :: rest))).map _ = _
    rw [hrest]
    rfl

/-! ## Statements -/

theorem readStatement_header (h : IsBareKey k) :
    readStatement (steps + 1) ('[' :: (k ++ ']' :: '\n' :: t)) = some (.header [k], t) := by
  have hpath : readPath (steps + 1) (k ++ ']' :: '\n' :: t) = some ([k], ']' :: '\n' :: t) :=
    readPath_of_bare h (by decide) rfl (by decide)
  obtain ⟨c, v, rfl, -, hbracket, -⟩ := h.exists_eq
  rw [List.cons_append] at hpath ⊢
  rw [readStatement]
  · rw [hpath]
    rfl
  · intro v heq
    exact absurd (List.cons.inj heq).1 hbracket

theorem readStatement_entry {v : Value} (h : IsBareKey k) (hsolid : IsSolid c)
    (hvalue : readValue (steps + 1) (c :: w ++ '\n' :: t) = some (v, '\n' :: t)) :
    readStatement (steps + 1) (k ++ " = ".toList ++ c :: w ++ '\n' :: t)
      = some (.entry [k] v, t) := by
  have hpath : readPath (steps + 1) (k ++ ' ' :: '=' :: ' ' :: (c :: w ++ '\n' :: t))
      = some ([k], '=' :: ' ' :: (c :: w ++ '\n' :: t)) :=
    readPath_of_bare h (by decide) rfl (by decide)
  have hgap : skipGap (' ' :: (c :: w ++ '\n' :: t)) = c :: w ++ '\n' :: t :=
    skipGap_of_solid hsolid
  have htext : k ++ " = ".toList ++ c :: w ++ '\n' :: t
      = k ++ ' ' :: '=' :: ' ' :: (c :: w ++ '\n' :: t) := by simp
  obtain ⟨d, x, rfl, -, hbracket, -⟩ := h.exists_eq
  rw [htext, List.cons_append]
  rw [List.cons_append] at hpath
  rw [readStatement]
  · simp only [hpath, hgap, hvalue]
    rfl
  · intro y heq
    exact absurd (List.cons.inj heq).1 hbracket
  · intro y heq
    exact absurd (List.cons.inj heq).1 hbracket

/-- The lines of the text are read as the statements, given more steps than characters. -/
def ReadsAs (t : Text) (statements : List Statement) : Prop :=
  ∀ steps, t.length < steps → readStatements steps t = some statements

namespace ReadsAs

variable {statements : List Statement} {statement : Statement}

theorem nil : ReadsAs [] [] := by
  intro steps hsteps
  obtain ⟨steps, rfl⟩ : ∃ k, steps = k + 1 := ⟨steps - 1, by omega⟩
  rfl

/-- An empty line is passed over. -/
theorem blank (h : ReadsAs t statements) : ReadsAs ('\n' :: t) statements := by
  intro steps hsteps
  rw [List.length_cons] at hsteps
  have hread := h steps (Nat.lt_of_succ_lt hsteps)
  obtain ⟨steps, rfl⟩ : ∃ k, steps = k + 1 := ⟨steps - 1, by omega⟩
  rw [readStatements] at hread ⊢
  exact hread

/-- A line that begins something is read up to its end, and the rest after it. -/
theorem line (hsolid : IsSolid c) (h : ReadsAs t statements)
    (hline : ∀ steps, w.length < steps → readStatement steps (c :: w ++ t) = some (statement, t)) :
    ReadsAs (c :: w ++ t) (statement :: statements) := by
  intro steps hsteps
  rw [List.cons_append, List.length_cons, List.length_append] at hsteps
  obtain ⟨steps, rfl⟩ : ∃ k, steps = k + 1 := ⟨steps - 1, by omega⟩
  have hread := hline steps (by omega)
  rw [List.cons_append] at hread ⊢
  rw [readStatements, skipTrivia_of_solid hsolid]
  simp only [hread]
  rw [h _ (by omega)]
  rfl

/-- A document that is read as statements is what they come to. -/
theorem read?_eq (h : ReadsAs t statements) (hreturn : '\r' ∉ t) (hmark : t.head? ≠ some '\ufeff') :
    read? t = build [] [] statements := by
  have hskip : skipMark t = t := by
    cases t with
    | nil => rfl
    | cons c t =>
      have hc : c ≠ '\ufeff' := by
        rintro rfl
        exact hmark rfl
      simp [skipMark, hc]
  rw [read?, hskip, unifyLineEnds_of_not_mem hreturn, h _ (Nat.lt_succ_self _)]
  rfl

end ReadsAs

/-! ## What statements come to -/

namespace Entries

variable {es : Entries} {v : Value}

/-- A key is looked for behind the entries that do not have it. -/
theorem get?_append_of_new (h : k ∉ es.map Prod.fst) (more : Entries) :
    get? (es ++ more) k = get? more k := by
  have hnone : es.find? (fun e => e.1 == k) = none := by
    rw [List.find?_eq_none]
    intro e he heq
    exact h (List.mem_map.mpr ⟨e, he, eq_of_beq heq⟩)
  rw [get?, List.find?_append, hnone, Option.none_or, get?]

/-- A value is put behind the entries that do not have its key. -/
theorem put_append_of_new (h : k ∉ es.map Prod.fst) (more : Entries) :
    put (es ++ more) k v = es ++ put more k v := by
  induction es with
  | nil => rfl
  | cons e es ih =>
    rw [List.map_cons, List.mem_cons, not_or] at h
    have hne : (e.1 == k) = false := by simpa using Ne.symm h.1
    rw [List.cons_append, put, hne]
    simp [ih h.2]

theorem get?_of_new (h : k ∉ es.map Prod.fst) : es.get? k = none := by
  have hget := get?_append_of_new h []
  rwa [List.append_nil] at hget

theorem put_of_new (h : k ∉ es.map Prod.fst) : es.put k v = es ++ [(k, v)] := by
  have hput : put (es ++ []) k v = es ++ put [] k v := put_append_of_new h []
  rwa [List.append_nil] at hput

theorem get?_append_self (h : k ∉ es.map Prod.fst) : get? (es ++ [(k, v)]) k = some v := by
  rw [get?_append_of_new h]
  simp [get?]

theorem put_append_self {v' : Value} (h : k ∉ es.map Prod.fst) :
    put (es ++ [(k, v)]) k v' = es ++ [(k, v')] := by
  rw [put_append_of_new h]
  simp [put]

end Entries

/-- A table with its header and its entries. -/
abbrev Section := Key × Entries

namespace Section

/-- The statements that a section is written as. -/
def statements (x : Section) : List Statement :=
  .header [x.1] :: x.2.map fun e => .entry [e.1] e.2

/-- The table as an entry of the document. -/
def entry (x : Section) : Key × Value := (x.1, .table .header x.2)

end Section

open Entries

theorem build_entries {es sub xs : Entries} {more : List Statement} (hk : k ∉ es.map Prod.fst)
    (hdistinct : (sub ++ xs).map Prod.fst |>.Nodup) :
    build (es ++ [(k, .table .header sub)]) [k] (xs.map (fun e => .entry [e.1] e.2) ++ more)
      = build (es ++ [(k, .table .header (sub ++ xs))]) [k] more := by
  induction xs generalizing sub with
  | nil => simp
  | cons x xs ih =>
    have hx : x.1 ∉ sub.map Prod.fst := by
      rw [List.map_append, List.nodup_append] at hdistinct
      exact fun hmem => hdistinct.2.2 _ hmem x.1 (by simp) rfl
    have hdefine : define sub [x.1] x.2 = some (sub ++ [(x.1, x.2)]) := by
      simp only [define, get?_of_new hx, put_of_new hx]
    have hstep : atHeader (defineIn [x.1] x.2) (es ++ [(k, .table .header sub)]) [k]
        = some (es ++ [(k, .table .header (sub ++ [x]))]) := by
      simp only [atHeader, defineIn, get?_append_self hk, hdefine, Option.map_some,
        put_append_self hk]
    -- what is defined so far grows by the entry
    have happend : sub ++ x :: xs = (sub ++ [x]) ++ xs := by simp
    rw [happend] at hdistinct ⊢
    rw [List.map_cons, List.cons_append, build]
    · simp only [hstep]
      exact ih hdistinct
    · simp

/-- **Sections with distinct names and keys become the tables of the document.** -/
theorem build_sections {es : Entries} {current : List Key} {xs : List Section}
    (hnames : (es.map Prod.fst ++ xs.map Prod.fst).Nodup)
    (hkeys : ∀ x ∈ xs, (x.2.map Prod.fst).Nodup) :
    build es current (xs.flatMap Section.statements) = some (es ++ xs.map Section.entry) := by
  induction xs generalizing es current with
  | nil => simp [build]
  | cons x xs ih =>
    obtain ⟨hx, hxs⟩ := List.forall_mem_cons.mp hkeys
    have hnew : x.1 ∉ es.map Prod.fst := by
      rw [List.nodup_append] at hnames
      exact fun hmem => hnames.2.2 _ hmem x.1 (by simp) rfl
    have hopen : atHeader openTable es [x.1] = some (es ++ [(x.1, .table .header [])]) := by
      simp only [atHeader, openTable, get?_of_new hnew, put_of_new hnew]
    rw [List.flatMap_cons, Section.statements, List.cons_append, build]
    simp only [hopen]
    rw [build_entries hnew (by simpa using hx), List.nil_append, ih (by simpa using hnames) hxs]
    simp [Section.entry]

end Vyakarana.Toml
