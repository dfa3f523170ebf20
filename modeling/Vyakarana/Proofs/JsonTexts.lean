import Vyakarana.Json
import Vyakarana.Proofs.TomlDocuments

/-!
# One reading of a JSON text

No two values have the same layout. Every part of a layout shows where it ends: a string at its
closing quote, a number before the first character that is no digit, and a list of items before the
line end that is not preceded by a comma.

* `stringChar_prefixFree` — escaped characters
* `bracketed_append_inj` — items on lines of their own
* `layout_append_inj` — values
* `pretty_injective` — documents
-/

namespace Vyakarana.JsonValue

variable {t u a b : Text} {c d : Char} {level : Nat}

/-- Texts of which none begins another are told apart in front of anything. -/
theorem append_inj_of_prefixFree {α : Type} {f : α → Text} {x y : α}
    (hf : ∀ x y, f x <+: f y → x = y) (h : f x ++ a = f y ++ b) : x = y ∧ a = b := by
  have hx : f x <+: f y ++ b := h ▸ List.prefix_append (f x) a
  obtain rfl : x = y := by
    rcases List.prefix_or_prefix_of_prefix hx (List.prefix_append (f y) b) with hxy | hyx
    · exact hf x y hxy
    · exact (hf y x hyx).symm
  exact ⟨rfl, List.append_cancel_left h⟩

/-! ## Strings -/

/-- The characters that are not written as they are. -/
def escapedChars : List Char := '"' :: '\\' :: (List.range 0x20).map Char.ofNat

/-- Every other character stands for itself. -/
theorem mem_escapedChars_or (c : Char) :
    c ∈ escapedChars ∨ stringChar c = [c] ∧ c ≠ '"' ∧ c ≠ '\\' := by
  by_cases hmem : c ∈ escapedChars
  · exact Or.inl hmem
  have hcontrol : ¬ c.toNat < 0x20 := by
    intro hlt
    refine hmem (List.mem_cons_of_mem _ (List.mem_cons_of_mem _ ?_))
    exact List.mem_map.mpr ⟨c.toNat, List.mem_range.mpr hlt, Char.ofNat_toNat c⟩
  refine Or.inr ⟨?_, ?_, ?_⟩
  · unfold stringChar
    split
    all_goals first
      | exact absurd (by decide) hmem
      | exact if_neg hcontrol
  · rintro rfl
    exact hmem (by decide)
  · rintro rfl
    exact hmem (by decide)

theorem head?_stringChar_escaped (h : c ∈ escapedChars) : (stringChar c).head? = some '\\' := by
  have hall : escapedChars.all (fun c => (stringChar c).head? == some '\\') = true := by
    decide +kernel
  exact beq_iff_eq.mp (List.all_eq_true.mp hall c h)

theorem exists_stringChar_eq (c : Char) : ∃ d v, stringChar c = d :: v ∧ d ≠ '"' := by
  rcases mem_escapedChars_or c with hmem | ⟨hself, hquote, -⟩
  · obtain ⟨v, hv⟩ := List.head?_eq_some_iff.mp (head?_stringChar_escaped hmem)
    exact ⟨'\\', v, hv, by decide⟩
  · exact ⟨c, [], hself, hquote⟩

/-- No written character begins another. -/
theorem stringChar_prefixFree (h : stringChar c <+: stringChar d) : c = d := by
  have hall : (escapedChars.all fun c => escapedChars.all fun d =>
      decide (stringChar c <+: stringChar d → c = d)) = true := by decide +kernel
  rcases mem_escapedChars_or c with hc | ⟨hc, -, hcslash⟩
  · rcases mem_escapedChars_or d with hd | ⟨hd, -, hdslash⟩
    · have hinner := List.all_eq_true.mp (List.all_eq_true.mp hall c hc) d hd
      exact of_decide_eq_true hinner h
    · obtain ⟨v, hv⟩ := List.head?_eq_some_iff.mp (head?_stringChar_escaped hc)
      rw [hv, hd, List.cons_prefix_cons] at h
      exact absurd h.1.symm hdslash
  · rcases mem_escapedChars_or d with hd | ⟨hd, -, -⟩
    · obtain ⟨v, hv⟩ := List.head?_eq_some_iff.mp (head?_stringChar_escaped hd)
      rw [hv, hc, List.cons_prefix_cons] at h
      exact absurd h.1 hcslash
    · rw [hc, hd, List.cons_prefix_cons] at h
      exact h.1

theorem flatMap_stringChar_inj
    (h : t.flatMap stringChar ++ '"' :: a = u.flatMap stringChar ++ '"' :: b) : t = u ∧ a = b := by
  induction t generalizing u with
  | nil =>
    cases u with
    | nil => exact ⟨rfl, (List.cons.inj h).2⟩
    | cons d u =>
      obtain ⟨e, v, hd, hquote⟩ := exists_stringChar_eq d
      rw [List.flatMap_cons, hd] at h
      exact absurd (List.cons.inj h).1.symm hquote
  | cons c t ih =>
    cases u with
    | nil =>
      obtain ⟨e, v, hc, hquote⟩ := exists_stringChar_eq c
      rw [List.flatMap_cons, hc] at h
      exact absurd (List.cons.inj h).1 hquote
    | cons d u =>
      rw [List.flatMap_cons, List.flatMap_cons, List.append_assoc, List.append_assoc] at h
      obtain ⟨rfl, hrest⟩ := append_inj_of_prefixFree (fun _ _ => stringChar_prefixFree) h
      obtain ⟨rfl, hab⟩ := ih hrest
      exact ⟨rfl, hab⟩

theorem writeString_append_inj (h : writeString t ++ a = writeString u ++ b) : t = u ∧ a = b := by
  unfold writeString at h
  rw [List.append_assoc, List.append_assoc, List.append_assoc, List.append_assoc] at h
  exact flatMap_stringChar_inj (List.append_cancel_left h)

/-! ## Numbers -/

/-- The text does not go on with a digit. -/
def Stops (t : Text) : Prop := ∀ c ∈ t.head?, c.isDigit = false

theorem takeWhile_isDigit (n : Nat) (ha : Stops a) :
    (Nat.toDigits 10 n ++ a).takeWhile Char.isDigit = Nat.toDigits 10 n := by
  rw [List.takeWhile_append_of_pos fun c hc => Toml.isDigit_of_mem_toDigits hc]
  cases a with
  | nil => simp
  | cons c a =>
    rw [List.takeWhile_cons_of_neg (by simp [ha c rfl]), List.append_nil]

theorem toDigits_append_inj {m n : Nat} (ha : Stops a) (hb : Stops b)
    (h : Nat.toDigits 10 m ++ a = Nat.toDigits 10 n ++ b) : m = n ∧ a = b := by
  have hdigits : Nat.toDigits 10 m = Nat.toDigits 10 n := by
    rw [← takeWhile_isDigit m ha, h, takeWhile_isDigit n hb]
  obtain rfl : m = n := by
    rw [← Nat.ofDigitChars_ten_toDigits (n := m), hdigits, Nat.ofDigitChars_ten_toDigits]
  exact ⟨rfl, List.append_cancel_left h⟩

/-! ## Items between brackets -/

section Items

variable {α : Type} {f : α → Text} {xs ys : List α} {sep close : Text}

theorem intercalate_cons (sep t : Text) (texts : List Text) :
    sep.intercalate (t :: texts) = t ++ texts.flatMap (sep ++ ·) := by
  induction texts generalizing t with
  | nil => simp
  | cons u texts ih =>
    rw [List.intercalate_cons_cons, ih, List.flatMap_cons, List.append_assoc, List.append_assoc]

/-- The text of `x` is told apart from all others, unless what follows goes on with a digit. -/
def ReadsOnce (f : α → Text) (x : α) : Prop :=
  ∀ ⦃y a b⦄, Stops a → Stops b → f x ++ a = f y ++ b → x = y ∧ a = b

/-- The items after the first one, and what follows. -/
def moreItems (f : α → Text) (sep close : Text) (xs : List α) : Text :=
  xs.flatMap (fun x => ',' :: sep ++ f x) ++ '\n' :: close

theorem stops_moreItems (xs : List α) : Stops (moreItems f sep close xs ++ a) := by
  intro c hc
  cases xs with
  | nil =>
    obtain rfl : '\n' = c := Option.some.inj hc
    rfl
  | cons x xs =>
    obtain rfl : ',' = c := Option.some.inj hc
    rfl

theorem moreItems_append_inj (hf : ∀ x ∈ xs, ReadsOnce f x)
    (h : moreItems f sep close xs ++ a = moreItems f sep close ys ++ b) : xs = ys ∧ a = b := by
  induction xs generalizing ys with
  | nil =>
    cases ys with
    | nil => exact ⟨rfl, List.append_cancel_left h⟩
    | cons y ys => exact absurd (List.cons.inj h).1 (by decide)
  | cons x xs ih =>
    obtain ⟨hx, hxs⟩ := List.forall_mem_cons.mp hf
    cases ys with
    | nil => exact absurd (List.cons.inj h).1 (by decide)
    | cons y ys =>
      have hsplit : ∀ (z : α) (zs : List α) (v : Text), moreItems f sep close (z :: zs) ++ v
          = (',' :: sep) ++ (f z ++ (moreItems f sep close zs ++ v)) := by
        intro z zs v
        simp [moreItems]
      rw [hsplit, hsplit] at h
      obtain ⟨rfl, hrest⟩ :=
        hx (stops_moreItems xs) (stops_moreItems ys) (List.append_cancel_left h)
      obtain ⟨rfl, hab⟩ := ih hxs hrest
      exact ⟨rfl, hab⟩

theorem bracketed_cons (opening closing : Char) (x : α) (xs : List α) :
    bracketed opening closing level ((x :: xs).map f)
      = opening :: newLine (level + 1) ++ (f x
        ++ moreItems f (newLine (level + 1)) (List.replicate (2 * level) ' ' ++ [closing]) xs) := by
  show opening :: newLine (level + 1) ++ List.intercalate _ (f x :: xs.map f) ++ _ ++ _ = _
  rw [intercalate_cons, List.flatMap_map]
  simp [moreItems, newLine]

/-- Items that are told apart are told apart between brackets. -/
theorem bracketed_append_inj {opening closing : Char} (hclosing : closing ≠ '\n')
    (hf : ∀ x ∈ xs, ReadsOnce f x)
    (h : bracketed opening closing level (xs.map f) ++ a
      = bracketed opening closing level (ys.map f) ++ b) : xs = ys ∧ a = b := by
  cases xs with
  | nil =>
    cases ys with
    | nil => exact ⟨rfl, List.append_cancel_left h⟩
    | cons y ys =>
      rw [bracketed_cons] at h
      exact absurd (List.cons.inj (List.cons.inj h).2).1 hclosing
  | cons x xs =>
    obtain ⟨hx, hxs⟩ := List.forall_mem_cons.mp hf
    cases ys with
    | nil =>
      rw [bracketed_cons] at h
      exact absurd (List.cons.inj (List.cons.inj h).2).1.symm hclosing
    | cons y ys =>
      rw [bracketed_cons, bracketed_cons, List.append_assoc, List.append_assoc, List.append_assoc,
        List.append_assoc] at h
      obtain ⟨rfl, hrest⟩ :=
        hx (stops_moreItems xs) (stops_moreItems ys) (List.append_cancel_left h)
      obtain ⟨rfl, hab⟩ := moreItems_append_inj hxs hrest
      exact ⟨rfl, hab⟩

end Items

/-! ## Values -/

/-- A member of an object: its name, and its value. -/
def memberText (level : Nat) (member : String × JsonValue) : Text :=
  writeString member.1.toList ++ [':', ' '] ++ layout level member.2

theorem layoutItems_eq_map (level : Nat) (items : List JsonValue) :
    layoutItems level items = items.map (layout level) := by
  induction items with
  | nil => rfl
  | cons v items ih => rw [layoutItems, ih, List.map_cons]

theorem layoutMembers_eq_map (level : Nat) (members : List (String × JsonValue)) :
    layoutMembers level members = members.map (memberText level) := by
  induction members with
  | nil => rfl
  | cons member members ih =>
    rw [layoutMembers, ih, List.map_cons]
    rfl

/-- The kinds of values. -/
inductive Kind where
  | string | number | boolean | array | object
deriving DecidableEq

/-- The kind of a value. -/
def kind : JsonValue → Kind
  | string _ => .string
  | number _ => .number
  | boolean _ => .boolean
  | array _ => .array
  | object _ => .object

/-- The kind of the values that begin with a character. -/
def Kind.ofFirst (c : Char) : Kind :=
  if c = '"' then .string
  else if c = '[' then .array
  else if c = '\x7b' then .object
  else if c.isDigit then .number
  else .boolean

theorem exists_bracketed_eq (opening closing : Char) (level : Nat) (items : List Text) :
    ∃ v, bracketed opening closing level items = opening :: v := by
  cases items with
  | nil => exact ⟨_, rfl⟩
  | cons item items => exact ⟨_, rfl⟩

/-- The first character shows the kind. -/
theorem exists_layout_eq (level : Nat) (v : JsonValue) :
    ∃ c t, layout level v = c :: t ∧ Kind.ofFirst c = v.kind := by
  cases v with
  | string t => exact ⟨'"', _, rfl, rfl⟩
  | number n =>
    obtain ⟨c, t, hdigits, hc⟩ := Toml.exists_toDigits_append n []
    rw [List.append_nil] at hdigits
    refine ⟨c, t, hdigits, ?_⟩
    have hquote := Toml.ne_of_isDigit hc (d := '"') rfl
    have hbracket := Toml.ne_of_isDigit hc (d := '[') rfl
    have hbrace := Toml.ne_of_isDigit hc (d := '\x7b') rfl
    simp [Kind.ofFirst, kind, hquote, hbracket, hbrace, hc]
  | boolean b => cases b <;> exact ⟨_, _, rfl, rfl⟩
  | array items =>
    obtain ⟨t, ht⟩ := exists_bracketed_eq '[' ']' level (layoutItems (level + 1) items)
    exact ⟨'[', t, ht, rfl⟩
  | object members =>
    obtain ⟨t, ht⟩ := exists_bracketed_eq '\x7b' '\x7d' level (layoutMembers (level + 1) members)
    exact ⟨'\x7b', t, ht, rfl⟩

theorem kind_eq_of_layout {v w : JsonValue} (h : layout level v ++ a = layout level w ++ b) :
    v.kind = w.kind := by
  obtain ⟨c, t, hv, hc⟩ := exists_layout_eq level v
  obtain ⟨d, u, hw, hd⟩ := exists_layout_eq level w
  rw [hv, hw] at h
  rw [← hc, ← hd, (List.cons.inj h).1]

/-- Different values are told apart by their layout, whatever follows, unless it is a digit. -/
theorem layout_readsOnce (level : Nat) (v : JsonValue) : ReadsOnce (layout level) v := by
  intro w a b ha hb h
  have hkind := kind_eq_of_layout h
  match v, w, hkind with
  | .string t, .string u, _ =>
    obtain ⟨rfl, hab⟩ := writeString_append_inj h
    exact ⟨rfl, hab⟩
  | .number m, .number n, _ =>
    obtain ⟨rfl, hab⟩ := toDigits_append_inj ha hb h
    exact ⟨rfl, hab⟩
  | .boolean p, .boolean q, _ =>
    have hprefix : ∀ p q : Bool, (if p then "true" else "false").toList
        <+: (if q then "true" else "false").toList → p = q := by decide
    obtain ⟨rfl, hab⟩ := append_inj_of_prefixFree hprefix h
    exact ⟨rfl, hab⟩
  | .array xs, .array ys, _ =>
    have hitems : ∀ x ∈ xs, ReadsOnce (layout (level + 1)) x :=
      fun x hx => layout_readsOnce (level + 1) x
    rw [layout, layout, layoutItems_eq_map, layoutItems_eq_map] at h
    obtain ⟨rfl, hab⟩ := bracketed_append_inj (by decide) hitems h
    exact ⟨rfl, hab⟩
  | .object xs, .object ys, _ =>
    have hmembers : ∀ x ∈ xs, ReadsOnce (memberText (level + 1)) x := by
      rintro ⟨name, x⟩ hx ⟨name', y⟩ a b ha hb h
      simp only [memberText, List.append_assoc] at h
      obtain ⟨hname, hrest⟩ := writeString_append_inj h
      obtain ⟨rfl, hab⟩ := layout_readsOnce (level + 1) x ha hb (List.append_cancel_left hrest)
      exact ⟨Prod.ext (String.toList_injective hname) rfl, hab⟩
    rw [layout, layout, layoutMembers_eq_map, layoutMembers_eq_map] at h
    obtain ⟨rfl, hab⟩ := bracketed_append_inj (by decide) hmembers h
    exact ⟨rfl, hab⟩
termination_by sizeOf v
decreasing_by
  · have hlt := List.sizeOf_lt_of_mem hx
    simp only [array.sizeOf_spec]
    omega
  · have hlt := List.sizeOf_lt_of_mem hx
    simp only [object.sizeOf_spec, Prod.mk.sizeOf_spec] at hlt ⊢
    omega

/-- **A JSON text has one reading.** -/
theorem pretty_injective {v w : JsonValue} (h : v.pretty = w.pretty) : v = w := by
  have hnil : Stops [] := fun c hc => by simp at hc
  exact (layout_readsOnce 0 v hnil hnil (congrArg (· ++ []) h)).1

end Vyakarana.JsonValue
