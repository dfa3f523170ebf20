import Vyakarana.Config.Load
import Vyakarana.Proofs.TomlDocuments

/-!
# Configurations are loaded as they were written

An acceptable configuration that is written to a file is loaded from it unchanged. So is a part of
one: the settings that the file has are those of the configuration, and the others are those by
default. Headers without settings do not matter.

* `Config.readValue_writeSetting` — one setting
* `Config.readsAs_intercalate` — the lines of a file
* `Config.loadOrDefault_of_written` — the whole way there and back
-/

namespace Vyakarana

open Toml (Key Value Entries IsSolid IsBareKey ReadsAs Statement)

variable {c : Config} {roots : List Text} {t rest : Text} {steps : Nat}

namespace Config

open Toml (readItems readValue itemLines length_le_itemLines)

/-! ## Settings -/

theorem writeRoots_cases (roots : List Text) :
    roots = [] ∨ (∃ root, roots = [root])
      ∨ writeRoots roots = '[' :: '\n' :: (itemLines roots ++ [']']) := by
  match roots with
  | [] => exact Or.inl rfl
  | [root] => exact Or.inr (Or.inl ⟨root, rfl⟩)
  | root :: root' :: roots => exact Or.inr (Or.inr rfl)

theorem length_lt_writeRoots (roots : List Text) : roots.length < (writeRoots roots).length := by
  rcases writeRoots_cases roots with rfl | ⟨root, rfl⟩ | hlines
  · decide
  · simp [writeRoots]
  · have hle := length_le_itemLines roots
    rw [hlines, List.length_cons, List.length_cons, List.length_append]
    omega

/-- **A list of roots is read back.** -/
theorem readValue_writeRoots (roots : List Text) (h : roots.length < steps) :
    readValue (steps + 1) (writeRoots roots ++ rest) = some (.array (roots.map .string), rest) := by
  rcases writeRoots_cases roots with rfl | ⟨root, rfl⟩ | hlines
  · obtain ⟨steps, rfl⟩ : ∃ k, steps = k + 1 := ⟨steps - 1, by omega⟩
    rfl
  · rw [List.length_singleton] at h
    obtain ⟨steps, rfl⟩ : ∃ k, steps = k + 2 := ⟨steps - 2, by omega⟩
    have hitems : readItems (steps + 2) (Toml.writeString root ++ ']' :: rest)
        = some ([.string root], rest) := Toml.readItems_last root rest
    have hwritten : writeRoots [root] ++ rest = '[' :: (Toml.writeString root ++ ']' :: rest) := by
      simp [writeRoots]
    rw [hwritten, readValue, hitems]
    rfl
  · have hwritten : writeRoots roots ++ rest = '[' :: '\n' :: (itemLines roots ++ ']' :: rest) := by
      rw [hlines]
      simp
    rw [hwritten, readValue, Toml.readItems_itemLines h]
    rfl

/-- The value of a setting. -/
def value (c : Config) : Setting → Value
  | .maxSteps => .integer c.limits.maxSteps
  | .maxResults => .integer c.limits.maxResults
  | .vac => .array (c.gana.vac.map .string)
  | .grah => .array (c.gana.grah.map .string)
  | .phan => .array (c.gana.phan.map .string)

/-- What checking a configuration comes to. -/
theorem validate_eq_ok_iff : c.validate = .ok () ↔ 0 < c.limits.maxSteps ∧ 0 < c.limits.maxResults
    ∧ hasBlank c.gana.vac = false ∧ hasBlank c.gana.grah = false
    ∧ hasBlank c.gana.phan = false := by
  simp only [validate, Nat.pos_iff_ne_zero]
  split
  · simp [*]
  split
  · simp [*]
  split
  · simp [*]
  split
  · simp [*]
  split
  · simp [*]
  · simp [*]

theorem isBareKey_key (s : Setting) : IsBareKey s.key := by
  have hall : s.key ≠ [] ∧ s.key.all Toml.isBare = true := by
    cases s <;> decide +kernel
  exact ⟨hall.1, List.all_eq_true.mp hall.2⟩

/-- A setting is a number or a list of roots. The numbers of an acceptable configuration are
positive. -/
theorem writeSetting_cases (c : Config) (s : Setting) :
    (∃ n, (c.validate = .ok () → 0 < n) ∧ c.writeSetting s = Nat.toDigits 10 n
      ∧ c.value s = .integer n)
    ∨ ∃ roots, c.writeSetting s = writeRoots roots ∧ c.value s = .array (roots.map .string) := by
  cases s with
  | maxSteps => exact Or.inl ⟨_, fun hc => (validate_eq_ok_iff.mp hc).1, rfl, rfl⟩
  | maxResults => exact Or.inl ⟨_, fun hc => (validate_eq_ok_iff.mp hc).2.1, rfl, rfl⟩
  | vac => exact Or.inr ⟨_, rfl, rfl⟩
  | grah => exact Or.inr ⟨_, rfl, rfl⟩
  | phan => exact Or.inr ⟨_, rfl, rfl⟩

/-- **The value of a setting is read back** from the line that it ends. -/
theorem readValue_writeSetting (s : Setting) (hc : c.validate = .ok ())
    (h : (c.writeSetting s).length ≤ steps) :
    readValue (steps + 1) (c.writeSetting s ++ '\n' :: rest)
      = some (c.value s, '\n' :: rest) := by
  rcases c.writeSetting_cases s with ⟨n, hn, hwritten, hvalue⟩ | ⟨roots, hwritten, hvalue⟩
  · rw [hwritten, hvalue]
    exact Toml.readValue_toDigits (hn hc)
  · rw [hwritten] at h ⊢
    rw [hvalue]
    exact readValue_writeRoots roots (Nat.lt_of_lt_of_le (length_lt_writeRoots roots) h)

/-- A written value does not begin with a blank. -/
theorem exists_writeSetting_eq (c : Config) (s : Setting) :
    ∃ d w, c.writeSetting s = d :: w ∧ IsSolid d := by
  rcases c.writeSetting_cases s with ⟨n, -, hwritten, -⟩ | ⟨roots, hwritten, -⟩
  · obtain ⟨d, w, hw, hdigit⟩ := Toml.exists_toDigits_append n []
    rw [List.append_nil] at hw
    exact ⟨d, w, hwritten.trans hw, Toml.isSolid_of_isDigit hdigit⟩
  · rw [hwritten]
    rcases writeRoots_cases roots with rfl | ⟨root, rfl⟩ | hlines
    · exact ⟨_, _, rfl, by decide⟩
    · exact ⟨_, _, rfl, by decide⟩
    · exact ⟨_, _, hlines, by decide⟩

/-! ## Lines -/

/-- The settings under a header, as a section of a document. -/
def sectionOf (c : Config) (keep : Setting → Bool) (table : Key × List Setting) : Toml.Section :=
  (table.1, (table.2.filter keep).map fun s => (s.key, c.value s))

theorem readsAs_settingLine {statements : List Statement} (s : Setting) (hc : c.validate = .ok ())
    (h : ReadsAs t statements) :
    ReadsAs (c.settingLine s ++ t) (.entry [s.key] (c.value s) :: statements) := by
  obtain ⟨d, v, hkey, hsolid, -⟩ := (isBareKey_key s).exists_eq
  obtain ⟨e, w, hwritten, hvalue⟩ := c.exists_writeSetting_eq s
  have hline : c.settingLine s = d :: (v ++ " = ".toList ++ c.writeSetting s ++ ['\n']) := by
    rw [settingLine, hkey]
    rfl
  rw [hline]
  refine h.line hsolid fun steps hsteps => ?_
  obtain ⟨steps, rfl⟩ : ∃ k, steps = k + 1 := ⟨steps - 1, by omega⟩
  have hread : Toml.readValue (steps + 1) (c.writeSetting s ++ '\n' :: t)
      = some (c.value s, '\n' :: t) := by
    refine readValue_writeSetting s hc ?_
    simp only [List.length_append] at hsteps
    omega
  rw [hwritten] at hread
  have htext : d :: (v ++ " = ".toList ++ c.writeSetting s ++ ['\n']) ++ t
      = s.key ++ " = ".toList ++ e :: w ++ '\n' :: t := by
    rw [hkey, ← hwritten]
    simp
  rw [htext]
  exact Toml.readStatement_entry (isBareKey_key s) hvalue hread

theorem readsAs_settingLines {statements : List Statement} (settings : List Setting)
    (hc : c.validate = .ok ()) (h : ReadsAs t statements) :
    ReadsAs (settings.flatMap c.settingLine ++ t)
      ((settings.map fun s => Statement.entry [s.key] (c.value s)) ++ statements) := by
  induction settings with
  | nil => exact h
  | cons s settings ih =>
    rw [List.flatMap_cons, List.append_assoc]
    exact readsAs_settingLine s hc ih

theorem readsAs_writeTable {statements : List Statement} {table : Key × List Setting}
    (keep : Setting → Bool) (hname : IsBareKey table.1) (hc : c.validate = .ok ())
    (h : ReadsAs t statements) :
    ReadsAs (c.writeTable keep table ++ t) ((c.sectionOf keep table).statements ++ statements) := by
  have hlines := readsAs_settingLines (table.2.filter keep) hc h
  have htext : c.writeTable keep table ++ t = '[' :: (table.1 ++ [']', '\n'])
      ++ ((table.2.filter keep).flatMap c.settingLine ++ t) := by
    rw [writeTable, List.append_assoc]
    rfl
  have hstatements : (c.sectionOf keep table).statements
      = .header [table.1] :: (table.2.filter keep).map fun s => .entry [s.key] (c.value s) := by
    simp [sectionOf, Toml.Section.statements]
  rw [htext, hstatements]
  refine hlines.line (by decide) fun steps hsteps => ?_
  obtain ⟨steps, rfl⟩ : ∃ k, steps = k + 1 := ⟨steps - 1, by omega⟩
  rw [List.cons_append, List.append_assoc]
  exact Toml.readStatement_header hname

/-- The settings kept, under the headers shown, with an empty line between the tables. -/
def writeShown (c : Config) (shown : Key → Bool) (keep : Setting → Bool) : Text :=
  ['\n'].intercalate ((tables.filter (shown ·.1)).map (c.writeTable keep))

theorem writeKept_eq_writeShown (c : Config) (keep : Setting → Bool) :
    c.writeKept keep = c.writeShown (fun _ => true) keep := by
  rw [writeKept, writeShown, List.filter_eq_self.mpr fun _ _ => rfl]

/-- **What the lines of a written configuration are read as.** -/
theorem readsAs_intercalate {tables : List (Key × List Setting)} (keep : Setting → Bool)
    (hnames : ∀ table ∈ tables, IsBareKey table.1) (hc : c.validate = .ok ()) :
    ReadsAs (['\n'].intercalate (tables.map (c.writeTable keep)))
      ((tables.map (c.sectionOf keep)).flatMap Toml.Section.statements) := by
  induction tables with
  | nil => exact ReadsAs.nil
  | cons table tables ih =>
    obtain ⟨hname, hrest⟩ := List.forall_mem_cons.mp hnames
    cases tables with
    | nil =>
      have h := readsAs_writeTable keep hname hc ReadsAs.nil
      simpa using h
    | cons next tables =>
      have h := readsAs_writeTable keep hname hc (ih hrest).blank
      rw [List.map_cons, List.map_cons, List.intercalate_cons_cons]
      simpa using h

/-! ### Carriage returns -/

theorem return_not_mem_of_bare {k : Key} (h : IsBareKey k) : '\r' ∉ k := by
  intro hmem
  exact absurd (h.2 _ hmem) (by decide)

theorem return_not_mem_writeRoots (roots : List Text) : '\r' ∉ writeRoots roots := by
  rcases writeRoots_cases roots with rfl | ⟨root, rfl⟩ | hlines
  · decide
  · simp [writeRoots, Toml.return_not_mem_writeString]
  · rw [hlines]
    simp [itemLines, Toml.return_not_mem_writeString]

theorem return_not_mem_settingLine (c : Config) (s : Setting) : '\r' ∉ c.settingLine s := by
  have hkey := return_not_mem_of_bare (isBareKey_key s)
  have hvalue : '\r' ∉ c.writeSetting s := by
    rcases c.writeSetting_cases s with ⟨n, -, hwritten, -⟩ | ⟨roots, hwritten, -⟩
    · rw [hwritten]
      exact fun hmem => absurd (Toml.isDigit_of_mem_toDigits hmem) (by decide)
    · rw [hwritten]
      exact return_not_mem_writeRoots roots
  simp [settingLine, hkey, hvalue]

theorem return_not_mem_writeTable (c : Config) (keep : Setting → Bool)
    {table : Key × List Setting} (hname : IsBareKey table.1) :
    '\r' ∉ c.writeTable keep table := by
  simp [writeTable, return_not_mem_of_bare hname, return_not_mem_settingLine]

/-- A file begins with a header, if with anything. -/
theorem head?_intercalate_ne {texts : List Text} (h : ∀ t ∈ texts, ∃ v, t = '[' :: v) :
    (['\n'].intercalate texts).head? ≠ some '\ufeff' := by
  cases texts with
  | nil => simp
  | cons t texts =>
    obtain ⟨v, rfl⟩ := h t List.mem_cons_self
    cases texts with
    | nil => simp
    | cons next texts => simp [List.intercalate_cons_cons]

/-! ## Documents -/

theorem isBareKey_of_mem_tables : ∀ table ∈ tables, IsBareKey table.1 := by
  have hall : ∀ table ∈ tables, table.1 ≠ [] ∧ table.1.all Toml.isBare = true := by
    decide +kernel
  exact fun table htable => ⟨(hall table htable).1, List.all_eq_true.mp (hall table htable).2⟩

theorem nodup_keys_of_mem_tables : ∀ table ∈ tables, (table.2.map Setting.key).Nodup := by
  decide

/-- A written configuration is a document of its tables. -/
theorem read?_writeShown (shown : Key → Bool) (keep : Setting → Bool) (hc : c.validate = .ok ()) :
    Toml.read? (c.writeShown shown keep)
      = some ((tables.filter (shown ·.1)).map fun table => (c.sectionOf keep table).entry) := by
  have hsub : (tables.filter (shown ·.1)).Sublist tables := List.filter_sublist
  have hnames : ∀ table ∈ tables.filter (shown ·.1), IsBareKey table.1 := by
    intro table htable
    exact isBareKey_of_mem_tables table (hsub.subset htable)
  have hreturn : '\r' ∉ c.writeShown shown keep := by
    refine Toml.not_mem_intercalate (by decide) fun text htext => ?_
    obtain ⟨table, htable, rfl⟩ := List.mem_map.mp htext
    exact c.return_not_mem_writeTable keep (hnames table htable)
  have hmark : (c.writeShown shown keep).head? ≠ some '\ufeff' := by
    refine head?_intercalate_ne fun text htext => ?_
    obtain ⟨table, -, rfl⟩ := List.mem_map.mp htext
    exact ⟨_, rfl⟩
  have hsections : ((tables.filter (shown ·.1)).map Prod.fst).Nodup :=
    List.Nodup.sublist (hsub.map Prod.fst) (by decide)
  rw [writeShown] at *
  rw [(readsAs_intercalate keep hnames hc).read?_eq hreturn hmark, Toml.build_sections]
  · simp
  · simpa [sectionOf, Function.comp_def] using hsections
  · intro x hx
    obtain ⟨table, htable, rfl⟩ := List.mem_map.mp hx
    have hkeys := nodup_keys_of_mem_tables table (hsub.subset htable)
    simpa [sectionOf, Function.comp_def] using hkeys.sublist (List.filter_sublist.map Setting.key)

/-! ## Reading the settings -/

/-- The kept settings of a configuration, and the defaults for the others. -/
def overlaid (c : Config) (keep : Setting → Bool) : Config where
  limits := {
    maxSteps := if keep .maxSteps then c.limits.maxSteps else ({} : Limits).maxSteps
    maxResults := if keep .maxResults then c.limits.maxResults else ({} : Limits).maxResults }
  gana := {
    vac := if keep .vac then c.gana.vac else ({} : Gana).vac
    grah := if keep .grah then c.gana.grah else ({} : Gana).grah
    phan := if keep .phan then c.gana.phan else ({} : Gana).phan }

theorem overlaid_all (c : Config) : c.overlaid (fun _ => true) = c := rfl

theorem limitOf?_integer {n : Nat} (h : n ≤ maxLimit) : limitOf? (.integer n) = some n := by
  have hle : (n : Int) ≤ maxLimit := Int.ofNat_le.mpr h
  simp [limitOf?, hle]

theorem rootsOf?_strings (roots : List Text) :
    rootsOf? (.array (roots.map .string)) = some roots := by
  rw [rootsOf?]
  induction roots with
  | nil => rfl
  | cons root roots ih => simp [stringOf?, ih]

/-- The table of the limits. -/
def limitsTable : Key × List Setting := ("limits".toList, [.maxSteps, .maxResults])

/-- The table of the root lists. -/
def ganaTable : Key × List Setting := ("gana".toList, [.vac, .grah, .phan])

theorem setAll_limits (keep : Setting → Bool) (hsteps : c.limits.maxSteps ≤ maxLimit)
    (hresults : c.limits.maxResults ≤ maxLimit) :
    setAll setLimit {} (c.sectionOf keep limitsTable).2 = some (c.overlaid keep).limits := by
  have hlimit : ∀ (f : Nat → Limits) {n : Nat}, n ≤ maxLimit →
      (limitOf? (.integer n)).map f = some (f n) := by
    intro f n hn
    rw [limitOf?_integer hn]
    rfl
  have hfirst : ∀ l, setLimit l Setting.maxSteps.key (c.value .maxSteps)
      = some { l with maxSteps := c.limits.maxSteps } :=
    fun l => hlimit (fun n => { l with maxSteps := n }) hsteps
  have hsecond : ∀ l, setLimit l Setting.maxResults.key (c.value .maxResults)
      = some { l with maxResults := c.limits.maxResults } :=
    fun l => hlimit (fun n => { l with maxResults := n }) hresults
  show setAll setLimit {} (([.maxSteps, .maxResults].filter keep).map
    fun s => (s.key, c.value s)) = _
  cases h₁ : keep .maxSteps <;> cases h₂ : keep .maxResults <;>
    simp [setAll, h₁, h₂, hfirst, hsecond, overlaid]

theorem setAll_roots (c : Config) (keep : Setting → Bool) :
    setAll setRoots {} (c.sectionOf keep ganaTable).2 = some (c.overlaid keep).gana := by
  have hroots : ∀ (f : List Text → Gana) roots,
      (rootsOf? (.array (roots.map .string))).map f = some (f roots) := by
    intro f roots
    rw [rootsOf?_strings]
    rfl
  have hvac : ∀ g, setRoots g Setting.vac.key (c.value .vac)
      = some { g with vac := c.gana.vac } :=
    fun g => hroots (fun roots => { g with vac := roots }) c.gana.vac
  have hgrah : ∀ g, setRoots g Setting.grah.key (c.value .grah)
      = some { g with grah := c.gana.grah } :=
    fun g => hroots (fun roots => { g with grah := roots }) c.gana.grah
  have hphan : ∀ g, setRoots g Setting.phan.key (c.value .phan)
      = some { g with phan := c.gana.phan } :=
    fun g => hroots (fun roots => { g with phan := roots }) c.gana.phan
  show setAll setRoots {} (([.vac, .grah, .phan].filter keep).map
    fun s => (s.key, c.value s)) = _
  cases h₁ : keep .vac <;> cases h₂ : keep .grah <;> cases h₃ : keep .phan <;>
    simp [setAll, h₁, h₂, h₃, hvac, hgrah, hphan, overlaid]

theorem setAll_append {α : Type} (set : α → Key → Value → Option α) (a : α) (xs ys : Entries) :
    setAll set a (xs ++ ys) = (setAll set a xs).bind fun b => setAll set b ys := by
  simp [setAll]

/-! ## Files -/

/-- A header is shown for every setting that is kept. -/
def Covers (shown : Key → Bool) (keep : Setting → Bool) : Prop :=
  ∀ table ∈ tables, ∀ s ∈ table.2, keep s = true → shown table.1 = true

section Covered

variable {shown : Key → Bool} {keep : Setting → Bool}

theorem Covers.keep_eq_false (h : Covers shown keep) (table : Key × List Setting)
    (htable : table ∈ tables) (hhidden : shown table.1 = false) :
    ∀ s ∈ table.2, keep s = false := by
  intro s hs
  refine Bool.eq_false_iff.mpr fun hkeep => ?_
  rw [h table htable s hs hkeep] at hhidden
  simp at hhidden

/-- Whether its header is shown or not, the limits of the file are those it has. -/
theorem setAll_limitsTable (h : Covers shown keep) (hsteps : c.limits.maxSteps ≤ maxLimit)
    (hresults : c.limits.maxResults ≤ maxLimit) (g : Gana) :
    setAll setTable { gana := g }
        (([limitsTable].filter (shown ·.1)).map fun table => (c.sectionOf keep table).entry)
      = some { limits := (c.overlaid keep).limits, gana := g } := by
  cases hshown : shown limitsTable.1 with
  | true =>
    have hone : [limitsTable].filter (shown ·.1) = [limitsTable] := by simp [hshown]
    rw [hone]
    show ((setAll setLimit {} (c.sectionOf keep limitsTable).2).map _).bind _ = _
    rw [setAll_limits keep hsteps hresults]
    rfl
  | false =>
    have hkeep := h.keep_eq_false limitsTable (by decide) hshown
    have hnone : [limitsTable].filter (shown ·.1) = [] := by simp [hshown]
    rw [hnone]
    simp [setAll, overlaid, hkeep .maxSteps (by decide), hkeep .maxResults (by decide)]

theorem setAll_ganaTable (c : Config) (h : Covers shown keep) (l : Limits) :
    setAll setTable { limits := l }
        (([ganaTable].filter (shown ·.1)).map fun table => (c.sectionOf keep table).entry)
      = some { limits := l, gana := (c.overlaid keep).gana } := by
  cases hshown : shown ganaTable.1 with
  | true =>
    have hone : [ganaTable].filter (shown ·.1) = [ganaTable] := by simp [hshown]
    rw [hone]
    show ((setAll setRoots {} (c.sectionOf keep ganaTable).2).map _).bind _ = _
    rw [setAll_roots c keep]
    rfl
  | false =>
    have hkeep := h.keep_eq_false ganaTable (by decide) hshown
    have hnone : [ganaTable].filter (shown ·.1) = [] := by simp [hshown]
    rw [hnone]
    simp [setAll, overlaid, hkeep .vac (by decide), hkeep .grah (by decide),
      hkeep .phan (by decide)]

/-- **The file of a configuration describes the settings that it has**, and no others. -/
theorem ofToml?_writeShown (h : Covers shown keep) (hc : c.validate = .ok ())
    (hsteps : c.limits.maxSteps ≤ maxLimit) (hresults : c.limits.maxResults ≤ maxLimit) :
    ofToml? (c.writeShown shown keep) = some (c.overlaid keep) := by
  have htables : tables = [limitsTable] ++ [ganaTable] := rfl
  rw [ofToml?, read?_writeShown shown keep hc, Option.bind_some, htables, List.filter_append,
    List.map_append, setAll_append, setAll_limitsTable h hsteps hresults, Option.bind_some,
    setAll_ganaTable c h]

/-- The defaults are acceptable, so every mixture with them is. -/
theorem validate_overlaid (keep : Setting → Bool) (hc : c.validate = .ok ()) :
    (c.overlaid keep).validate = .ok () := by
  have hpick : ∀ {α : Type} (P : α → Prop) (s : Setting) {x y : α}, P x → P y →
      P (if keep s then x else y) := by
    intro α P s x y hx hy
    split
    · exact hx
    · exact hy
  obtain ⟨hsteps, hresults, hvac, hgrah, hphan⟩ := validate_eq_ok_iff.mp hc
  exact validate_eq_ok_iff.mpr ⟨hpick (0 < ·) .maxSteps hsteps (by decide),
    hpick (0 < ·) .maxResults hresults (by decide),
    hpick (hasBlank · = false) .vac hvac (by decide),
    hpick (hasBlank · = false) .grah hgrah (by decide),
    hpick (hasBlank · = false) .phan hphan (by decide)⟩

end Covered

end Config

/-- The file at a path has the text. -/
def Files.Holds (files : Files) (path t : Text) : Prop :=
  files.read path = .ok (String.ofList t).toUTF8

theorem Files.readText_of_holds {files : Files} {path : Text} (h : files.Holds path t) :
    files.readText path = .ok t := by
  have hutf8 : String.fromUTF8? (String.ofList t).toUTF8 = some (String.ofList t) :=
    dif_pos (String.ofList t).isValidUTF8
  rw [readText, h]
  simp only [hutf8, String.toList_ofList]

/-- **An acceptable configuration is loaded as it was written.** Of a file that has the lines of
some settings only, under their headers, those settings are loaded and the defaults for the
others, whatever further headers it has. -/
theorem Config.loadOrDefault_of_written (hc : c.validate = .ok ())
    (hsteps : c.limits.maxSteps ≤ maxLimit) (hresults : c.limits.maxResults ≤ maxLimit)
    {files : Files} {path : Text} :
    (files.Holds path c.toToml → loadOrDefault files (some path) = .ok c)
    ∧ ∀ {shown keep}, Covers shown keep → files.Holds path (c.writeShown shown keep) →
      loadOrDefault files (some path) = .ok (c.overlaid keep) := by
  have hpart : ∀ {shown keep}, Covers shown keep → files.Holds path (c.writeShown shown keep) →
      loadOrDefault files (some path) = .ok (c.overlaid keep) := by
    intro shown keep hcovers hfile
    rw [loadOrDefault, load, Files.readText_of_holds hfile]
    simp only [ofToml?_writeShown hcovers hc hsteps hresults, validate_overlaid keep hc]
  refine ⟨fun hfile => ?_, hpart⟩
  rw [toToml, writeKept_eq_writeShown] at hfile
  rw [hpart (fun _ _ _ _ _ => rfl) hfile, overlaid_all]

/-- A configuration with quotes, a backslash, line breaks and control characters, and the file of
its list for kit alone. -/
theorem Config.loadOrDefault_of_written_quotes :
    let c : Config := {
      limits := { maxSteps := maxLimit, maxResults := 1 }
      gana := {
        vac := ["it's \"\"\"\\\n".toList, ['\x01', '\r', '\x7f']]
        grah := []
        phan := ["\"vac\"".toList] } }
    let holding (t : Text) : Files :=
      { read := fun _ => .ok (String.ofList t).toUTF8, append := fun _ => .error .denied }
    let keep (s : Setting) : Bool := s == .vac
    let shown (name : Key) : Bool := name == "gana".toList
    c.validate = .ok () ∧ c.limits.maxSteps ≤ maxLimit ∧ c.limits.maxResults ≤ maxLimit
      ∧ loadOrDefault (holding c.toToml) (some "config.toml".toList) = .ok c
      ∧ Covers shown keep
      ∧ loadOrDefault (holding (c.writeShown shown keep)) (some "config.toml".toList)
        = .ok { gana := { vac := c.gana.vac } } := by
  intro c holding keep shown
  have hc : c.validate = .ok () := validate_eq_ok_iff.mpr (by decide)
  have hsteps : c.limits.maxSteps ≤ maxLimit := by decide
  have hresults : c.limits.maxResults ≤ maxLimit := by decide
  have hcovers : Covers shown keep := by
    unfold Covers
    decide
  exact ⟨hc, hsteps, hresults, (loadOrDefault_of_written hc hsteps hresults).1 rfl, hcovers,
    (loadOrDefault_of_written hc hsteps hresults).2 hcovers rfl⟩

end Vyakarana
