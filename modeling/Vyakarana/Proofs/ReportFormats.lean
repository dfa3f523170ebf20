import Mathlib.Data.List.Forall2
import Vyakarana.Program
import Vyakarana.Proofs.JsonTexts
import Vyakarana.Proofs.Sounding
import Vyakarana.Proofs.TomlDocuments
import Vyakarana.Proofs.Turns
import Vyakarana.Proofs.VerbRun

/-!
# Two formats of one report

A report is printed as lines of text or as a JSON document. Both show the same results, numbered in
the lines and listed in the document. That the rows of a report are the lines of its text rests on
what is told in them: sounds and names of stages, which do not break a line.

* `Report.splitOn_body` — the lines of the text
* `Report.shownBy_json` — the members of the document
* `Program.complete_of_mem_derivations` — the steps of a derivation, and what they lead to
* `Program.formats_agree` — the two outputs of the derive command
-/

namespace Vyakarana

/-! ## Lines -/

namespace Text

variable {texts : List Text}

/-- Texts with a line end after each. -/
def unlines (texts : List Text) : Text := texts.flatMap (· ++ ['\n'])

theorem unlines_cons (t : Text) (texts : List Text) :
    unlines (t :: texts) = t ++ ['\n'] ++ unlines texts := rfl

theorem unlines_append (texts more : List Text) :
    unlines (texts ++ more) = unlines texts ++ unlines more := List.flatMap_append

theorem unlines_eq_intercalate (texts : List Text) :
    unlines texts = ['\n'].intercalate (texts ++ [[]]) := by
  induction texts with
  | nil => rfl
  | cons t texts ih =>
    cases texts with
    | nil => simp [unlines]
    | cons next texts =>
      rw [unlines_cons, ih]
      simp only [List.cons_append, List.intercalate_cons_cons]

/-- Texts that do not break a line are read back as lines. After the last line end there is an
empty rest. -/
theorem splitOn_unlines (h : ∀ t ∈ texts, '\n' ∉ t) :
    (unlines texts).splitOn '\n' = texts ++ [[]] := by
  rw [unlines_eq_intercalate]
  refine List.splitOn_intercalate '\n' (fun t ht => ?_) (by simp)
  rcases List.mem_append.mp ht with ht | ht
  · exact h t ht
  · rw [List.mem_singleton.mp ht]
    exact List.not_mem_nil

end Text

/-! ## The rows of a report -/

/-- A step under its result: the stage in twelve columns after five blanks, and the state. -/
def ReportStep.row (s : ReportStep) : Text :=
  List.replicate 5 ' ' ++ s.stage.toList.rightpad 12 ' ' ++ ' ' :: s.state

/-- A result under its number: the surface, and the terms between brackets. -/
def ReportResult.heading (number : Nat) (x : ReportResult) : Text :=
  Nat.toDigits 10 number ++ ". ".toList ++ x.surface ++ " (".toList ++
    " + ".toList.intercalate x.terms ++ [')']

/-- A result, and the steps that led to it. -/
def ReportResult.rows (number : Nat) (x : ReportResult) : List Text :=
  x.heading number :: x.steps.map ReportStep.row

namespace Report

/-- What was asked for. -/
def title (r : Report) : Text :=
  r.dhatu ++ " + ".toList ++ r.suffix ++ " (".toList ++ ", ".toList.intercalate r.lakshana ++
    [')', '\n']

/-- The results, numbered from one. -/
def resultRows (r : Report) : List Text :=
  if r.results.isEmpty then ["no derivations".toList]
  else (r.results.zipIdx 1).flatMap fun x => x.1.rows x.2

/-- The row that says that the search was cut off. -/
def truncationRow (expansions : Nat) : Text :=
  "truncated after ".toList ++ Nat.toDigits 10 expansions ++
    " expansions; raise the limits to see every result".toList

/-- All rows below the title. -/
def rows (r : Report) : List Text :=
  r.resultRows ++ if r.truncated then [truncationRow r.expansions] else []

end Report

theorem ReportStep.line_eq (s : ReportStep) : s.line = s.row ++ ['\n'] := by
  have hindent : "     ".toList = List.replicate 5 ' ' := by decide
  unfold line row List.rightpad
  rw [String.length_toList, hindent]
  simp only [List.append_assoc, List.cons_append]

theorem ReportResult.lines_eq (number : Nat) (x : ReportResult) :
    x.lines number = Text.unlines (x.rows number) := by
  have hheading : x.heading number ++ ['\n']
      = Nat.toDigits 10 number ++ ". ".toList ++ x.surface ++ " (".toList ++
        State.joinPlus x.terms ++ ")\n".toList := by
    unfold heading
    rw [List.append_assoc _ [')']]
    rfl
  have hsteps : Text.unlines (x.steps.map ReportStep.row) = x.steps.flatMap ReportStep.line := by
    rw [Text.unlines, List.flatMap_map]
    exact congrArg (x.steps.flatMap ·) (funext fun s => s.line_eq.symm)
  rw [rows, Text.unlines_cons, hheading, hsteps]
  rfl

namespace Report

variable {r : Report}

theorem resultLines_eq (results : List ReportResult) :
    resultLines results = Text.unlines ((results.zipIdx 1).flatMap fun x => x.1.rows x.2) := by
  rw [resultLines, Text.unlines, List.flatMap_assoc]
  exact congrArg ((results.zipIdx 1).flatMap ·) (funext fun x => x.1.lines_eq x.2)

/-- A report is its title, and its rows as lines. -/
theorem text_eq (r : Report) : r.text = r.title ++ Text.unlines r.rows := by
  have hresults : Text.unlines r.resultRows
      = if r.results.isEmpty then "no derivations\n".toList else resultLines r.results := by
    unfold resultRows
    split
    · rfl
    · exact (resultLines_eq r.results).symm
  have hend : " expansions; raise the limits to see every result\n".toList
      = " expansions; raise the limits to see every result".toList ++ ['\n'] := by decide
  have hcut : Text.unlines (if r.truncated then [truncationRow r.expansions] else [])
      = if r.truncated then
          "truncated after ".toList ++ Nat.toDigits 10 r.expansions ++
            " expansions; raise the limits to see every result\n".toList
        else [] := by
    rw [hend, ← List.append_assoc]
    split
    · exact (Text.unlines_cons _ _).trans (List.append_nil _)
    · rfl
  rw [rows, Text.unlines_append, hresults, hcut, text, title]
  exact List.append_assoc _ _ _

end Report

/-! ## The lines of a report -/

/-- Nothing that a result tells breaks a line. -/
structure ReportResult.Unbroken (x : ReportResult) : Prop where
  surface : '\n' ∉ x.surface
  terms : ∀ t ∈ x.terms, '\n' ∉ t
  steps : ∀ s ∈ x.steps, '\n' ∉ s.stage.toList ∧ '\n' ∉ s.state

theorem Text.newline_not_mem_toDigits (n : Nat) : '\n' ∉ Nat.toDigits 10 n :=
  fun h => Toml.ne_of_isDigit (Toml.isDigit_of_mem_toDigits h) (by decide) rfl

namespace ReportResult

variable {x : ReportResult} {number : Nat} {row : Text}

theorem Unbroken.newline_not_mem_row (h : x.Unbroken) (hrow : row ∈ x.rows number) :
    '\n' ∉ row := by
  rcases List.mem_cons.mp hrow with rfl | hrow
  · have hterms : '\n' ∉ " + ".toList.intercalate x.terms :=
      Toml.not_mem_intercalate (by decide) h.terms
    simp only [heading, List.mem_append, not_or]
    exact ⟨⟨⟨⟨⟨Text.newline_not_mem_toDigits number, by decide⟩, h.surface⟩, by decide⟩, hterms⟩,
      by decide⟩
  · obtain ⟨s, hs, rfl⟩ := List.mem_map.mp hrow
    obtain ⟨hstage, hstate⟩ := h.steps s hs
    simp [ReportStep.row, List.rightpad, hstage, hstate]

/-- A row of a result begins with a digit or a blank. -/
theorem head?_row_ne (hrow : row ∈ x.rows number) : row.head? ≠ some 't' := by
  rcases List.mem_cons.mp hrow with rfl | hrow
  · obtain ⟨c, rest, hdigits, hc⟩ := Toml.exists_toDigits_append number []
    rw [List.append_nil] at hdigits
    have ht := Toml.ne_of_isDigit hc (d := 't') rfl
    simpa [heading, hdigits] using ht
  · obtain ⟨s, -, rfl⟩ := List.mem_map.mp hrow
    simp [ReportStep.row]

end ReportResult

namespace Report

variable {r : Report} {row : Text}

theorem resultRows_cases (hrow : row ∈ r.resultRows) :
    row = "no derivations".toList ∨ ∃ x ∈ r.results, ∃ number, row ∈ x.rows number := by
  unfold resultRows at hrow
  split at hrow
  · exact Or.inl (List.mem_singleton.mp hrow)
  · obtain ⟨⟨x, number⟩, hx, hrow⟩ := List.mem_flatMap.mp hrow
    exact Or.inr ⟨x, List.fst_mem_of_mem_zipIdx hx, number, hrow⟩

theorem newline_not_mem_truncationRow (n : Nat) : '\n' ∉ truncationRow n := by
  unfold truncationRow
  rw [List.mem_append, List.mem_append, not_or, not_or]
  exact ⟨⟨by decide, Text.newline_not_mem_toDigits n⟩, by decide⟩

/-- The lines below the title are the rows, if nothing that is told breaks a line. -/
theorem splitOn_body (h : ∀ x ∈ r.results, x.Unbroken) :
    (Text.unlines r.rows).splitOn '\n' = r.rows ++ [[]] := by
  refine Text.splitOn_unlines fun row hrow => ?_
  rcases List.mem_append.mp hrow with hrow | hrow
  · rcases resultRows_cases hrow with rfl | ⟨x, hx, number, hrow⟩
    · decide
    · exact (h x hx).newline_not_mem_row hrow
  · split at hrow
    · rw [List.mem_singleton.mp hrow]
      exact newline_not_mem_truncationRow r.expansions
    · exact absurd hrow List.not_mem_nil

/-- The last row says that the search was cut off, if it was and not otherwise. -/
theorem getLast?_rows_iff :
    (∃ n, r.rows.getLast? = some (truncationRow n)) ↔ r.truncated = true := by
  unfold rows
  constructor
  · rintro ⟨n, hlast⟩
    by_contra hcut
    rw [if_neg hcut, List.append_nil] at hlast
    have hhead : (truncationRow n).head? = some 't' := rfl
    rcases resultRows_cases (List.mem_of_getLast? hlast) with hrow | ⟨x, -, number, hrow⟩
    · rw [hrow] at hhead
      exact absurd hhead (by decide)
    · exact ReportResult.head?_row_ne hrow hhead
  · intro hcut
    rw [if_pos hcut]
    exact ⟨r.expansions, List.getLast?_concat⟩

end Report

/-! ## The document of a report -/

/-- The member of an object with a name. -/
def JsonValue.get? : JsonValue → String → Option JsonValue
  | .object members, name => members.lookup name
  | _, _ => none

/-- An object shows a step. -/
structure ReportStep.ShownBy (s : ReportStep) (v : JsonValue) : Prop where
  stage : v.get? "stage" = some (.string s.stage.toList)
  state : v.get? "state" = some (.string s.state)

/-- An object shows a result. It has no steps if there are none. -/
structure ReportResult.ShownBy (x : ReportResult) (v : JsonValue) : Prop where
  surface : v.get? "surface" = some (.string x.surface)
  terms : v.get? "terms" = some (.array (x.terms.map .string))
  noSteps : x.steps = [] → v.get? "steps" = none
  steps : x.steps ≠ [] → ∃ items, v.get? "steps" = some (.array items)
    ∧ List.Forall₂ ReportStep.ShownBy x.steps items

/-- A document shows a report. -/
structure Report.ShownBy (r : Report) (v : JsonValue) : Prop where
  dhatu : v.get? "dhatu" = some (.string r.dhatu)
  suffix : v.get? "suffix" = some (.string r.suffix)
  lakshana : v.get? "lakshana" = some (.array (r.lakshana.map .string))
  results : ∃ items, v.get? "results" = some (.array items)
    ∧ List.Forall₂ ReportResult.ShownBy r.results items
  expansions : v.get? "expansions" = some (.number r.expansions)
  truncated : v.get? "truncated" = some (.boolean r.truncated)

theorem forall₂_map_self {α β : Type} {R : α → β → Prop} {f : α → β} (h : ∀ a, R a (f a))
    (xs : List α) : List.Forall₂ R xs (xs.map f) :=
  List.forall₂_map_right_iff.mpr (List.forall₂_same.mpr fun a _ => h a)

theorem ReportStep.shownBy_json (s : ReportStep) : s.ShownBy s.json := ⟨rfl, rfl⟩

theorem ReportResult.shownBy_json (x : ReportResult) : x.ShownBy x.json where
  surface := rfl
  terms := rfl
  noSteps h := by
    rw [json, h]
    rfl
  steps h := by
    refine ⟨_, ?_, forall₂_map_self ReportStep.shownBy_json x.steps⟩
    rw [json, if_neg (by simpa using h)]
    rfl

/-- The document of a report shows it. -/
theorem Report.shownBy_json (r : Report) : r.ShownBy r.json where
  dhatu := rfl
  suffix := rfl
  lakshana := rfl
  results := ⟨_, rfl, forall₂_map_self ReportResult.shownBy_json r.results⟩
  expansions := rfl
  truncated := rfl

/-! ## What a derivation tells -/

namespace State

variable {s : State}

/-- Terms without sounds add nothing to the surface. -/
theorem flatten_visibleValues (s : State) : s.visibleValues.flatten = s.surface := by
  unfold visibleValues surface
  induction s.terms with
  | nil => rfl
  | cons t terms ih =>
    rw [List.flatMap_cons, ← ih]
    cases hempty : t.isEmpty with
    | true =>
      rw [List.filter_cons_of_neg (by simp [hempty]), List.isEmpty_iff.mp hempty, List.nil_append]
    | false => rw [List.filter_cons_of_pos (by simp [hempty]), List.map_cons, List.flatten_cons]

theorem IsSounding.newline_not_mem_value {a : Term} (h : s.IsSounding) (ha : a ∈ s.terms) :
    '\n' ∉ a.value := by
  intro hmem
  have hsound := Upadesha.isSounding_iff.mp (h a ha) '\n' hmem
  exact absurd hsound (by decide)

theorem IsSounding.newline_not_mem_visibleValues (h : s.IsSounding) :
    ∀ t ∈ s.visibleValues, '\n' ∉ t := by
  intro t ht
  obtain ⟨a, ha, rfl⟩ := List.mem_map.mp ht
  exact h.newline_not_mem_value (List.mem_of_mem_filter ha)

theorem IsSounding.newline_not_mem_surface (h : s.IsSounding) : '\n' ∉ s.surface := by
  intro hmem
  obtain ⟨a, ha, hmem⟩ := List.mem_flatMap.mp hmem
  exact h.newline_not_mem_value ha hmem

theorem IsSounding.newline_not_mem_text (h : s.IsSounding) : '\n' ∉ s.text :=
  Toml.not_mem_intercalate (by decide) h.newline_not_mem_visibleValues

end State

/-- A path ends in the state of its last step. -/
theorem Pipeline.Path.getLast?_state {p : Pipeline} {s t : State} {steps : List Step}
    (h : p.Path s steps t) (hne : steps ≠ []) : steps.getLast?.map Step.state = some t := by
  have hlast := List.getLast?_eq_some_getLast hne
  rw [hlast, h.eq_of_getLast? hlast]
  rfl

namespace Grammar

variable {gana : Gana} {s t : State} {steps : List Step}

theorem isSounding_of_mem_steps (hpath : Pipeline.Path ⟨standardStages gana aciSet kuSet⟩ s steps t)
    (hs : s.IsSounding) : ∀ x ∈ steps, x.state.IsSounding := by
  induction hpath with
  | refl s => exact fun x hx => absurd hx List.not_mem_nil
  | step first rest ih =>
    have hnext := isSounding_of_mem_step first hs
    exact List.forall_mem_cons.mpr ⟨hnext, ih hnext⟩

end Grammar

/-- What holds of every derivation that the derive command finds. -/
structure Derivation.Complete (d : Derivation) : Prop where
  stages : d.history.map Step.stage = Grammar.slots.map Slot.stage
  last : d.history.getLast?.map Step.state = some d.state
  sounding : d.state.IsSounding
  soundingSteps : ∀ x ∈ d.history, x.state.IsSounding

namespace Derivation.Complete

variable {d : Derivation}

theorem unbroken (h : d.Complete) (withSteps : Bool) :
    (ReportResult.ofDerivation withSteps d).Unbroken where
  surface := h.sounding.newline_not_mem_surface
  terms := h.sounding.newline_not_mem_visibleValues
  steps := by
    intro x hx
    cases withSteps with
    | false => exact absurd hx List.not_mem_nil
    | true =>
      obtain ⟨step, hstep, rfl⟩ := List.mem_map.mp hx
      have hstage : step.stage ∈ Grammar.slots.map Slot.stage := by
        rw [← h.stages]
        exact List.mem_map_of_mem hstep
      have hnames : ∀ stage ∈ Grammar.slots.map Slot.stage, '\n' ∉ stage.toList := by decide
      exact ⟨hnames _ hstage, (h.soundingSteps step hstep).newline_not_mem_text⟩

theorem map_stage_ofDerivation (h : d.Complete) :
    (ReportResult.ofDerivation true d).steps.map ReportStep.stage
      = Grammar.slots.map Slot.stage := by
  rw [← h.stages]
  exact List.map_map

/-- The last step shows the terms of the result. -/
theorem getLast?_ofDerivation (h : d.Complete) :
    (ReportResult.ofDerivation true d).steps.getLast?.map ReportStep.state
      = some (State.joinPlus (ReportResult.ofDerivation true d).terms) := by
  show ((d.history.map ReportStep.ofStep).getLast?).map ReportStep.state = some d.state.text
  rw [List.getLast?_map, Option.map_map]
  have hlast := congrArg (Option.map State.text) h.last
  rwa [Option.map_map] at hlast

end Derivation.Complete

theorem Program.complete_of_mem_derivations {c : Config} {r : CommandLine.DeriveRequest}
    {start : State} (hstart : startState r = .ok start) {d : Derivation}
    (hd : d ∈ ((Grammar.standard c).derive start).derivations) : d.Complete := by
  have hsounds := isSounding_startState hstart
  obtain ⟨v, rfl⟩ := exists_verbStart hstart
  obtain ⟨hpath, hleaf⟩ := Pipeline.path_of_mem_derivations hd
  have hstages := (hpath.stages_eq_schedule (Grammar.scheduledBy c.gana) hleaf).1
  rw [v.schedule_state] at hstages
  have hne : d.history ≠ [] := by
    intro hnil
    rw [hnil] at hstages
    exact absurd hstages (by decide)
  exact ⟨hstages, hpath.getLast?_state hne, Grammar.isSounding_of_standard_path hpath hsounds,
    Grammar.isSounding_of_mem_steps hpath hsounds⟩

/-! ## The derive command -/

namespace Program

open CommandLine

variable {files : Files} {r : DeriveRequest} {globals : Globals} {g : Grammar} {report : Report}
  {out : Text}

section Except

variable {ε ε' α β : Type} {x : Except ε α} {b : β}

theorem bind_eq_ok_iff {f : α → Except ε β} :
    x >>= f = .ok b ↔ ∃ a, x = .ok a ∧ f a = .ok b := by
  cases x <;> simp [bind, Except.bind]

theorem map_eq_ok_iff {f : α → β} : x.map f = .ok b ↔ ∃ a, x = .ok a ∧ f a = b := by
  cases x <;> simp [Except.map]

theorem mapError_eq_ok_iff {f : ε → ε'} {a : α} : x.mapError f = .ok a ↔ x = .ok a := by
  cases x <;> simp [Except.mapError]

end Except

/-- Commands work under the standard grammar of some configuration. -/
theorem standard_of_grammarOf {inv : Invocation} (h : grammarOf files inv = .ok g) :
    ∃ c, g = Grammar.standard c := by
  obtain ⟨c, -, hg⟩ := bind_eq_ok_iff.mp h
  exact ⟨c, (Grammar.ofConfig_eq_ok_iff.mp (mapError_eq_ok_iff.mp hg)).2⟩

/-- What is reported are the derivations from the start state. -/
theorem results_of_reportOf (h : reportOf g r = .ok report) :
    ∃ start, startState r = .ok start
      ∧ report.results = (g.derive start).derivations.map (.ofDerivation r.trace) := by
  obtain ⟨start, hstart, hreport⟩ := bind_eq_ok_iff.mp h
  exact ⟨start, hstart, congrArg Report.results (Except.ok.inj hreport).symm⟩

/-- A command that prints something has a grammar, and something to report. -/
theorem of_output_derive (h : output files ⟨.derive r, globals⟩ = .ok out) :
    ∃ g report, grammarOf files ⟨.derive r, globals⟩ = .ok g ∧ reportOf g r = .ok report := by
  obtain ⟨g, hg, hprinted⟩ := bind_eq_ok_iff.mp h
  obtain ⟨report, hreport, -⟩ := map_eq_ok_iff.mp hprinted
  exact ⟨g, report, hg, hreport⟩

/-- What is reported does not depend on the format. -/
theorem output_derive (hg : grammarOf files ⟨.derive r, globals⟩ = .ok g)
    (hreport : reportOf g r = .ok report) (format : OutputFormat) :
    output files ⟨.derive { r with format }, globals⟩ = .ok (writeReport format report) :=
  bind_eq_ok_iff.mpr ⟨g, hg, map_eq_ok_iff.mpr ⟨report, hreport, rfl⟩⟩

/-- **Text and JSON report the same search.** Whichever format the derive command prints, it would
print the other too. The one document that can be read from the JSON text lists the results, and the
lines below the title of the other text number them from one, each with its surface and its terms;
the last line says that the search was cut off if it was. The surface of a result is its terms run
together. If the trace was asked for, its steps are the six stages in order, and the last of them
shows its terms; otherwise there are none. -/
theorem formats_agree (hout : output files ⟨.derive r, globals⟩ = .ok out) :
    ∃ (g : Grammar) (report : Report) (doc : JsonValue) (body : Text),
      grammarOf files ⟨.derive r, globals⟩ = .ok g ∧ reportOf g r = .ok report
      ∧ output files ⟨.derive { r with format := .json }, globals⟩ = .ok doc.pretty
      ∧ (∀ other : JsonValue, other.pretty = doc.pretty → other = doc)
      ∧ report.ShownBy doc
      ∧ output files ⟨.derive { r with format := .text }, globals⟩ = .ok (report.title ++ body)
      ∧ body.splitOn '\n' = report.rows ++ [[]]
      ∧ ((∃ n, report.rows.getLast? = some (Report.truncationRow n)) ↔ report.truncated = true)
      ∧ ∀ x ∈ report.results, x.surface = x.terms.flatten
        ∧ (r.trace = true → x.steps.map ReportStep.stage = g.pipeline.stages.map Rule.name
          ∧ x.steps.map ReportStep.stage
            = ["dvirvacana", "anga_adesha", "rt", "anga_aci", "ac_adesha", "anga_ku"]
          ∧ x.steps.getLast?.map ReportStep.state = some (" + ".toList.intercalate x.terms))
        ∧ (r.trace = false → x.steps = []) := by
  obtain ⟨g, report, hg, hreport⟩ := of_output_derive hout
  obtain ⟨c, rfl⟩ := standard_of_grammarOf hg
  obtain ⟨start, hstart, hresults⟩ := results_of_reportOf hreport
  have hcomplete : ∀ x ∈ report.results,
      ∃ d : Derivation, d.Complete ∧ x = .ofDerivation r.trace d := by
    intro x hx
    rw [hresults] at hx
    obtain ⟨d, hd, rfl⟩ := List.mem_map.mp hx
    exact ⟨d, complete_of_mem_derivations hstart hd, rfl⟩
  have htext := output_derive hg hreport .text
  rw [writeReport, Report.text_eq] at htext
  refine ⟨_, report, report.json, _, hg, hreport, output_derive hg hreport .json,
    fun other hother => JsonValue.pretty_injective hother, report.shownBy_json, htext,
    Report.splitOn_body fun x hx => ?_, Report.getLast?_rows_iff, fun x hx => ?_⟩
  · obtain ⟨d, hd, rfl⟩ := hcomplete x hx
    exact hd.unbroken r.trace
  · obtain ⟨d, hd, rfl⟩ := hcomplete x hx
    refine ⟨d.state.flatten_visibleValues.symm, fun htrace => ?_, fun htrace => ?_⟩
    · rw [htrace]
      have hstages := hd.map_stage_ofDerivation
      exact ⟨hstages, hstages, hd.getLast?_ofDerivation⟩
    · rw [htrace]
      rfl

/-- With a trace the two derivations of ci before Ral are told in both formats, with six steps
each. -/
theorem formats_agree_ciRal :
    let files : Files := ⟨fun _ => .error .notFound, fun _ => .error .notFound⟩
    let r : DeriveRequest := { dhatu := "ci".toList, suffix := "Ral".toList, trace := true }
    ∃ (out : Text) (report : Report) (doc : JsonValue) (body : Text),
      output files ⟨.derive r, {}⟩ = .ok out
      ∧ output files ⟨.derive { r with format := .json }, {}⟩ = .ok doc.pretty
      ∧ report.ShownBy doc
      ∧ output files ⟨.derive r, {}⟩ = .ok (report.title ++ body)
      ∧ body.splitOn '\n' = report.rows ++ [[]]
      ∧ (report.results.zipIdx 1).map (fun x => x.1.heading x.2)
        = ["1. cicEa (ci + cE + a)".toList, "2. cikEa (ci + kE + a)".toList]
      ∧ ∀ x ∈ report.results, x.surface = x.terms.flatten
        ∧ x.steps.map ReportStep.stage
          = ["dvirvacana", "anga_adesha", "rt", "anga_aci", "ac_adesha", "anga_ku"] := by
  intro files r
  have hg : grammarOf files ⟨.derive r, {}⟩ = .ok (Grammar.standard {}) := by
    show (Grammar.ofConfig {}).mapError Fault.grammar = _
    rw [Grammar.ofConfig_of_accepted (show Config.validate {} = .ok () by decide)]
    rfl
  obtain ⟨report, hreport⟩ : ∃ report, reportOf (Grammar.standard {}) r = .ok report := ⟨_, rfl⟩
  have hout := output_derive hg hreport .text
  obtain ⟨g, report', doc, body, hg', hreport', hjson, -, hshown, htext, hlines, -, hresults⟩ :=
    formats_agree hout
  obtain rfl : Grammar.standard {} = g := Except.ok.inj (hg.symm.trans hg')
  obtain rfl : report = report' := Except.ok.inj (hreport.symm.trans hreport')
  refine ⟨_, report, doc, body, hout, hjson, hshown, htext, hlines, ?_, fun x hx => ?_⟩
  · rw [← Except.ok.inj hreport]
    decide +kernel
  · obtain ⟨hsurface, htrace, -⟩ := hresults x hx
    exact ⟨hsurface, (htrace rfl).2.1⟩

end Program

end Vyakarana
