import Vyakarana.Proofs.Search

/-!
# What the log of a search accounts for

While a search runs, every expanded state ends its events with one of two reports: that a stage
fired, with the number of successors, or that a derivation is finished. So the log alone tells how
many states were expanded, how many derivations were found and whether some branch was left.

The branches are counted as they come and go: the root is there at the start, a stage that fires
opens as many as it has successors, and each expansion takes one away.

* `Search.length_visits_add_remaining` — the branches that came are those expanded and those left
* `Search.filter_flatMap_events` — the reports among the events of the visits
* `Pipeline.events_account_for_search` — the log and the outcome
-/

namespace Vyakarana

/-! ## Reading a log -/

namespace Event

/-- A stage fired. -/
def isFired (e : Event) : Bool := e.message == "stage fired"

/-- A derivation is finished. -/
def isFinished (e : Event) : Bool := e.message == "derivation finished"

/-- The event is a warning. -/
def isWarning (e : Event) : Bool := decide (e.level = .warn)

/-- The number in the field of successors, if there is one. -/
def successors (e : Event) : Nat :=
  match e.fields.lookup "successors" with
  | some digits => Nat.ofDigitChars 10 digits 0
  | none => 0

theorem successors_stageFired (stage : String) (n : Nat) :
    (stageFired stage n).successors = n :=
  Nat.ofDigitChars_toDigits (by decide) (by decide)

/-- Remarks are none of these. -/
theorem not_remark (r : Remark) : isFired (remark r) = false ∧ isFinished (remark r) = false
    ∧ isWarning (remark r) = false := by
  cases r <;> exact ⟨rfl, rfl, rfl⟩

end Event

namespace Search

variable {p : Pipeline} {maxResults steps found : Nat} {bs : List Branch}

/-! ## Branches that come and go -/

/-- The number of branches that a visit opens. -/
def Visit.opened (v : Visit) : Nat :=
  match v.fired with
  | some f => f.successors.length
  | none => 0

open Pipeline in
/-- The branches on the stack at the start and those opened on the way are expanded or left. -/
theorem length_visits_add_remaining :
    (walk p maxResults steps found bs).visits.length
        + (p.remaining (walk p maxResults steps found bs).visits.length (bs.map Branch.node)).length
      = bs.length + ((walk p maxResults steps found bs).visits.map Visit.opened).sum := by
  fun_induction walk p maxResults steps found bs with
  | case1 => simp [remaining]
  | case2 => simp [remaining]
  | case3 steps found b rest f hf ih =>
    have hopened : (b.extend f).length = Visit.opened ⟨b, some f⟩ := List.length_map _
    rw [List.length_append, hopened] at ih
    rw [visits_after, List.length_cons, List.map_cons, remaining, children_node_of_fire hf,
      ← List.map_append, List.map_cons, List.sum_cons, List.length_cons]
    omega
  | case4 steps found b rest hf =>
    rw [List.length_singleton, List.map_cons, remaining, children_node_of_none hf, remaining]
    simp [Visit.opened, Nat.add_comm]
  | case5 steps found b rest hf hle ih =>
    have hnone : Visit.opened ⟨b, none⟩ = 0 := rfl
    rw [visits_after, List.length_cons, List.map_cons, remaining, children_node_of_none hf,
      List.nil_append, List.map_cons, List.sum_cons, List.length_cons, hnone]
    omega

/-! ## Reports of visits -/

/-- The report that ends the events of a visit. -/
def Visit.report (v : Visit) : Event :=
  match v.fired with
  | some f => .stageFired f.stage f.successors.length
  | none => .finished v.branch.state.text v.branch.path.length

/-- What no remark satisfies is to be looked for among the reports. -/
theorem filter_flatMap_events {q : Event → Bool} (hq : ∀ r, q (.remark r) = false)
    (vs : List Visit) :
    (vs.flatMap (·.events p)).filter q = (vs.map Visit.report).filter q := by
  induction vs with
  | nil => rfl
  | cons v vs ih =>
    have hremarks :
        ((Pipeline.remarks p.stages v.branch.state).map Event.remark).filter q = [] := by simp [hq]
    have hevents : v.events p
        = (Pipeline.remarks p.stages v.branch.state).map Event.remark ++ [v.report] := rfl
    rw [List.flatMap_cons, List.filter_append, ih, hevents, List.filter_append, hremarks,
      List.nil_append, ← List.filter_append, List.map_cons, List.singleton_append]

theorem isFired_report (v : Visit) : v.report.isFired = v.fired.isSome := by
  unfold Visit.report
  cases v.fired <;> rfl

theorem isFinished_report (v : Visit) : v.report.isFinished = v.derivation?.isSome := by
  unfold Visit.report Visit.derivation?
  cases v.fired <;> rfl

theorem isWarning_report (v : Visit) : v.report.isWarning = false := by
  unfold Visit.report
  cases v.fired <;> rfl

/-- Every visit is reported, as a firing or as a finished derivation. -/
theorem isFinished_report_eq_not (v : Visit) : v.report.isFinished = !v.report.isFired := by
  rw [isFired_report, isFinished_report, Visit.derivation?]
  cases v.fired <;> rfl

theorem successors_report {v : Visit} (h : v.report.isFired = true) :
    v.report.successors = v.opened := by
  rw [isFired_report] at h
  unfold Visit.report Visit.opened
  cases hf : v.fired with
  | none =>
    rw [hf] at h
    simp at h
  | some f => exact Event.successors_stageFired f.stage f.successors.length

theorem opened_of_not_fired {v : Visit} (h : v.report.isFired = false) : v.opened = 0 := by
  rw [isFired_report, Option.isSome_eq_false_iff, Option.isNone_iff_eq_none] at h
  rw [Visit.opened, h]

/-- As many derivations are reported as were finished. -/
theorem length_filter_isFinished (vs : List Visit) :
    ((vs.map Visit.report).filter Event.isFinished).length
      = (vs.filterMap Visit.derivation?).length := by
  induction vs with
  | nil => rfl
  | cons v vs ih =>
    have hv := isFinished_report v
    rw [List.map_cons]
    cases hd : v.derivation? with
    | none =>
      rw [hd] at hv
      rw [List.filter_cons_of_neg (by simp [hv]), List.filterMap_cons_none hd, ih]
    | some d =>
      rw [hd] at hv
      rw [List.filter_cons_of_pos hv, List.filterMap_cons_some hd, List.length_cons,
        List.length_cons, ih]

/-- The numbers in the reports of firings add up to the branches opened. -/
theorem sum_successors (vs : List Visit) :
    (((vs.map Visit.report).filter Event.isFired).map Event.successors).sum
      = (vs.map Visit.opened).sum := by
  induction vs with
  | nil => rfl
  | cons v vs ih =>
    rw [List.map_cons, List.map_cons, List.sum_cons]
    by_cases hfired : v.report.isFired = true
    · rw [List.filter_cons_of_pos hfired, List.map_cons, List.sum_cons, ih,
        successors_report hfired]
    · rw [List.filter_cons_of_neg hfired, ih,
        opened_of_not_fired (Bool.eq_false_iff.mpr hfired), Nat.zero_add]

end Search

/-! ## The log and the outcome -/

namespace Pipeline

open Search

variable (p : Pipeline) (limits : Limits) (start : State)

/-- What neither the start nor a remark satisfies is found among the reports of the visits and the
last word on a limit. -/
theorem filter_events {q : Event → Bool} (hstart : ∀ t, q (.started t) = false)
    (hremark : ∀ r, q (.remark r) = false) :
    (p.events limits start).filter q
      = ((p.search limits start).visits.map Visit.report).filter q
        ++ ((p.search limits start).ending.events limits).filter q := by
  rw [events, List.filter_cons_of_neg (by simp [hstart]), List.filter_append,
    filter_flatMap_events hremark]

/-- What a log says of a limit: one warning, unless the search is exhausted. -/
theorem ending_events_cases (ending : Ending) :
    ending.events limits = [] ∧ ending = .exhausted
      ∨ ∃ limit, ending.events limits = [limit] ∧ ending ≠ .exhausted
        ∧ (limit = .stepLimit limits.maxSteps ∨ limit = .resultLimit limits.maxResults) := by
  cases ending with
  | exhausted => exact Or.inl ⟨rfl, rfl⟩
  | stepLimit => exact Or.inr ⟨_, rfl, by simp, Or.inl rfl⟩
  | resultLimit => exact Or.inr ⟨_, rfl, by simp, Or.inr rfl⟩

/-- What is said of a limit is a warning and no report. -/
theorem filter_ending_events (ending : Ending) :
    (ending.events limits).filter Event.isFired = []
      ∧ (ending.events limits).filter Event.isFinished = []
      ∧ (ending.events limits).filter Event.isWarning = ending.events limits := by
  cases ending <;> exact ⟨rfl, rfl, rfl⟩

theorem filter_isFired_events :
    (p.events limits start).filter Event.isFired
      = ((p.search limits start).visits.map Visit.report).filter Event.isFired := by
  rw [p.filter_events limits start (fun _ => rfl) fun r => (Event.not_remark r).1,
    (filter_ending_events limits _).1, List.append_nil]

theorem filter_isFinished_events :
    (p.events limits start).filter Event.isFinished
      = ((p.search limits start).visits.map Visit.report).filter Event.isFinished := by
  rw [p.filter_events limits start (fun _ => rfl) fun r => (Event.not_remark r).2.1,
    (filter_ending_events limits _).2.1, List.append_nil]

theorem filter_isWarning_events :
    (p.events limits start).filter Event.isWarning
      = (p.search limits start).ending.events limits := by
  have hnone : ((p.search limits start).visits.map Visit.report).filter Event.isWarning = [] := by
    simp [isWarning_report]
  rw [p.filter_events limits start (fun _ => rfl) fun r => (Event.not_remark r).2.2,
    (filter_ending_events limits _).2.2, hnone, List.nil_append]

/-- Every visit has one of the two reports. -/
theorem length_filter_reports (vs : List Visit) :
    ((vs.map Visit.report).filter Event.isFinished).length
      + ((vs.map Visit.report).filter Event.isFired).length = vs.length := by
  have hnot : (vs.map Visit.report).filter Event.isFinished
      = (vs.map Visit.report).filter fun e => !e.isFired := by
    refine List.filter_congr fun e he => ?_
    obtain ⟨v, -, rfl⟩ := List.mem_map.mp he
    exact isFinished_report_eq_not v
  rw [hnot, Nat.add_comm, ← List.length_eq_length_filter_add, List.length_map]

/-- A search is truncated if it opened more branches than it expanded. -/
theorem truncated_derive_iff_lt :
    (p.derive limits start).truncated = true
      ↔ (p.derive limits start).expansions
        < 1 + ((p.search limits start).visits.map Visit.opened).sum := by
  have hcount : (p.search limits start).visits.length
      + (p.remaining (p.search limits start).visits.length [⟨start, []⟩]).length
      = 1 + ((p.search limits start).visits.map Visit.opened).sum := length_visits_add_remaining
  have hexpansions : (p.derive limits start).expansions = (p.search limits start).visits.length :=
    rfl
  have hleft := p.truncated_derive_eq_false_iff limits start
  rw [← List.length_eq_zero_iff] at hleft
  rw [← Bool.not_eq_false, hleft, hexpansions]
  omega

/-- **The log accounts for the search.** It says once for each derivation that one is finished; that
or the firing of a stage is said of every expansion. The search is truncated if and only if it
expanded less than the root and all successors that are told of; then the log has one warning, of
the one limit or of the other, and otherwise it has none. -/
theorem events_account_for_search :
    let log := p.events limits start
    let found := p.derive limits start
    log.countP Event.isFinished = found.derivations.length
    ∧ log.countP Event.isFinished + log.countP Event.isFired = found.expansions
    ∧ (found.truncated = true
      ↔ found.expansions < 1 + ((log.filter Event.isFired).map Event.successors).sum)
    ∧ ∃ limit, (limit = .stepLimit limits.maxSteps ∨ limit = .resultLimit limits.maxResults)
      ∧ log.filter Event.isWarning = if found.truncated then [limit] else [] := by
  intro log found
  have hfired : log.filter Event.isFired = _ := p.filter_isFired_events limits start
  have hfinished : log.filter Event.isFinished = _ := p.filter_isFinished_events limits start
  have hwarning : log.filter Event.isWarning = _ := p.filter_isWarning_events limits start
  have htruncated : found.truncated = ((p.search limits start).ending != .exhausted) := rfl
  rw [List.countP_eq_length_filter, List.countP_eq_length_filter, hfired, hfinished, hwarning]
  refine ⟨length_filter_isFinished _, length_filter_reports _, ?_, ?_⟩
  · rw [sum_successors]
    exact p.truncated_derive_iff_lt limits start
  · rcases ending_events_cases limits (p.search limits start).ending with
      ⟨hnone, hending⟩ | ⟨limit, hone, hending, hlimit⟩
    · refine ⟨_, Or.inl rfl, ?_⟩
      rw [hnone, htruncated, hending]
      rfl
    · refine ⟨limit, hlimit, ?_⟩
      rw [hone, htruncated, if_pos (by simpa using hending)]

end Pipeline

end Vyakarana
