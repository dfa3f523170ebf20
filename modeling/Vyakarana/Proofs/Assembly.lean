import Vyakarana.Proofs.Gates

/-!
# What is wrong with stages that cannot be put together

Stages are checked for operations that are recorded twice, and only then for operations that are
waited for in vain. Either check goes through the stages in order, and through the operations of a
stage in the order in which its gates report them, the innermost first. The first operation that is
wrong is reported, with the stage that has it.

* `Pipeline.ReportedAfter` — the place of an operation in what the stages report
* `Pipeline.build_result` — when stages can be put together, and what is reported if they cannot
-/

namespace Vyakarana

/-! ## Lists put together of lists -/

/-- To cut a list that was put together of lists is to cut one of them. -/
theorem exists_split_of_flatMap {α β : Type} {f : α → List β} {as : List α} {pre post : List β}
    {b : β} (h : as.flatMap f = pre ++ b :: post) : ∃ before a after earlier later,
      as = before ++ a :: after ∧ f a = earlier ++ b :: later
        ∧ pre = before.flatMap f ++ earlier := by
  induction as generalizing pre with
  | nil => simp at h
  | cons a as ih =>
    rw [List.flatMap_cons] at h
    -- the cut lies after what `a` gives, or within it
    rcases List.append_eq_append_iff.mp h with ⟨rest, rfl, hrest⟩ | ⟨rest, ha, hrest⟩
    · obtain ⟨before, x, after, earlier, later, rfl, hx, rfl⟩ := ih hrest
      exact ⟨a :: before, x, after, earlier, later, rfl, hx, by simp⟩
    · cases rest with
      | nil =>
        have hstart : as.flatMap f = [] ++ b :: post := hrest.symm
        obtain ⟨before, x, after, earlier, later, rfl, hx, hnil⟩ := ih hstart
        exact ⟨a :: before, x, after, earlier, later, rfl, hx, by simp [ha, ← hnil]⟩
      | cons c later =>
        obtain ⟨rfl, -⟩ := List.cons.inj hrest
        exact ⟨[], a, as, pre, later, rfl, ha, rfl⟩

namespace Pipeline

variable {report : Rule → List Operation} {stages : List Rule} {seen known : List Operation}
  {stage : String} {op : Operation} {p : Pipeline} {fault : Fault}

/-! ## The place of an operation -/

/-- Among the operations that the stages report one after the other, `op` is reported by a stage of
the name after the operations `seen`. -/
def ReportedAfter (report : Rule → List Operation) (stages : List Rule) (seen : List Operation)
    (stage : String) (op : Operation) : Prop :=
  ∃ before r after earlier later, stages = before ++ r :: after
    ∧ report r = earlier ++ op :: later ∧ r.name = stage ∧ seen = before.flatMap report ++ earlier

theorem exists_split_reported_iff :
    (∃ before after, reported report stages = before ++ (stage, op) :: after
      ∧ before.map Prod.snd = seen) ↔ ReportedAfter report stages seen stage op := by
  constructor
  · rintro ⟨pre, post, hsplit, rfl⟩
    obtain ⟨before, r, after, earlier, later, rfl, hr, rfl⟩ := exists_split_of_flatMap hsplit
    obtain ⟨earlier, rest, hops, rfl, hrest⟩ := List.map_eq_append_iff.mp hr
    obtain ⟨op, later, rfl, hop, rfl⟩ := List.map_eq_cons_iff.mp hrest
    obtain ⟨rfl, rfl⟩ := Prod.mk.inj hop
    refine ⟨before, r, after, earlier, later, rfl, hops, rfl, ?_⟩
    rw [List.map_append, ← reported, map_snd_reported]
    simp [Function.comp_def]
  · rintro ⟨before, r, after, earlier, later, rfl, hr, rfl, rfl⟩
    refine ⟨reported report before ++ earlier.map (r.name, ·),
      later.map (r.name, ·) ++ reported report after, ?_, ?_⟩
    · simp [reported, hr]
    · rw [List.map_append, map_snd_reported]
      simp [Function.comp_def]

/-! ## The two checks -/

/-- The first repetition is found. -/
theorem repeatedOp?_eq_some_iff : repeatedOp? [] (recorded stages) = some fault
    ↔ ∃ seen stage op, ReportedAfter Rule.produces stages seen stage op
      ∧ fault = .duplicateStage stage op ∧ seen.Nodup ∧ op ∈ seen := by
  rw [repeatedOp?_eq, Option.map_eq_some_iff]
  constructor
  · rintro ⟨⟨stage, op⟩, hfirst, rfl⟩
    obtain ⟨before, after, hsplit, hnodup, hmem⟩ := firstRepeat?_nil_eq_some_iff.mp hfirst
    exact ⟨before.map Prod.snd, stage, op,
      exists_split_reported_iff.mp ⟨before, after, hsplit, rfl⟩, rfl, hnodup, hmem⟩
  · rintro ⟨seen, stage, op, hplace, rfl, hnodup, hmem⟩
    obtain ⟨before, after, hsplit, rfl⟩ := exists_split_reported_iff.mpr hplace
    exact ⟨(stage, op), firstRepeat?_nil_eq_some_iff.mpr ⟨before, after, hsplit, hnodup, hmem⟩, rfl⟩

/-- The first operation that is not known is found. -/
theorem missingOp?_eq_some_iff : missingOp? known stages = some fault
    ↔ ∃ seen stage op, ReportedAfter Rule.requires stages seen stage op
      ∧ fault = .unknownDependency stage op ∧ (∀ need ∈ seen, need ∈ known) ∧ op ∉ known := by
  rw [missingOp?, ← reported, List.findSome?_eq_some_iff]
  constructor
  · rintro ⟨before, ⟨stage, op⟩, after, hsplit, hop, hbefore⟩
    have hmissing : op ∉ known ∧ .unknownDependency stage op = fault := by simpa using hop
    refine ⟨before.map Prod.snd, stage, op, exists_split_reported_iff.mp ⟨before, after, hsplit, rfl⟩,
      hmissing.2.symm, ?_, hmissing.1⟩
    intro need hneed
    obtain ⟨⟨stage, need⟩, hmem, rfl⟩ := List.mem_map.mp hneed
    simpa using hbefore (stage, need) hmem
  · rintro ⟨seen, stage, op, hplace, rfl, hseen, hop⟩
    obtain ⟨before, after, hsplit, rfl⟩ := exists_split_reported_iff.mpr hplace
    refine ⟨before, (stage, op), after, hsplit, by simp [hop], ?_⟩
    intro entry hentry
    simp [hseen entry.2 (List.mem_map_of_mem hentry)]

/-- The check for repetitions comes first. -/
theorem build_eq_error_iff : build stages = .error fault
    ↔ repeatedOp? [] (recorded stages) = some fault
      ∨ repeatedOp? [] (recorded stages) = none
        ∧ missingOp? (stages.flatMap Rule.produces) stages = some fault := by
  rw [build, map_snd_recorded]
  cases repeatedOp? [] (recorded stages) with
  | some repeated => simp
  | none =>
    cases missingOp? (stages.flatMap Rule.produces) stages with
    | some missing => simp
    | none => simp

theorem repeatedOp?_eq_none_iff :
    repeatedOp? [] (recorded stages) = none ↔ (stages.flatMap Rule.produces).Nodup := by
  rw [repeatedOp?_eq, Option.map_eq_none_iff, firstRepeat?_nil_eq_none_iff, map_snd_recorded]

/-! ## What is reported -/

theorem build_eq_duplicateStage_iff : build stages = .error (.duplicateStage stage op)
    ↔ ∃ seen, ReportedAfter Rule.produces stages seen stage op ∧ seen.Nodup ∧ op ∈ seen := by
  rw [build_eq_error_iff, repeatedOp?_eq_some_iff, missingOp?_eq_some_iff]
  constructor
  · rintro (⟨seen, stage, op, hplace, hfault, hrepeated⟩ | ⟨-, seen, stage, op, -, hfault, -⟩)
    · obtain ⟨rfl, rfl⟩ := Fault.duplicateStage.inj hfault
      exact ⟨seen, hplace, hrepeated⟩
    · exact absurd hfault nofun
  · rintro ⟨seen, hplace, hrepeated⟩
    exact Or.inl ⟨seen, stage, op, hplace, rfl, hrepeated⟩

theorem build_eq_unknownDependency_iff : build stages = .error (.unknownDependency stage op)
    ↔ (stages.flatMap Rule.produces).Nodup ∧ ∃ seen,
      ReportedAfter Rule.requires stages seen stage op
        ∧ (∀ need ∈ seen, need ∈ stages.flatMap Rule.produces)
        ∧ op ∉ stages.flatMap Rule.produces := by
  rw [build_eq_error_iff, repeatedOp?_eq_some_iff, repeatedOp?_eq_none_iff, missingOp?_eq_some_iff]
  constructor
  · rintro (⟨seen, stage, op, -, hfault, -⟩ | ⟨hnodup, seen, stage, op, hplace, hfault, hmissing⟩)
    · exact absurd hfault nofun
    · obtain ⟨rfl, rfl⟩ := Fault.unknownDependency.inj hfault
      exact ⟨hnodup, seen, hplace, hmissing⟩
  · rintro ⟨hnodup, seen, hplace, hmissing⟩
    exact Or.inr ⟨hnodup, seen, stage, op, hplace, rfl, hmissing⟩

/-- Some repetition is reported if there is one, whatever else is wrong. -/
theorem exists_build_eq_duplicateStage_iff :
    (∃ stage op, build stages = .error (.duplicateStage stage op))
      ↔ ¬(stages.flatMap Rule.produces).Nodup := by
  rw [← repeatedOp?_eq_none_iff]
  constructor
  · rintro ⟨stage, op, hresult⟩ hnone
    rcases build_eq_error_iff.mp hresult with hsome | ⟨-, hmissing⟩
    · simp [hnone] at hsome
    · obtain ⟨seen, stage, op, -, hfault, -⟩ := missingOp?_eq_some_iff.mp hmissing
      exact absurd hfault nofun
  · intro hsome
    obtain ⟨fault, hfault⟩ := Option.ne_none_iff_exists'.mp hsome
    obtain ⟨seen, stage, op, -, rfl, -⟩ := repeatedOp?_eq_some_iff.mp hfault
    exact ⟨stage, op, build_eq_error_iff.mpr (Or.inl hfault)⟩

/-- **What becomes of stages that are put together.** They make a pipeline, with the stages as given,
exactly if no operation is recorded twice and every operation that is waited for is recorded. If one
is recorded twice, the first repetition is reported, even if others are waited for in vain.
Otherwise the first operation that is waited for in vain is. -/
theorem build_result (stages : List Rule) :
    (∀ p, build stages = .ok p ↔ p = ⟨stages⟩ ∧ (stages.flatMap Rule.produces).Nodup
      ∧ ∀ r ∈ stages, ∀ op ∈ r.requires, op ∈ stages.flatMap Rule.produces)
    ∧ ((∃ stage op, build stages = .error (.duplicateStage stage op))
      ↔ ¬(stages.flatMap Rule.produces).Nodup)
    ∧ (∀ stage op, build stages = .error (.duplicateStage stage op) ↔ ∃ seen,
      ReportedAfter Rule.produces stages seen stage op ∧ seen.Nodup ∧ op ∈ seen)
    ∧ ∀ stage op, build stages = .error (.unknownDependency stage op) ↔
      (stages.flatMap Rule.produces).Nodup ∧ ∃ seen,
        ReportedAfter Rule.requires stages seen stage op
          ∧ (∀ need ∈ seen, need ∈ stages.flatMap Rule.produces)
          ∧ op ∉ stages.flatMap Rule.produces :=
  ⟨fun _ => build_eq_ok_iff, exists_build_eq_duplicateStage_iff,
    fun _ _ => build_eq_duplicateStage_iff, fun _ _ => build_eq_unknownDependency_iff⟩

/-- A stage that records its operation twice, and waits for another in vain. -/
example :
    let stage := Rule.silent "rt" fun s => [s]
    build [stage.behind [.once .rt, .require .dvirvacana, .once .rt]]
      = .error (.duplicateStage "rt" .rt) :=
  rfl

end Pipeline

end Vyakarana
