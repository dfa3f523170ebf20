import Mathlib.Data.List.Forall2
import Vyakarana.Derivation

/-!
# Searches that go side by side

When the stages of two pipelines take related states to related states, searches from two related
states make the same steps: the same stages fire, the same limits are met, and the derivations are
related one by one.

* `Rule.Matches`, `Rule.Respects` — rules, or one rule, take related states to related states
* `Pipeline.derive_related_of_matches`, `Pipeline.derive_related` — the outcomes of the two searches
  are related
* `Pipeline.derive_eq_mapStates` — the case in which one state is a function of the other
* `Pipeline.derive_congr` — the case in which two pipelines do the same
-/

namespace Vyakarana

variable {R : State → State → Prop}

/-! ## Related results -/

/-- From related states the rules yield equally many states, related in order. -/
structure Rule.Matches (R : State → State → Prop) (r q : Rule) : Prop where
  name : q.name = r.name
  apply : ∀ {s t : State}, R s t → List.Forall₂ R (r.apply s) (q.apply t)

/-- From related states the rule yields equally many states, related in order. -/
def Rule.Respects (r : Rule) (R : State → State → Prop) : Prop :=
  ∀ {s t : State}, R s t → List.Forall₂ R (r.apply s) (r.apply t)

/-- The same stage leads to related states. -/
structure Step.Related (R : State → State → Prop) (a b : Step) : Prop where
  stage : b.stage = a.stage
  state : R a.state b.state

/-- Related steps lead to related states. -/
structure Derivation.Related (R : State → State → Prop) (d e : Derivation) : Prop where
  state : R d.state e.state
  history : List.Forall₂ (Step.Related R) d.history e.history

/-- The same search, but for the states. -/
structure Outcome.Related (R : State → State → Prop) (o q : Outcome) : Prop where
  derivations : List.Forall₂ (Derivation.Related R) o.derivations q.derivations
  expansions : q.expansions = o.expansions
  truncated : q.truncated = o.truncated

namespace Search

/-- Related steps led to related states. -/
structure Branch.Related (R : State → State → Prop) (b c : Branch) : Prop where
  state : R b.state c.state
  path : List.Forall₂ (Step.Related R) b.path c.path

/-- The outcome of a record with one more visit before it. -/
theorem Trail.outcome_after (t : Trail) (v : Visit) :
    (t.after v).outcome
      = { derivations := v.derivation?.toList ++ t.outcome.derivations
          expansions := t.outcome.expansions + 1
          truncated := t.outcome.truncated } := by
  unfold outcome after
  cases hv : v.derivation? with
  | none => rw [List.filterMap_cons_none hv]; rfl
  | some d => rw [List.filterMap_cons_some hv]; rfl

end Search

open Search

namespace Pipeline

variable {p q : Pipeline} {s t : State} {maxResults steps found : Nat}

/-! ## Steps -/

/-- Stages of the same name fire on related states, or none does. -/
theorem fire?_related {rules others : List Rule} (h : List.Forall₂ (Rule.Matches R) rules others)
    (hst : R s t) :
    (fire? rules s = none ∧ fire? others t = none)
      ∨ ∃ stage ss ts, List.Forall₂ R ss ts ∧ fire? rules s = some ⟨stage, ss⟩
        ∧ fire? others t = some ⟨stage, ts⟩ := by
  induction h with
  | nil => exact Or.inl ⟨rfl, rfl⟩
  | @cons r q rules others hrq _ ih =>
    have hr := hrq.apply hst
    rw [fire?, fire?, hrq.name]
    cases hs : r.apply s with
    | nil =>
      rw [hs, List.forall₂_nil_left_iff] at hr
      rw [hr]
      exact ih
    | cons u us =>
      rw [hs] at hr
      obtain ⟨v, vs, huv, husvs, ht⟩ := List.forall₂_cons_left_iff.mp hr
      rw [ht]
      exact Or.inr ⟨r.name, u :: us, v :: vs, List.Forall₂.cons huv husvs, rfl, rfl⟩

/-- The branches that open are related. -/
theorem extend_related {b c : Branch} (hbc : b.Related R c) (stage : String)
    {ss ts : List State} (h : List.Forall₂ R ss ts) :
    List.Forall₂ (Branch.Related R) (b.extend ⟨stage, ss⟩) (c.extend ⟨stage, ts⟩) := by
  rw [Branch.extend, Branch.extend, List.forall₂_map_left_iff, List.forall₂_map_right_iff]
  exact h.imp fun u v huv => ⟨huv, List.Forall₂.cons ⟨rfl, huv⟩ hbc.path⟩

/-! ## Searches -/

/-- A visit without a firing ends a derivation. -/
theorem derivation_related {b c : Branch} (hbc : b.Related R c) :
    Derivation.Related R ⟨b.state, b.path.reverse⟩ ⟨c.state, c.path.reverse⟩ :=
  ⟨hbc.state, List.forall₂_reverse_iff.mpr hbc.path⟩

/-- Walks along related stacks have related outcomes. -/
theorem walk_related (h : List.Forall₂ (Rule.Matches R) p.stages q.stages)
    {bs cs : List Branch} (hbs : List.Forall₂ (Branch.Related R) bs cs) :
    Outcome.Related R (walk p maxResults steps found bs).outcome
      (walk q maxResults steps found cs).outcome := by
  induction steps generalizing found bs cs with
  | zero =>
    cases hbs with
    | nil => exact ⟨List.Forall₂.nil, rfl, rfl⟩
    | cons _ _ => exact ⟨List.Forall₂.nil, rfl, rfl⟩
  | succ steps ih =>
    cases hbs with
    | nil => exact ⟨List.Forall₂.nil, rfl, rfl⟩
    | @cons b c bs cs hbc hrest =>
      rw [walk, walk]
      rcases fire?_related h hbc.state with ⟨hb, hc⟩ | ⟨stage, ss, ts, hss, hb, hc⟩
      · rw [hb, hc]
        dsimp only
        by_cases hle : maxResults ≤ found + 1
        · rw [if_pos hle, if_pos hle]
          have hempty : bs.isEmpty = cs.isEmpty := by cases hrest <;> rfl
          rw [hempty]
          exact ⟨List.Forall₂.cons (derivation_related hbc) List.Forall₂.nil, rfl, rfl⟩
        · rw [if_neg hle, if_neg hle, Trail.outcome_after, Trail.outcome_after]
          have hwalk : Outcome.Related R (walk p maxResults steps (found + 1) bs).outcome
              (walk q maxResults steps (found + 1) cs).outcome := ih hrest
          exact ⟨List.Forall₂.cons (derivation_related hbc) hwalk.derivations,
            congrArg (· + 1) hwalk.expansions, hwalk.truncated⟩
      · rw [hb, hc]
        dsimp only
        rw [Trail.outcome_after, Trail.outcome_after]
        have hopen := List.rel_append (extend_related hbc stage hss) hrest
        have hwalk : Outcome.Related R
            (walk p maxResults steps found (b.extend ⟨stage, ss⟩ ++ bs)).outcome
            (walk q maxResults steps found (c.extend ⟨stage, ts⟩ ++ cs)).outcome := ih hopen
        exact ⟨hwalk.derivations, congrArg (· + 1) hwalk.expansions, hwalk.truncated⟩

/-- **Searches from related states have related outcomes**, in pipelines with matching stages. -/
theorem derive_related_of_matches (h : List.Forall₂ (Rule.Matches R) p.stages q.stages)
    (limits : Limits) (hst : R s t) : Outcome.Related R (p.derive limits s) (q.derive limits t) :=
  walk_related h (List.Forall₂.cons ⟨hst, List.Forall₂.nil⟩ List.Forall₂.nil)

/-- **Searches from related states have related outcomes.** -/
theorem derive_related (h : ∀ r ∈ p.stages, r.Respects R) (limits : Limits) (hst : R s t) :
    Outcome.Related R (p.derive limits s) (p.derive limits t) :=
  derive_related_of_matches (List.forall₂_same.mpr fun r hr => ⟨rfl, h r hr⟩) limits hst

end Pipeline

/-! ## States as functions of states -/

/-- The step with another state. -/
def Step.mapState (f : State → State) (a : Step) : Step := ⟨a.stage, f a.state⟩

/-- The derivation with other states. -/
def Derivation.mapStates (f : State → State) (d : Derivation) : Derivation :=
  ⟨f d.state, d.history.map (Step.mapState f)⟩

/-- The outcome with other states. -/
def Outcome.mapStates (f : State → State) (o : Outcome) : Outcome :=
  { o with derivations := o.derivations.map (Derivation.mapStates f) }

theorem eq_map_of_forall₂ {α β : Type} {f : α → β} {xs : List α} {ys : List β}
    (h : List.Forall₂ (fun x y => f x = y) xs ys) : ys = xs.map f := by
  rw [← List.forall₂_map_left_iff, List.forall₂_eq_eq_eq] at h
  exact h.symm

theorem Derivation.Related.eq_mapStates {f : State → State} {d e : Derivation}
    (hf : ∀ {s t}, R s t → f s = t) (h : d.Related R e) : d.mapStates f = e := by
  obtain ⟨state, history⟩ := e
  have hstep : List.Forall₂ (fun a b => Step.mapState f a = b) d.history history :=
    h.history.imp fun a b hab => by
      rw [Step.mapState, hf hab.state, ← hab.stage]
  rw [mapStates, hf h.state, ← eq_map_of_forall₂ hstep]

theorem Outcome.Related.eq_mapStates {f : State → State} {o q : Outcome}
    (hf : ∀ {s t}, R s t → f s = t) (h : o.Related R q) : q = o.mapStates f := by
  obtain ⟨derivations, expansions, truncated⟩ := q
  have hsame : ∀ d e : Derivation, d.Related R e → d.mapStates f = e :=
    fun d e hde => hde.eq_mapStates hf
  have hder := eq_map_of_forall₂ (h.derivations.imp hsame)
  have hexp : expansions = o.expansions := h.expansions
  have htrunc : truncated = o.truncated := h.truncated
  rw [mapStates, hexp, htrunc, ← hder]

theorem Outcome.mapStates_id (o : Outcome) : o.mapStates id = o := by
  have hstep : Step.mapState id = id := rfl
  have hder : Derivation.mapStates id = id := funext fun d => by
    rw [Derivation.mapStates, hstep, List.map_id]
    rfl
  rw [mapStates, hder, List.map_id]

/-- **When the stages commute with a function of states, so does the search.** -/
theorem Pipeline.derive_eq_mapStates {p : Pipeline} {f : State → State}
    (h : ∀ r ∈ p.stages, ∀ s, r.apply (f s) = (r.apply s).map f) (limits : Limits) (s : State) :
    p.derive limits (f s) = (p.derive limits s).mapStates f := by
  refine Outcome.Related.eq_mapStates (R := fun s t => f s = t) id
    (derive_related (fun r hr => ?_) limits rfl)
  rintro s _ rfl
  rw [h r hr s, List.forall₂_map_right_iff, List.forall₂_same]
  exact fun _ _ => rfl

/-! ## Pipelines that do the same -/

/-- On states with a property the rules yield the same, and what they yield has the property
again. -/
structure Rule.AgreesWhile (I : State → Prop) (r q : Rule) : Prop where
  name : q.name = r.name
  apply : ∀ {s : State}, I s → q.apply s = r.apply s
  keeps : ∀ {s t : State}, I s → t ∈ r.apply s → I t

theorem Rule.AgreesWhile.matches_self {I : State → Prop} {r q : Rule} (h : r.AgreesWhile I q) :
    Rule.Matches (fun s t => s = t ∧ I s) r q where
  name := h.name
  apply := by
    rintro s _ ⟨rfl, hs⟩
    rw [h.apply hs, List.forall₂_same]
    exact fun t ht => ⟨rfl, h.keeps hs ht⟩

/-- **When the stages of two pipelines do the same, so do the searches.** -/
theorem Pipeline.derive_congr {p q : Pipeline} {I : State → Prop} {s : State}
    (h : List.Forall₂ (Rule.AgreesWhile I) p.stages q.stages) (limits : Limits) (hs : I s) :
    q.derive limits s = p.derive limits s := by
  have hmatches := h.imp fun r q hrq => hrq.matches_self
  have hrelated := derive_related_of_matches hmatches limits ⟨rfl, hs⟩
  rw [hrelated.eq_mapStates (f := id) And.left, Outcome.mapStates_id]

end Vyakarana
