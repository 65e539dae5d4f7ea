import BoundQuery.Proofs.Query.Calls

/-!
# Independent calls

A call that shapes a query belongs to one facet of it: it reads nothing else but the dialect, and
writes nothing else. So what a run makes of a facet is what the calls of that facet make of it,
whatever stands between them. Only the order of the calls of one facet matters.
-/

namespace BoundQuery

set_option autoImplicit false

namespace Query

/-- The facets of a query. The registry belongs to the predicates, whose values it holds. -/
inductive Facet where
  | table
  | source
  | projection
  | joins
  | predicates
  | ordering
  | limit
  | offset
  deriving DecidableEq, Repr

/-- The query that has one facet of a query and nothing else. -/
def only (q : Query) : Facet → Query
  | .table => { dialect := q.dialect, table := q.table }
  | .source => { dialect := q.dialect, source := q.source }
  | .projection => { dialect := q.dialect, projection := q.projection }
  | .joins => { dialect := q.dialect, joins := q.joins }
  | .predicates => { dialect := q.dialect, registry := q.registry, clauses := q.clauses }
  | .ordering => { dialect := q.dialect, ordering := q.ordering }
  | .limit => { dialect := q.dialect, limit := q.limit }
  | .offset => { dialect := q.dialect, offset := q.offset }

theorem eq_of_only_eq {q q' : Query} (h : ∀ facet, q.only facet = q'.only facet) : q = q' := by
  have hdialect := congrArg Query.dialect (h .table)
  have htable := congrArg Query.table (h .table)
  have hsource := congrArg Query.source (h .source)
  have hprojection := congrArg Query.projection (h .projection)
  have hjoins := congrArg Query.joins (h .joins)
  have hregistry := congrArg Query.registry (h .predicates)
  have hclauses := congrArg Query.clauses (h .predicates)
  have hordering := congrArg Query.ordering (h .ordering)
  have hlimit := congrArg Query.limit (h .limit)
  have hoffset := congrArg Query.offset (h .offset)
  cases q
  cases q'
  simp only [only] at *
  simp only [*]

end Query

namespace Call

open Query

/-- The facet that a call shapes. To stage a statement is no shaping. -/
def facet? : Call → Option Facet
  | setTable .. => some .table
  | setSource .. => some .source
  | project .. => some .projection
  | join .. => some .joins
  | restrict .. => some .predicates
  | orderBy .. => some .ordering
  | setLimit .. => some .limit
  | setOffset .. => some .offset
  | stageInsert .. | stageUpdate .. => none

def IsShaping (call : Call) : Prop := call.facet?.isSome = true

variable {call : Call} {own facet : Facet}

/-- A call leaves every facet alone but its own. -/
theorem only_run_of_ne (hown : call.facet? = some own) (hne : facet ≠ own) (q : Query) :
    (call.run q).2.only facet = q.only facet := by
  rcases call.run_outcomes q with ⟨e, h⟩ | ⟨reply, q', h, heffect⟩
  · rw [h]
  · rw [h]
    cases heffect <;> cases hown <;> cases facet <;> first | rfl | exact absurd rfl hne

/-- What a call makes of its own facet it makes of that facet alone. -/
theorem only_run (hown : call.facet? = some facet) (q : Query) :
    (call.run q).2.only facet = (call.run (q.only facet)).2.only facet := by
  cases call with
  | setTable name => cases hown; rfl
  | setSource name => cases hown; rfl
  | project columns => cases hown; rfl
  | join kind table localKey operator foreignKey =>
    cases hown
    simp only [run, answer, Query.join]
    rw [show (q.only .joins).dialect = q.dialect from rfl]
    cases Operator.ofText q.dialect operator <;> rfl
  | restrict column operator value connector =>
    cases hown
    simp only [run, answer, Query.restrict]
    rw [show (q.only .predicates).dialect = q.dialect from rfl,
      show (q.only .predicates).registry = q.registry from rfl]
    cases Operator.ofText q.dialect operator with
    | error e => rfl
    | ok op =>
      simp only
      rcases bindOperand q.registry (Identifier.escape column) op value with ⟨_ | _, r⟩ <;> rfl
  | orderBy column direction =>
    cases hown
    simp only [run, answer, Query.orderBy]
    cases Direction.ofText direction <;> rfl
  | setLimit value =>
    cases hown
    simp only [run, answer, Query.setLimit]
    cases natural "LIMIT" value <;> rfl
  | setOffset value =>
    cases hown
    simp only [run, answer, Query.setOffset]
    cases natural "OFFSET" value <;> rfl
  | stageInsert rows => cases hown
  | stageUpdate cells => cases hown

/-- What a run makes of a facet is what the calls of that facet make of it. -/
theorem only_runAll (facet : Facet) {calls : List Call} (hcalls : ∀ call ∈ calls, call.IsShaping)
    {q q' : Query} (h : q.only facet = q'.only facet) :
    (runAll calls q).2.only facet =
      (runAll (calls.filter (·.facet? = some facet)) q').2.only facet := by
  induction calls generalizing q q' with
  | nil => exact h
  | cons call calls ih =>
    have hrest : ∀ other ∈ calls, other.IsShaping := fun other hother =>
      hcalls other (List.mem_cons_of_mem call hother)
    obtain ⟨own, hown⟩ := Option.isSome_iff_exists.mp (hcalls call List.mem_cons_self)
    by_cases hfacet : facet = own
    · subst hfacet
      have hstep : (call.run q).2.only facet = (call.run q').2.only facet := by
        rw [only_run hown, h, ← only_run hown]
      rw [List.filter_cons_of_pos (by simpa using hown)]
      exact ih hrest hstep
    · have hstep : (call.run q).2.only facet = q'.only facet := by
        rw [only_run_of_ne hown hfacet, h]
      have hother : call.facet? ≠ some facet := by
        rw [hown]
        exact fun heq => hfacet (Option.some.inj heq).symm
      rw [List.filter_cons_of_neg (by simpa using hother)]
      exact ih hrest hstep

/--
Two runs of shaping calls on one query, accepted and refused ones, lead to the same query if they
have the same calls of each facet in the same order.
-/
theorem runAll_eq_of_filter_eq (q : Query) {calls others : List Call}
    (hcalls : ∀ call ∈ calls, call.IsShaping) (hothers : ∀ call ∈ others, call.IsShaping)
    (h : ∀ facet, calls.filter (·.facet? = some facet) = others.filter (·.facet? = some facet)) :
    (runAll calls q).2 = (runAll others q).2 := by
  apply eq_of_only_eq
  intro facet
  calc (runAll calls q).2.only facet
    _ = (runAll (calls.filter (·.facet? = some facet)) q).2.only facet :=
      only_runAll facet hcalls rfl
    _ = (runAll (others.filter (·.facet? = some facet)) q).2.only facet := by rw [h facet]
    _ = (runAll others q).2.only facet := (only_runAll facet hothers rfl).symm

/-- Predicates, of which the second is refused, between and behind the other calls. -/
theorem runAll_eq_of_filter_eq_users :
    let calls : List Call := [.setTable "users", .restrict "id" "=" (.int 1) .and,
      .setLimit (.int 5), .restrict "age" "between" (.int 2) .and, .setLimit (.text "x"),
      .orderBy "name" "asc", .restrict "id" "in" (.list [.int 3]) .or]
    let others : List Call := [.setLimit (.int 5), .orderBy "name" "asc", .setLimit (.text "x"),
      .restrict "id" "=" (.int 1) .and, .restrict "age" "between" (.int 2) .and,
      .restrict "id" "in" (.list [.int 3]) .or, .setTable "users"]
    (∀ call ∈ calls, call.IsShaping) ∧ (∀ call ∈ others, call.IsShaping) ∧
      (∀ facet, calls.filter (·.facet? = some facet) = others.filter (·.facet? = some facet)) ∧
      (runAll calls { dialect := .mysql }).2 = (runAll others { dialect := .mysql }).2 := by
  intro calls others
  have hcalls : ∀ call ∈ calls, call.IsShaping := by simp [calls, IsShaping, facet?]
  have hothers : ∀ call ∈ others, call.IsShaping := by simp [others, IsShaping, facet?]
  have hfilter (facet : Facet) :
      calls.filter (·.facet? = some facet) = others.filter (·.facet? = some facet) := by
    cases facet <;> rfl
  exact ⟨hcalls, hothers, hfilter, runAll_eq_of_filter_eq _ hcalls hothers hfilter⟩

end Call

end BoundQuery
