import BoundQuery.Proofs.Query.Calls

/-!
# The names in a query

All names in a query are there in their escaped form: each has come in with a call. What a statement
is read from or written to is one of them.
-/

namespace BoundQuery

set_option autoImplicit false

def Join.names (j : Join) : List String := [j.table, j.localKey, j.foreignKey]

namespace Query

def names (q : Query) : List String :=
  q.table.toList ++ q.source.toList ++ q.projection ++ q.joins.flatMap Join.names ++
    q.clauses.map (·.column) ++ q.ordering.map (·.column)

variable {q : Query} {name : String}

theorem table_or_source_of_target (h : q.target = .ok name) :
    q.table = some name ∨ q.source = some name := by
  unfold target at h
  cases htable : q.table with
  | none =>
    cases hsource : q.source with
    | none => simp [htable, hsource] at h
    | some other =>
      simp only [htable, hsource, Option.orElse_eq_orElse, Option.orElse_none] at h
      split at h
      · cases h
      · cases h
        exact .inr rfl
  | some other =>
    simp only [htable, Option.orElse_eq_orElse, Option.orElse_some] at h
    split at h
    · cases h
    · cases h
      exact .inl rfl

theorem mem_names_of_target (h : q.target = .ok name) : name ∈ q.names := by
  rcases table_or_source_of_target h with h | h <;> simp [names, h]

theorem mem_names_of_rowSource (h : q.rowSource = .ok name) : name ∈ q.names := by
  have hname : q.source = some name ∨ q.table = some name :=
    table_or_source_of_target (q := { q with table := q.source, source := q.table }) h
  rcases hname with h | h <;> simp [names, h]

end Query

namespace Call

def names : Call → List String
  | setTable name | setSource name => [name]
  | project columns => columns
  | join _ table localKey _ foreignKey => [table, localKey, foreignKey]
  | restrict column _ _ _ | orderBy column _ => [column]
  | setLimit _ | setOffset _ => []
  | stageInsert rows => rows.flatMap (·.map (·.1))
  | stageUpdate cells => cells.map (·.1)

variable {q q' : Query} {call : Call} {reply : Reply} {name : String}

theorem Effect.mem_names (h : Effect q call reply q') (hname : name ∈ q'.names) :
    name ∈ q.names ∨ name ∈ call.names.map Identifier.escape := by
  cases h with
  | setLimit | setOffset | stageNoRows | stageInsert | stageNoCells | stageUpdate =>
    exact .inl hname
  | _ =>
    -- the call brings its names to one place and leaves the others
    simp only [Query.names, Call.names, Join.names, List.mem_append, List.mem_map,
      List.mem_flatMap] at hname ⊢
    grind

theorem mem_names_run (call : Call) (hname : name ∈ (call.run q).2.names) :
    name ∈ q.names ∨ name ∈ call.names.map Identifier.escape := by
  rcases call.run_outcomes q with ⟨e, h⟩ | ⟨reply, q', h, heffect⟩
  · rw [h] at hname
    exact .inl hname
  · rw [h] at hname
    exact heffect.mem_names hname

/-- What holds of all escaped names that the calls bring holds of all names in the query. -/
theorem names_runAll {P : String → Prop} (calls : List Call)
    (hcalls : ∀ call ∈ calls, ∀ new ∈ call.names, P (Identifier.escape new))
    (hnames : ∀ name ∈ q.names, P name) : ∀ name ∈ (runAll calls q).2.names, P name := by
  induction calls generalizing q with
  | nil => exact hnames
  | cons call calls ih =>
    refine ih (fun c hc => hcalls c (List.mem_cons_of_mem call hc)) fun name hname => ?_
    rcases call.mem_names_run hname with hold | hnew
    · exact hnames name hold
    · obtain ⟨new, hmem, rfl⟩ := List.mem_map.mp hnew
      exact hcalls call List.mem_cons_self new hmem

end Call

end BoundQuery
