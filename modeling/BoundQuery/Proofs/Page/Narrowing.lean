import BoundQuery.Proofs.Condition
import BoundQuery.Proofs.Page.Runs
import BoundQuery.Proofs.Query.Calls

/-!
# What a page request adds to a query

A search appends its predicates with `OR` and a filter with `AND`, flat behind those that the query
has. So a search predicate is an alternative to everything before it, and filters narrow the last
alternative only: a page can show rows that the query alone would not, and rows that a filter does
not let through. What follows says exactly when.
-/

namespace BoundQuery

set_option autoImplicit false

/-- A `LIKE` predicate for each column, under the keys that come after the first `n`. -/
def likeClauses (connector : Connector) (n : Nat) : List String → List Clause
  | [] => []
  | column :: columns =>
    let column := Identifier.escape column
    ⟨column, .like, .key (Registry.keyOf column (n + 1)), connector⟩ ::
      likeClauses connector (n + 1) columns

theorem connector_likeClauses {connector : Connector} {n : Nat} {columns : List String}
    {c : Clause} (hc : c ∈ likeClauses connector n columns) : c.connector = connector := by
  induction columns generalizing n with
  | nil => exact absurd hc List.not_mem_nil
  | cons column columns ih =>
    rcases List.mem_cons.mp hc with rfl | hc
    · rfl
    · exact ih hc

namespace PageRequest

def searched (request : PageRequest) (columns : List Column) : List String :=
  match request.search with
  | none | some "" => []
  | some _ => (columns.filter (·.searchable)).map (·.key)

def filtered (request : PageRequest) (columns : List Column) : List String :=
  (request.filters.filter fun f => Column.isAllowed columns f.1 (·.filterable)).map (·.1)

/-- What the predicates of the search compare with, by column. -/
def searchCells (request : PageRequest) (columns : List Column) : Cells :=
  (request.searched columns).map fun key =>
    (Identifier.escape key, Paging.containing (request.search.getD ""))

/-- What the predicates of the filters compare with, by column. -/
def filterCells (request : PageRequest) (columns : List Column) : Cells :=
  (request.filters.filter fun f => Column.isAllowed columns f.1 (·.filterable)).map fun f =>
    (Identifier.escape f.1, Paging.containing (Paging.filterTerm f.2))

/-- The predicates of the search. -/
def found (request : PageRequest) (columns : List Column) (q : Query) : List Clause :=
  likeClauses .or q.registry.counter (request.searched columns)

/-- The predicates of the filters. -/
def kept (request : PageRequest) (columns : List Column) (q : Query) : List Clause :=
  likeClauses .and (q.registry.counter + (request.searched columns).length)
    (request.filtered columns)

/-- A query with the predicates of a request, whose rows are counted and fetched. -/
def narrow (request : PageRequest) (columns : List Column) (q : Query) : Query :=
  { q with
    registry :=
      (q.registry.pushAll (request.searchCells columns ++ request.filterCells columns)).2
    clauses := q.clauses ++ request.found columns q ++ request.kept columns q }

end PageRequest

namespace Query

theorem restrict_like (q : Query) (column text : String) (connector : Connector) :
    q.restrict column "LIKE" (.text text) connector =
      (.ok (), { q with
        registry := (q.registry.push (Identifier.escape column) (.text text)).2
        clauses := q.clauses ++ likeClauses connector q.registry.counter [column] }) := by
  have hfind : q.dialect.operators.find? (·.keyword == Operator.normalize "LIKE") = some .like := by
    cases q.dialect <;> decide +kernel
  unfold restrict Operator.ofText
  rw [hfind]
  rfl

end Query

namespace Paging

variable {σ : Type}

theorem runOn_likes {ι : Type} (column term : ι → String) (connector : Connector)
    (items : List ι) (q : Query) (conn : σ) :
    Paging.runOn (items.forM fun i =>
        shape (·.restrict (column i) "LIKE" (containing (term i)) connector)) (q, conn) =
      (.ok (), { q with
        registry := (q.registry.pushAll (items.map fun i =>
          (Identifier.escape (column i), containing (term i)))).2
        clauses := q.clauses ++ likeClauses connector q.registry.counter (items.map column) },
        conn) := by
  induction items generalizing q with
  | nil =>
    rw [List.map_nil, List.map_nil, likeClauses, List.append_nil]
    rfl
  | cons i items ih =>
    have hfirst := q.restrict_like (column i) ("%" ++ term i ++ "%") connector
    have hrest := ih (q.restrict (column i) "LIKE" (containing (term i)) connector).2
    rw [List.forM, runOn_bind, runOn_shape]
    simp only [containing, hfirst] at hrest ⊢
    rw [hrest, List.append_assoc]
    rfl

theorem runOn_search (request : PageRequest) (columns : List Column) (q : Query) (conn : σ) :
    (search columns request.search).runOn (q, conn) =
      (.ok (), { q with
        registry := (q.registry.pushAll (request.searchCells columns)).2
        clauses := q.clauses ++ request.found columns q }, conn) := by
  have hnothing (h : request.searched columns = []) :
      (pure () : Paging σ Unit).runOn (q, conn) = (.ok (), { q with
        registry := (q.registry.pushAll (request.searchCells columns)).2
        clauses := q.clauses ++ request.found columns q }, conn) := by
    rw [PageRequest.found, PageRequest.searchCells, h, likeClauses, List.append_nil]
    rfl
  cases hterm : request.search with
  | none => exact hnothing (by simp [PageRequest.searched, hterm])
  | some term =>
    by_cases hempty : term = ""
    · subst hempty
      exact hnothing (by simp [PageRequest.searched, hterm])
    · have hsearched : request.searched columns =
          (columns.filter (·.searchable)).map (·.key) := by
        simp [PageRequest.searched, hterm]
      have hrun := runOn_likes (·.key) (fun _ => term) .or (columns.filter (·.searchable)) q conn
      rw [PageRequest.found, PageRequest.searchCells, hsearched, List.map_map, hterm, search]
      · exact hrun
      · exact hempty

theorem runOn_filter (request : PageRequest) (columns : List Column) (q : Query) (conn : σ) :
    (filter columns request.filters).runOn (q, conn) =
      (.ok (), { q with
        registry := (q.registry.pushAll (request.filterCells columns)).2
        clauses := q.clauses ++ likeClauses .and q.registry.counter (request.filtered columns) },
        conn) := by
  have hrun := runOn_likes (·.1) (fun f => filterTerm f.2) .and
    (request.filters.filter fun f => Column.isAllowed columns f.1 (·.filterable)) q conn
  rw [PageRequest.filterCells, PageRequest.filtered, ← hrun]
  rfl

/-- Search and filters do not fail, and together they narrow the query. -/
theorem runOn_narrow {α : Type} (request : PageRequest) (columns : List Column) (q : Query)
    (conn : σ) (rest : Paging σ α) :
    (do search columns request.search; filter columns request.filters; rest).runOn (q, conn) =
      rest.runOn (request.narrow columns q, conn) := by
  rw [runOn_bind, runOn_search]
  simp only
  rw [runOn_bind, runOn_filter]
  simp only [Registry.counter_pushAll, PageRequest.searchCells, List.length_map]
  rw [PageRequest.narrow, PageRequest.searchCells, Registry.pushAll_append]
  rfl

/-- What follows the count: page and ordering are set and the rows are fetched. -/
def finish [Executor σ] (request : PageRequest) (columns : List Column) (total : Int64) :
    Paging σ Page := do
  dispatch fun _ conn => (.ok (), Executor.note conn (event request total))
  shape (·.setLimit (.ofUInt64 request.pageSize))
  shape (·.setOffset (.ofUInt64 request.offset))
  sort columns request.sorting
  let rows ← dispatch Query.get
  return ⟨⟨request.pageNumber, total⟩, columns, rows⟩

theorem runOn_paginate [Executor σ] (request : PageRequest) (columns : List Column) (q : Query)
    (conn : σ) :
    (paginate request columns).runOn (q, conn) =
      (dispatch Query.count >>= finish request columns).runOn (request.narrow columns q, conn) :=
  runOn_narrow request columns q conn _

end Paging

/-- A statement is the COUNT or the SELECT of a query with this body. -/
def Asked.HasBody (asked : Asked) (body : List Clause) : Prop :=
  ∃ q : Query, q.clauses = body ∧ (q.countText = .ok asked.text ∨ q.selectText = .ok asked.text)

namespace Paging

variable {σ : Type}

def Settled (body : List Clause) (s : Query × Watched σ) : Prop :=
  s.1.clauses = body ∧ ∀ asked ∈ s.2.asked, asked.HasBody body

variable {body : List Clause}

theorem keeps_shape {α : Type} {call : Query → Attempt α}
    (hcall : ∀ q, (call q).2.clauses = q.clauses) :
    Keeps (Settled body) (shape call : Paging (Watched σ) α) := by
  apply Keeps.shape
  rintro q w ⟨hclauses, hasked⟩
  exact ⟨(hcall q).trans hclauses, hasked⟩

theorem keeps_setLimit (value : Value) :
    Keeps (Settled body) (shape (·.setLimit value) : Paging (Watched σ) Unit) := by
  apply keeps_shape
  intro q
  rcases q.setLimit_cases value with ⟨e, h⟩ | ⟨n, _, h⟩ <;> rw [h]

theorem keeps_setOffset (value : Value) :
    Keeps (Settled body) (shape (·.setOffset value) : Paging (Watched σ) Unit) := by
  apply keeps_shape
  intro q
  rcases q.setOffset_cases value with ⟨e, h⟩ | ⟨n, _, h⟩ <;> rw [h]

theorem keeps_sort (columns : List Column) (sorting : List (String × String)) :
    Keeps (Settled body) (sort columns sorting : Paging (Watched σ) Unit) := by
  apply Keeps.forM
  intro term _
  apply keeps_shape
  intro q
  rcases q.orderBy_cases term.1 term.2 with ⟨e, h⟩ | ⟨d, _, h⟩ <;> rw [h]

theorem Settled.ask {q : Query} {w w' : Watched σ} (h : Settled body (q, w))
    (hasked : w'.asked = w.asked ∨ ∃ text, (q.countText = .ok text ∨ q.selectText = .ok text) ∧
      w'.asked = w.asked ++ [⟨.fetch, text, q.registry⟩]) : Settled body (q, w') := by
  obtain ⟨hclauses, hbefore⟩ := h
  refine ⟨hclauses, ?_⟩
  rcases hasked with hsame | ⟨text, htext, hmore⟩
  · rw [hsame]
    exact hbefore
  · rw [hmore]
    intro asked hmem
    rcases List.mem_append.mp hmem with hmem | hmem
    · exact hbefore asked hmem
    · rw [List.mem_singleton.mp hmem]
      exact ⟨q, hclauses, htext⟩

variable [Executor σ]

theorem keeps_count :
    Keeps (Settled body) (dispatch Query.count : Paging (Watched σ) Int64) := by
  apply Keeps.dispatch
  intro q w h
  apply h.ask
  rw [q.count_eq_read w]
  rcases q.asked_read q.countText w with hsame | ⟨text, htext, hmore⟩
  · exact .inl hsame
  · exact .inr ⟨text, .inl htext, hmore⟩

theorem keeps_get :
    Keeps (Settled body) (dispatch Query.get : Paging (Watched σ) (List Row)) := by
  apply Keeps.dispatch
  intro q w h
  apply h.ask
  rcases q.asked_read q.selectText w with hsame | ⟨text, htext, hmore⟩
  · exact .inl hsame
  · exact .inr ⟨text, .inr htext, hmore⟩

theorem keeps_note (event : Event) : Keeps (Settled body)
    (dispatch fun _ w => (.ok (), Executor.note w event) : Paging (Watched σ) Unit) :=
  Keeps.dispatch fun _ _ h => h

theorem keeps_finish (request : PageRequest) (columns : List Column) (total : Int64) :
    Keeps (Settled body) (finish request columns total : Paging (Watched σ) Page) := by
  refine Keeps.bind (keeps_note _) fun _ => ?_
  refine Keeps.bind (keeps_setLimit _) fun _ => ?_
  refine Keeps.bind (keeps_setOffset _) fun _ => ?_
  refine Keeps.bind (keeps_sort columns _) fun _ => ?_
  exact Keeps.bind keeps_get fun rows => Keeps.pure _

/-- Whatever paginating asks for has the body of the query, then the search, then the filters. -/
theorem hasBody_paginate (request : PageRequest) (columns : List Column) (q : Query) (conn : σ) :
    ∀ asked ∈ ((paginate request columns).runOn (q, ({ conn } : Watched σ))).2.2.asked,
      asked.HasBody (q.clauses ++ request.found columns q ++ request.kept columns q) := by
  rw [runOn_paginate]
  refine (Keeps.bind (I := Settled _) keeps_count (keeps_finish request columns)) _ ⟨rfl, ?_⟩ |>.2
  exact fun _ h => absurd h List.not_mem_nil

end Paging

namespace PageRequest

open Clause

variable (request : PageRequest) (columns : List Column) (q : Query)

theorem holds_found_kept (v : String → Prop) :
    Holds v (q.clauses ++ request.found columns q ++ request.kept columns q) ↔
      (Holds v q.clauses ∨ (∃ c ∈ request.found columns q, v c.render) ∨
        q.clauses ++ request.found columns q = [] ∧ request.kept columns q ≠ []) ∧
      ((∀ c ∈ request.kept columns q, v c.render) ∨
        HoldsEarly v (q.clauses ++ request.found columns q)) := by
  have hfound : ∀ c ∈ request.found columns q, c.connector = .or :=
    fun _ hc => connector_likeClauses hc
  have hkept : ∀ c ∈ request.kept columns q, c.connector = .and :=
    fun _ hc => connector_likeClauses hc
  by_cases hbefore : q.clauses ++ request.found columns q = []
  · obtain ⟨hclauses, hnone⟩ := List.append_eq_nil_iff.mp hbefore
    rw [hclauses, hnone, List.nil_append, List.nil_append, holds_and hkept]
    simp
  · rw [holds_append_and hbefore hkept, holds_append_or hfound]
    simp only [hbefore, false_and, or_false]

end PageRequest

/--
Every statement that paginating asks for has one body, written as its alternatives with `OR` between
them. It holds exactly if two things do. The body of the query holds, or a search predicate does, or
there was neither and only filters are left. And every filter predicate holds, or an alternative
does that is not the last one before the filters. So without a search predicate it holds only if the
body of the query does, and without an `OR` before the filters only if every filter does.
-/
theorem paginate_holds_iff {σ : Type} [Executor σ] (request : PageRequest) (columns : List Column)
    (q : Query) (conn : σ) :
    let run := (paginate request columns).runOn (q, ({ conn } : Watched σ))
    let found := request.found columns q
    let kept := request.kept columns q
    let body := q.clauses ++ found ++ kept
    (run.1, run.2.1, run.2.2.conn) = (paginate request columns).runOn (q, conn) ∧
    (∀ asked ∈ run.2.2.asked, asked.HasBody body) ∧
    Clause.renderAll body = String.intercalate " OR " ((Clause.alternatives body).map fun g =>
      String.intercalate " AND " (g.map Clause.render)) ∧
    (∀ v, Clause.Holds v body ↔
      (Clause.Holds v q.clauses ∨ (∃ c ∈ found, v c.render) ∨
        q.clauses ++ found = [] ∧ kept ≠ []) ∧
      ((∀ c ∈ kept, v c.render) ∨ Clause.HoldsEarly v (q.clauses ++ found))) ∧
    (found = [] → q.clauses ≠ [] → ∀ v, Clause.Holds v body → Clause.Holds v q.clauses) ∧
    ((∀ c ∈ (q.clauses ++ found).tail, c.connector = .and) →
      ∀ v, Clause.Holds v body → ∀ c ∈ kept, v c.render) := by
  intro run found kept body
  obtain ⟨hanswer, hquery, hconn⟩ := Paging.follows_paginate request columns q { conn }
  have hholds (v : String → Prop) := request.holds_found_kept columns q v
  refine ⟨by rw [hanswer, hquery, hconn], Paging.hasBody_paginate request columns q conn,
    Clause.renderAll_eq_intercalate body, hholds, ?_, ?_⟩
  · intro hfound hclauses v hbody
    rcases ((hholds v).mp hbody).1 with hquery | ⟨c, hc, _⟩ | ⟨hnone, _⟩
    · exact hquery
    · change c ∈ found at hc
      rw [hfound] at hc
      exact absurd hc List.not_mem_nil
    · exact absurd (List.append_eq_nil_iff.mp hnone).1 hclauses
  · intro hand v hbody
    exact ((hholds v).mp hbody).2.resolve_right (Clause.not_holdsEarly_of_and hand)

/-- A search steps around the tenant, and the tenant around a filter. -/
theorem paginate_widens :
    let q := ((Query.onTable .mysql "users").restrict "tenant" "=" (.int 1) .and).2
    let columns : List Column := [⟨"name", true, false, false⟩, ⟨"role", false, true, false⟩]
    let request : PageRequest := { search := some "ann", filters := [("role", .string "admin")] }
    let conn : Recorder :=
      { dialect := .mysql, script := [.rows [⟨[("count", .string "1")]⟩]] }
    let run := (paginate request columns).runOn (q, ({ conn } : Watched Recorder))
    let kept := request.kept columns q
    let body := q.clauses ++ request.found columns q ++ kept
    run.2.2.asked.map (·.text) =
      ["SELECT COUNT(*) AS count FROM users WHERE " ++ Clause.renderAll body,
        "SELECT * FROM users WHERE " ++ Clause.renderAll body ++ " LIMIT 10 OFFSET 0"] ∧
    Clause.renderAll body = "tenant = :tenant_1 OR name LIKE :name_2 AND role LIKE :role_3" ∧
    (∃ v, Clause.Holds v body ∧ ¬ Clause.Holds v q.clauses) ∧
    ∃ v, Clause.Holds v body ∧ ∃ c ∈ kept, ¬ v c.render := by
  intro q columns request conn run kept body
  have hbody : Clause.renderAll body =
      "tenant = :tenant_1 OR name LIKE :name_2 AND role LIKE :role_3" := by
    decide +kernel
  have hasked : run.2.2.asked.map (·.text) =
      ["SELECT COUNT(*) AS count FROM users WHERE " ++ Clause.renderAll body,
        "SELECT * FROM users WHERE " ++ Clause.renderAll body ++ " LIMIT 10 OFFSET 0"] := by
    decide +kernel
  refine ⟨hasked, hbody, ⟨(· ≠ "tenant = :tenant_1"), ?_, ?_⟩, ⟨(· ≠ "role LIKE :role_3"), ?_, ?_⟩⟩
  · decide +kernel
  · decide +kernel
  · decide +kernel
  · decide +kernel

end BoundQuery
