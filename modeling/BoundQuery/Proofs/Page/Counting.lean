import BoundQuery.Proofs.Page.Narrowing

/-!
# Counting and fetching a page

A page request asks nothing, or counts, or counts and then fetches. Both statements take their rows
from one source through the same joins and predicates, with the same registry; ordering and page
stand in the second one only. So the total belongs to the rows.
-/

namespace BoundQuery

set_option autoImplicit false

namespace PageRequest

variable (request : PageRequest) (columns : List Column) (q : Query)

/-- The entries on sortable columns, in their order. -/
def sorted : List (String × String) :=
  request.sorting.filter fun s => Column.isAllowed columns s.1 (·.sortable)

/-- The terms for the entries on sortable columns, if all directions are valid. -/
def terms : Except QueryError (List OrderTerm) :=
  (request.sorted columns).mapM fun s =>
    (Direction.ofText s.2).map fun direction => ⟨Identifier.escape s.1, direction⟩

/-- What both statements of a page have behind the source: joins, and predicates if there are. -/
def rowsText : String :=
  let clauses := (request.narrow columns q).clauses
  String.join (q.joins.map fun j => " " ++ j.render) ++
    if clauses = [] then "" else " WHERE " ++ Clause.renderAll clauses

/-- The COUNT for a page with rows of a source. -/
def counting (source : String) : Asked :=
  ⟨.fetch, "SELECT COUNT(*) AS count FROM " ++ source ++ request.rowsText columns q,
    (request.narrow columns q).registry⟩

theorem filterText_narrow : (request.narrow columns q).filterText = request.rowsText columns q := by
  have hwhere (q' : Query) : q'.whereText =
      if q'.clauses = [] then "" else " WHERE " ++ Clause.renderAll q'.clauses := by
    unfold Query.whereText
    cases q'.clauses <;> rfl
  rw [Query.filterText, hwhere]
  rfl

/-- A query with the page of a request, and behind its ordering some terms. -/
def paged (q : Query) (terms : List OrderTerm) : Query :=
  { q with
    limit := some request.pageSize.toNat
    offset := some request.offset.toNat
    ordering := q.ordering ++ terms }

theorem text_counting (source : String) :
    (request.counting columns q source).text =
      "SELECT COUNT(*) AS count FROM " ++ source ++ (request.narrow columns q).filterText := by
  rw [filterText_narrow]
  rfl

theorem pageSize_le : request.pageSize.toNat ≤ Text.int64Max := by
  rw [pageSize, effective, UInt64.toNat_min]
  exact Nat.min_le_right _ _

theorem offset_le : request.offset.toNat ≤ Text.int64Max := by
  rw [offset, UInt64.toNat_min]
  exact Nat.min_le_right _ _

end PageRequest

namespace Query

theorem natural_ofUInt64 (clause : String) {n : UInt64} (h : n.toNat ≤ Text.int64Max) :
    natural clause (.ofUInt64 n) = .ok n.toNat := by
  have hvalue : (Int64.ofNat n.toNat).toInt = n.toNat :=
    Int64.toInt_ofNat_of_lt (by unfold Text.int64Max at h; omega)
  rw [Value.ofUInt64, if_pos h, natural, Value.toInteger?]
  simp [hvalue]

theorem setLimit_ofUInt64 (q : Query) {n : UInt64} (h : n.toNat ≤ Text.int64Max) :
    q.setLimit (.ofUInt64 n) = (.ok (), { q with limit := some n.toNat }) := by
  rw [setLimit, natural_ofUInt64 "LIMIT" h]

theorem setOffset_ofUInt64 (q : Query) {n : UInt64} (h : n.toNat ≤ Text.int64Max) :
    q.setOffset (.ofUInt64 n) = (.ok (), { q with offset := some n.toNat }) := by
  rw [setOffset, natural_ofUInt64 "OFFSET" h]

/-- The rows of a COUNT give its number, or there is an error or no number in the first row. -/
theorem bind_countOf_cases (result : Except QueryError (List Row)) :
    (∃ e, (result = .error e ∨ ∃ rows, result = .ok rows ∧
        rows.head?.bind (·.getInt64? "count") = none ∧
        e = .notFound "count field missing from COUNT result") ∧
      result.bind countOf = .error e) ∨
    ∃ rows total, result = .ok rows ∧ rows.head?.bind (·.getInt64? "count") = some total ∧
      result.bind countOf = .ok total := by
  cases result with
  | error e => exact .inl ⟨e, .inl rfl, rfl⟩
  | ok rows =>
    have hbind : (Except.ok rows).bind countOf = countOf rows := rfl
    rw [hbind, countOf]
    cases hnumber : rows.head?.bind (·.getInt64? "count") with
    | none => exact .inl ⟨_, .inr ⟨rows, rfl, hnumber, rfl⟩, rfl⟩
    | some total => exact .inr ⟨rows, total, rfl, hnumber, rfl⟩

section Ask

variable {σ : Type} [Executor σ] (q : Query) (conn : σ)

theorem count_cases :
    (∃ e, (q.mismatch? conn = some e ∨ q.rowSource = .error e) ∧
      q.count conn = (.error e, conn)) ∨
    ∃ source, q.rowSource = .ok source ∧
      let counted := Executor.fetchAll conn
        ("SELECT COUNT(*) AS count FROM " ++ source ++ q.filterText) q.registry
      q.count conn = (counted.1.bind countOf, counted.2) := by
  rw [count_eq_read]
  unfold read countText
  cases hdialect : q.mismatch? conn with
  | some e => exact .inl ⟨e, .inl rfl, rfl⟩
  | none =>
    cases hsource : q.rowSource with
    | error e => exact .inl ⟨e, .inr rfl, rfl⟩
    | ok source => exact .inr ⟨source, rfl, rfl⟩

theorem get_cases {source : String} (hsource : q.rowSource = .ok source) :
    (∃ e, q.mismatch? conn = some e ∧ q.get conn = (.error e, conn)) ∨
    q.get conn = Executor.fetchAll conn
      ("SELECT " ++ q.projectionText ++ " FROM " ++ source ++ q.tailText) q.registry := by
  rw [get_eq_read]
  unfold read selectText
  rw [hsource]
  cases hdialect : q.mismatch? conn with
  | some e => exact .inl ⟨e, rfl, rfl⟩
  | none => exact .inr rfl

end Ask

end Query

/-- Counting the rows for a page asks nothing, or one statement. -/
theorem PageRequest.count_narrow_cases {σ : Type} [Executor σ] (request : PageRequest)
    (columns : List Column) (q : Query) (conn : σ) :
    (∃ e, (q.mismatch? conn = some e ∨ q.rowSource = .error e) ∧
      (request.narrow columns q).count ({ conn } : Watched σ) = (.error e, ⟨conn, []⟩)) ∨
    ∃ source, q.rowSource = .ok source ∧
      let count := request.counting columns q source
      let counted := Executor.fetchAll conn count.text count.registry
      (request.narrow columns q).count ({ conn } : Watched σ) =
        (counted.1.bind Query.countOf, ⟨counted.2, [count]⟩) := by
  rcases (request.narrow columns q).count_cases ({ conn } : Watched σ) with
    hrefused | ⟨source, hsource, hcount⟩
  · exact .inl hrefused
  · rw [← request.text_counting columns q source] at hcount
    exact .inr ⟨source, hsource, hcount⟩

namespace Paging

variable {σ : Type}

theorem runOn_dispatch {α : Type} (run : Query → σ → Except QueryError α × σ) (q : Query)
    (conn : σ) : (dispatch run).runOn (q, conn) = ((run q conn).1, q, (run q conn).2) := rfl

theorem runOn_dispatch_map {α β : Type} (run : Query → σ → Except QueryError α × σ) (f : α → β)
    (q : Query) (conn : σ) :
    (dispatch run >>= fun a => pure (f a)).runOn (q, conn) =
      ((run q conn).1.map f, q, (run q conn).2) := by
  rw [runOn_bind, runOn_dispatch]
  rcases run q conn with ⟨_ | _, _⟩ <;> rfl

theorem runOn_sort (request : PageRequest) (columns : List Column) (q : Query) (conn : σ) :
    (∃ terms, request.terms columns = .ok terms ∧
      (sort columns request.sorting).runOn (q, conn) =
        (.ok (), { q with ordering := q.ordering ++ terms }, conn)) ∨
    ∃ e q', request.terms columns = .error e ∧
      (sort columns request.sorting).runOn (q, conn) = (.error e, q', conn) := by
  unfold sort PageRequest.terms
  rw [← PageRequest.sorted]
  generalize request.sorted columns = items
  induction items generalizing q with
  | nil => exact .inl ⟨[], rfl, by rw [List.append_nil]; rfl⟩
  | cons item items ih =>
    rw [List.forM, runOn_bind, runOn_shape, List.mapM_cons]
    cases hdirection : Direction.ofText item.2 with
    | error e =>
      have hcall : q.orderBy item.1 item.2 = (.error e, q) := by rw [Query.orderBy, hdirection]
      rw [hcall]
      exact .inr ⟨e, q, rfl, rfl⟩
    | ok direction =>
      have hcall : q.orderBy item.1 item.2 = (.ok (), { q with
          ordering := q.ordering ++ [⟨Identifier.escape item.1, direction⟩] }) := by
        rw [Query.orderBy, hdirection]
      rw [hcall]
      rcases ih { q with ordering := q.ordering ++ [⟨Identifier.escape item.1, direction⟩] } with
        ⟨terms, hterms, hrun⟩ | ⟨e, q', hterms, hrun⟩
      · refine .inl ⟨⟨Identifier.escape item.1, direction⟩ :: terms, ?_, ?_⟩
        · rw [hterms]
          rfl
        · simp only
          rw [hrun, List.append_assoc]
          rfl
      · refine .inr ⟨e, q', ?_, hrun⟩
        rw [hterms]
        rfl

/-- Page and ordering are set, unless a direction is not valid. -/
theorem runOn_page {α : Type} (request : PageRequest) (columns : List Column) (q : Query)
    (conn : σ) (rest : Paging σ α) :
    let run := Paging.runOn (do
      shape (·.setLimit (.ofUInt64 request.pageSize))
      shape (·.setOffset (.ofUInt64 request.offset))
      sort columns request.sorting
      rest) (q, conn)
    (∃ terms, request.terms columns = .ok terms ∧
      run = rest.runOn (request.paged q terms, conn)) ∨
    ∃ e q', request.terms columns = .error e ∧ run = (.error e, q', conn) := by
  intro run
  have hrun : run = Paging.runOn (sort columns request.sorting >>= fun _ => rest)
      ({ q with limit := some request.pageSize.toNat, offset := some request.offset.toNat },
        conn) := by
    change Paging.runOn (shape (·.setLimit (.ofUInt64 request.pageSize)) >>= _) (q, conn) = _
    rw [runOn_bind, runOn_shape, Query.setLimit_ofUInt64 q request.pageSize_le]
    simp only
    rw [runOn_bind, runOn_shape, Query.setOffset_ofUInt64 _ request.offset_le]
  rw [hrun, runOn_bind]
  rcases runOn_sort request columns { q with
    limit := some request.pageSize.toNat, offset := some request.offset.toNat } conn with
    ⟨terms, hterms, hsort⟩ | ⟨e, q', hterms, hsort⟩
  · rw [hsort]
    exact .inl ⟨terms, hterms, rfl⟩
  · rw [hsort]
    exact .inr ⟨e, q', hterms, rfl⟩

/-- Up to the count: an error with nothing asked, an error behind the COUNT, or it is finished. -/
theorem runOn_counted [Executor σ] (request : PageRequest) (columns : List Column) (q : Query)
    (conn : σ) :
    let run := (paginate request columns).runOn (q, ({ conn } : Watched σ))
    (∃ e, run.1 = .error e ∧ run.2.2 = ⟨conn, []⟩ ∧
      (q.mismatch? conn = some e ∨ q.rowSource = .error e)) ∨
    ∃ source, q.rowSource = .ok source ∧
      let count := request.counting columns q source
      let counted := Executor.fetchAll conn count.text count.registry
      let number (rows : List Row) := rows.head?.bind (·.getInt64? "count")
      (∃ e, (counted.1 = .error e ∨ ∃ rows, counted.1 = .ok rows ∧ number rows = none ∧
          e = .notFound "count field missing from COUNT result") ∧
        run.1 = .error e ∧ run.2.2 = ⟨counted.2, [count]⟩) ∨
      ∃ rows total, counted.1 = .ok rows ∧ number rows = some total ∧
        counted.1.bind Query.countOf = .ok total ∧
        run = (finish request columns total).runOn
          (request.narrow columns q, ⟨counted.2, [count]⟩) := by
  intro run
  have hrun : run = _ := runOn_paginate request columns q _
  rw [runOn_bind, runOn_dispatch] at hrun
  rcases request.count_narrow_cases columns q conn with
    ⟨e, hreason, hcount⟩ | ⟨source, hsource, hcount⟩
  · rw [hcount] at hrun
    rw [hrun]
    exact .inl ⟨e, rfl, rfl, hreason⟩
  refine .inr ⟨source, hsource, ?_⟩
  intro count counted number
  have hcounted : (request.narrow columns q).count ({ conn } : Watched σ) =
      (counted.1.bind Query.countOf, ⟨counted.2, [count]⟩) := hcount
  rw [hcounted] at hrun
  rcases Query.bind_countOf_cases counted.1 with
    ⟨e, hreason, htotal⟩ | ⟨rows, total, hrows, hnumber, htotal⟩
  · rw [htotal] at hrun
    rw [hrun]
    exact .inl ⟨e, hreason, rfl, rfl⟩
  · rw [htotal] at hrun
    exact .inr ⟨rows, total, hrows, hnumber, htotal, hrun⟩

/-- Behind the count, with a source: an error with nothing asked, or the SELECT of the page. -/
theorem runOn_finish [Executor σ] (request : PageRequest) (columns : List Column) (total : Int64)
    {q : Query} (conn : σ) {source : String} (hsource : q.rowSource = .ok source) :
    let run := (finish request columns total).runOn (q, conn)
    let noted := Executor.note conn (event request total)
    (∃ e, (request.terms columns = .error e ∨ q.mismatch? noted = some e) ∧
        run.1 = .error e ∧ run.2.2 = noted) ∨
      ∃ terms, request.terms columns = .ok terms ∧
        let fetched := Executor.fetchAll noted ("SELECT " ++ q.projectionText ++ " FROM " ++
          source ++ (request.paged q terms).tailText) q.registry
        run.1 = fetched.1.map (Page.mk ⟨request.pageNumber, total⟩ columns) ∧
        run.2.2 = fetched.2 := by
  intro run noted
  have hrun : run = Paging.runOn (do
      shape (·.setLimit (.ofUInt64 request.pageSize))
      shape (·.setOffset (.ofUInt64 request.offset))
      sort columns request.sorting
      let rows ← dispatch Query.get
      return ⟨⟨request.pageNumber, total⟩, columns, rows⟩) (q, noted) := by
    change (finish request columns total).runOn (q, conn) = _
    unfold finish
    rw [runOn_bind, runOn_dispatch]
  rw [hrun]
  rcases runOn_page request columns q noted
    (dispatch Query.get >>= fun rows =>
      pure (Page.mk ⟨request.pageNumber, total⟩ columns rows)) with
    ⟨terms, hterms, hpage⟩ | ⟨e, q', hterms, hpage⟩
  · rw [hpage, runOn_dispatch_map]
    rcases Query.get_cases (request.paged q terms) noted hsource with ⟨e, hdialect, hget⟩ | hget
    · rw [hget]
      exact .inl ⟨e, .inr hdialect, rfl, rfl⟩
    · rw [hget]
      exact .inr ⟨terms, hterms, rfl, rfl⟩
  · rw [hpage]
    exact .inl ⟨e, .inl hterms, rfl, rfl⟩

end Paging

end BoundQuery
