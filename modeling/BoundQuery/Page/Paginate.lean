import BoundQuery.Executor
import BoundQuery.Page.Column
import BoundQuery.Page.Request

/-!
# Answering a page request

A search term becomes one `OR` predicate for each searchable column, a filter on a filterable column
an `AND` predicate; then the rows are counted; then page and ordering are set and the rows are
fetched. So the count covers all pages, and the two statements have the same joins and predicates.
-/

namespace BoundQuery
set_option autoImplicit false

structure PageHeaders where
  page : UInt64
  total : Int64
  deriving DecidableEq, Repr

namespace PageHeaders

def pageName : String := "x-data-page"

def totalName : String := "x-data-total"

def exposeName : String := "Access-Control-Expose-Headers"

def pairs (h : PageHeaders) : List (String × String) :=
  [(pageName, Text.naturalText h.page.toNat), (totalName, Text.int64Text h.total),
   (exposeName, totalName ++ ", " ++ pageName)]

end PageHeaders

structure Page where
  headers : PageHeaders
  columns : List Column
  rows : List Row
  deriving Repr

/-- The columns as they were given, and the rows. -/
def Page.body (p : Page) : Json :=
  .object [("columns", .array (p.columns.map Column.toJson)),
    ("data", .array (p.rows.map fun row => .object row.fields))]

/-- A run that changes a query and an executor, and keeps what it has changed if it fails. -/
abbrev Paging (σ : Type) := ExceptT QueryError (StateM (Query × σ))

namespace Paging

variable {σ : Type}

def shape {α : Type} (call : Query → Attempt α) : Paging σ α :=
  ExceptT.mk fun (q, conn) =>
    let (outcome, q) := call q
    (outcome, (q, conn))

def dispatch {α : Type} (run : Query → σ → Except QueryError α × σ) : Paging σ α :=
  ExceptT.mk fun (q, conn) =>
    let (outcome, conn) := run q conn
    (outcome, (q, conn))

def containing (term : String) : Value := .text ("%" ++ term ++ "%")

def filterTerm : Json → String
  | .string s => s
  | .null => ""
  | value => value.render

def search (columns : List Column) : Option String → Paging σ Unit
  | none | some "" => pure ()
  | some term =>
    (columns.filter (·.searchable)).forM fun column =>
      shape (·.restrict column.key "LIKE" (containing term) .or)

def filter (columns : List Column) (filters : List (String × Json)) : Paging σ Unit :=
  (filters.filter fun f => Column.isAllowed columns f.1 (·.filterable)).forM fun (key, value) =>
    shape (·.restrict key "LIKE" (containing (filterTerm value)) .and)

def sort (columns : List Column) (sorting : List (String × String)) : Paging σ Unit :=
  (sorting.filter fun s => Column.isAllowed columns s.1 (·.sortable)).forM fun (key, direction) =>
    shape (·.orderBy key direction)

def event (request : PageRequest) (total : Int64) : Event :=
  ⟨"DEBUG", "fluentdb.pagination", "paginating",
    [("page", Text.naturalText request.pageNumber.toNat),
     ("limit", Text.naturalText request.pageSize.toNat), ("total", Text.int64Text total)]⟩

end Paging

def paginate {σ : Type} [Executor σ] (request : PageRequest) (columns : List Column) :
    Paging σ Page := do
  Paging.search columns request.search
  Paging.filter columns request.filters
  let total ← Paging.dispatch Query.count
  Paging.dispatch fun _ conn => (.ok (), Executor.note conn (Paging.event request total))
  Paging.shape (·.setLimit (.ofUInt64 request.pageSize))
  Paging.shape (·.setOffset (.ofUInt64 request.offset))
  Paging.sort columns request.sorting
  let rows ← Paging.dispatch Query.get
  return ⟨⟨request.pageNumber, total⟩, columns, rows⟩

end BoundQuery
