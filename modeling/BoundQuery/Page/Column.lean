import BoundQuery.Json.Parts
import BoundQuery.Json.Printer

/-!
# Columns of a page

What a page request may do with a column: search it, filter by it, sort by it. The caller decides; a
request that asks for more is not refused, it is passed over.
-/

namespace BoundQuery
set_option autoImplicit false

structure Column where
  key : String
  searchable : Bool := false
  filterable : Bool := false
  sortable : Bool := false
  deriving DecidableEq, Repr

namespace Column

def toJson (c : Column) : Json :=
  .object [("key", .string c.key), ("searchable", .bool c.searchable),
    ("filterable", .bool c.filterable), ("sortable", .bool c.sortable)]

/-- A permission, which is refused if it is left out. -/
def flag? : Option Document → Option Bool
  | none => some false
  | some document => document.bool?

/-- Reads a column; only the key is required. -/
def ofDocument? (document : Document) : Option Column :=
  match document.parts? ["key", "searchable", "filterable", "sortable"] with
  | some [some key, searchable, filterable, sortable] =>
    match key.string?, flag? searchable, flag? filterable, flag? sortable with
    | some key, some searchable, some filterable, some sortable =>
      some ⟨key, searchable, filterable, sortable⟩
    | _, _, _, _ => none
  | _ => none

def listOfText? (s : String) : Option (List Column) :=
  match Document.ofText? s with
  | some (.array items) => items.mapM ofDocument?
  | _ => none

def isAllowed (columns : List Column) (key : String) (permission : Column → Bool) : Bool :=
  columns.any fun c => c.key == key && permission c

end Column

end BoundQuery
