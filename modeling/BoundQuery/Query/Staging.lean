import BoundQuery.Query.Statement

/-!
# Staging inserts and updates

Staging registers the values of an insert or an update and returns its text. The columns of an
insert are those of its first row; every other row must have the same columns, in any order, and
nothing is registered before all rows have been checked. An update needs a predicate. Without rows
or columns there is nothing to stage.
-/

namespace BoundQuery
set_option autoImplicit false

/-- The cells of a row to insert, or the assignments of an update. -/
abbrev Cells := List (String × Value)

namespace Cells

/-- Takes the first cell of a column out of a row; the last cell moves into its place. -/
def takeOut? (column : String) (cells : Cells) : Option (Value × Cells) :=
  match cells.findIdx? (·.1 == column), cells.getLast? with
  | some i, some last => cells[i]?.map fun cell => (cell.2, cells.dropLast.set i last)
  | _, _ => none

/-- The values of a row in the order of some columns. -/
def arrange (index : Nat) : List String → Cells → Except QueryError (List Value)
  | [], _ => .ok []
  | column :: columns, cells =>
    match cells.takeOut? column with
    | none => .error (.mismatchedRow index ("missing column '" ++ column ++ "'"))
    | some (value, rest) =>
      match arrange index columns rest with
      | .ok values => .ok (value :: values)
      | .error e => .error e

def arrangeRow (columns : List String) (index : Nat) (cells : Cells) :
    Except QueryError (List Value) :=
  if cells.length = columns.length then arrange index columns cells
  else .error (.mismatchedRow index
    ("expected " ++ columns.length.repr ++ " columns, got " ++ cells.length.repr))

/-- The values of rows, the first of which has the number `index`. -/
def arrangeAll (columns : List String) : Nat → List Cells → Except QueryError (List (List Value))
  | _, [] => .ok []
  | index, row :: rows =>
    match arrangeRow columns index row with
    | .error e => .error e
    | .ok values =>
      match arrangeAll columns (index + 1) rows with
      | .ok all => .ok (values :: all)
      | .error e => .error e

end Cells

namespace Registry

/-- Registers the values of rows, row by row; the keys come in the same shape. -/
def pushRows (r : Registry) (columns : List String) :
    List (List Value) → List (List String) × Registry
  | [] => ([], r)
  | values :: rows =>
    let (keys, r) := r.pushAll (columns.zip values)
    let (groups, r) := r.pushRows columns rows
    (keys :: groups, r)

end Registry

namespace Query

def placeholderList (keys : List String) : String :=
  String.intercalate ", " (keys.map (":" ++ ·))

def insertText (table : String) (columns : List String) (groups : List (List String)) : String :=
  "INSERT INTO " ++ table ++ " (" ++ String.intercalate ", " (columns.map Identifier.escape)
    ++ ") VALUES "
    ++ String.intercalate ", " (groups.map fun keys => "(" ++ placeholderList keys ++ ")")

def stageInsert (q : Query) (rows : List Cells) : Attempt (Option String) :=
  match rows with
  | [] => (.ok none, q)
  | first :: _ =>
    match q.target with
    | .error e => (.error e, q)
    | .ok table =>
      let columns := first.map (·.1)
      if columns = [] then (.error (.mismatchedRow 0 "row has no columns"), q)
      else match Cells.arrangeAll columns 0 rows with
        | .error e => (.error e, q)
        | .ok values =>
          let (groups, r) := q.registry.pushRows columns values
          (.ok (some (insertText table columns groups)), { q with registry := r })

def assignmentText (column key : String) : String := Identifier.escape column ++ " = :" ++ key

def stageUpdate (q : Query) (cells : Cells) : Attempt (Option String) :=
  match cells with
  | [] => (.ok none, q)
  | _ =>
    match q.target with
    | .error e => (.error e, q)
    | .ok table =>
      if q.clauses = [] then (.error (.missingWhere table), q)
      else
        let (keys, r) := q.registry.pushAll cells
        let assignments := (cells.zip keys).map fun (cell, key) => assignmentText cell.1 key
        let text :=
          "UPDATE " ++ table ++ " SET " ++ String.intercalate ", " assignments ++ q.tailText
        (.ok (some text), { q with registry := r })

end Query

end BoundQuery
