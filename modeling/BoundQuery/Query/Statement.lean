import BoundQuery.Query.Basic

/-!
# Statements of a query

The texts of SELECT, COUNT and DELETE. A SELECT and a DELETE carry joins, predicates, ordering and
page; a COUNT leaves ordering and page out, so that it covers every row. Nothing in them depends on
the dialect: placeholders are named.
-/

namespace BoundQuery.Query
set_option autoImplicit false

def joinText (q : Query) : String := String.join (q.joins.map fun j => " " ++ j.render)

def whereText (q : Query) : String :=
  match q.clauses with
  | [] => ""
  | clauses => " WHERE " ++ Clause.renderAll clauses

def orderText (q : Query) : String :=
  match q.ordering with
  | [] => ""
  | terms => " ORDER BY " ++ String.intercalate ", " (terms.map OrderTerm.render)

def numberText (keyword : String) : Option Nat → String
  | none => ""
  | some n => " " ++ keyword ++ " " ++ Text.naturalText n

def pageText (q : Query) : String := numberText "LIMIT" q.limit ++ numberText "OFFSET" q.offset

def filterText (q : Query) : String := q.joinText ++ q.whereText

def tailText (q : Query) : String := q.filterText ++ q.orderText ++ q.pageText

def projectionText (q : Query) : String :=
  match q.projection with
  | [] => "*"
  | columns => String.intercalate ", " columns

def selectText (q : Query) : Except QueryError String :=
  match q.rowSource with
  | .ok name => .ok ("SELECT " ++ q.projectionText ++ " FROM " ++ name ++ q.tailText)
  | .error e => .error e

def countText (q : Query) : Except QueryError String :=
  match q.rowSource with
  | .ok name => .ok ("SELECT COUNT(*) AS count FROM " ++ name ++ q.filterText)
  | .error e => .error e

/-- The DELETE of a query; without predicates it takes every row. -/
def deleteText (q : Query) : Except QueryError String :=
  match q.target with
  | .ok name => .ok ("DELETE FROM " ++ name ++ q.tailText)
  | .error e => .error e

end BoundQuery.Query
