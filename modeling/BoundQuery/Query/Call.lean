import BoundQuery.Query.Staging

/-!
# Calls as data

A call is one step that shapes a query or stages a statement. `Call.run` is what it does, and
`runAll` what a sequence of calls does, refused ones included.
-/

namespace BoundQuery
set_option autoImplicit false

inductive Call where
  | setTable (name : String)
  | setSource (name : String)
  | project (columns : List String)
  | join (kind : JoinKind) (table localKey operator foreignKey : String)
  | restrict (column operator : String) (value : Value) (connector : Connector)
  | orderBy (column direction : String)
  | setLimit (value : Value)
  | setOffset (value : Value)
  | stageInsert (rows : List Cells)
  | stageUpdate (cells : Cells)
  deriving Repr

/-- What an accepted call answers. -/
inductive Reply where
  | done
  | staged (text : Option String)
  deriving DecidableEq, Repr

namespace Call

def restrictIn (column : String) (value : Value) (connector : Connector) : Call :=
  .restrict column "IN" value connector

/-- An attempt whose answer is replaced by a reply. -/
def answer {α : Type} (f : α → Reply) (a : Attempt α) : Attempt Reply := (a.1.map f, a.2)

def run : Call → Query → Attempt Reply
  | .setTable name, q => (.ok .done, q.setTable name)
  | .setSource name, q => (.ok .done, q.setSource name)
  | .project columns, q => (.ok .done, q.project columns)
  | .join kind table localKey operator foreignKey, q =>
    answer (fun _ => .done) (q.join kind table localKey operator foreignKey)
  | .restrict column operator value connector, q =>
    answer (fun _ => .done) (q.restrict column operator value connector)
  | .orderBy column direction, q => answer (fun _ => .done) (q.orderBy column direction)
  | .setLimit value, q => answer (fun _ => .done) (q.setLimit value)
  | .setOffset value, q => answer (fun _ => .done) (q.setOffset value)
  | .stageInsert rows, q => answer .staged (q.stageInsert rows)
  | .stageUpdate cells, q => answer .staged (q.stageUpdate cells)

/-- What a sequence of calls answers, and the query after it. -/
def runAll : List Call → Query → List (Except QueryError Reply) × Query
  | [], q => ([], q)
  | call :: calls, q =>
    let (outcome, q) := call.run q
    let (outcomes, q) := runAll calls q
    (outcome :: outcomes, q)

end Call

end BoundQuery
