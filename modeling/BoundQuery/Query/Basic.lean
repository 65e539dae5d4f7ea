import BoundQuery.Clause
import BoundQuery.Registry

/-!
# Queries under construction

A query collects a target, a projection, joins, predicates, an ordering and a page, together with
the values it has registered. The calls that shape it return what they answer and the query after
them; a call that is refused leaves the query as it was. An operator, a direction or the number of a
page is checked before anything is recorded.
-/

namespace BoundQuery
set_option autoImplicit false

/-- A query of one dialect. All names in it are in their escaped form. -/
structure Query where
  dialect : Dialect
  table : Option String := none
  /-- What rows are selected from, in place of the table. -/
  source : Option String := none
  projection : List String := []
  joins : List Join := []
  clauses : List Clause := []
  ordering : List OrderTerm := []
  limit : Option Nat := none
  offset : Option Nat := none
  registry : Registry := {}
  deriving Repr

/-- What a call answers, and the query after it. -/
abbrev Attempt (α : Type) := Except QueryError α × Query

namespace Query

def setTable (q : Query) (name : String) : Query :=
  { q with table := some (Identifier.escape name) }

def setSource (q : Query) (name : String) : Query :=
  { q with source := some (Identifier.escape name) }

def onTable (d : Dialect) (name : String) : Query := setTable { dialect := d } name

/-- Replaces the projection; an empty one stands for all columns. -/
def project (q : Query) (columns : List String) : Query :=
  { q with projection := columns.map Identifier.escape }

def join (q : Query) (kind : JoinKind) (table localKey operator foreignKey : String) :
    Attempt Unit :=
  match Operator.ofText q.dialect operator with
  | .error e => (.error e, q)
  | .ok op =>
    let added : Join :=
      ⟨kind, Identifier.escape table, Identifier.escape localKey, op, Identifier.escape foreignKey⟩
    (.ok (), { q with joins := q.joins ++ [added] })

/--
Registers the values of a predicate and returns its operand: none for `IS NULL`, two for `BETWEEN`,
one for each element of a list, and one for anything else.
-/
def bindOperand (r : Registry) (column : String) :
    Operator → Value → Except QueryError Operand × Registry
  | .isNull, _ => (.ok .none, r)
  | .between, .list [low, high] =>
    let (lowKey, r) := r.push column low
    let (highKey, r) := r.push column high
    (.ok (.range lowKey highKey), r)
  | .between, _ =>
    (.error (.invalidValue column "BETWEEN expects a list of exactly two values"), r)
  | _, .list items =>
    let (keys, r) := r.pushAll (items.map fun item => (column, item))
    (.ok (.list keys), r)
  | _, value =>
    let (key, r) := r.push column value
    (.ok (.key key), r)

def restrict (q : Query) (column operator : String) (value : Value) (connector : Connector) :
    Attempt Unit :=
  match Operator.ofText q.dialect operator with
  | .error e => (.error e, q)
  | .ok op =>
    let column := Identifier.escape column
    match bindOperand q.registry column op value with
    | (.error e, r) => (.error e, { q with registry := r })
    | (.ok operand, r) =>
      (.ok (), { q with registry := r, clauses := q.clauses ++ [⟨column, op, operand, connector⟩] })

def orderBy (q : Query) (column direction : String) : Attempt Unit :=
  match Direction.ofText direction with
  | .error e => (.error e, q)
  | .ok d => (.ok (), { q with ordering := q.ordering ++ [⟨Identifier.escape column, d⟩] })

def natural (clause : String) (value : Value) : Except QueryError Nat :=
  match value.toInteger? with
  | some n =>
    if 0 ≤ n.toInt then .ok n.toInt.toNat else .error (.invalidPaging clause value.display)
  | none => .error (.invalidPaging clause value.display)

def setLimit (q : Query) (value : Value) : Attempt Unit :=
  match natural "LIMIT" value with
  | .error e => (.error e, q)
  | .ok n => (.ok (), { q with limit := some n })

def setOffset (q : Query) (value : Value) : Attempt Unit :=
  match natural "OFFSET" value with
  | .error e => (.error e, q)
  | .ok n => (.ok (), { q with offset := some n })

/-- Where a SELECT takes its rows from: the other source if there is one, else the table. -/
def rowSource (q : Query) : Except QueryError String :=
  match q.source <|> q.table with
  | some name => if name = "" then .error .missingTable else .ok name
  | none => .error .missingTable

/-- What is written to: the table if there is one, else the other source. -/
def target (q : Query) : Except QueryError String :=
  match q.table <|> q.source with
  | some name => if name = "" then .error .missingTable else .ok name
  | none => .error .missingTable

end Query

end BoundQuery
