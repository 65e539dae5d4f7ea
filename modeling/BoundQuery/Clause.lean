import BoundQuery.Operator

/-!
# Predicates of a query

A clause is one predicate: a column, an operator, the placeholders it compares with, and the
connector to the clause before it. In the text of a WHERE body the connector of the first clause
does not appear.
-/

namespace BoundQuery
set_option autoImplicit false

/-- How a clause is joined to the one before it. -/
inductive Connector where
  | and
  | or
  deriving DecidableEq, Repr

def Connector.keyword : Connector → String
  | .and => "AND"
  | .or => "OR"

/-- The right-hand side of a predicate, as placeholder keys. -/
inductive Operand where
  | none
  | key (name : String)
  | list (names : List String)
  | range (low high : String)
  deriving DecidableEq, Repr

namespace Operand

def keys : Operand → List String
  | none => []
  | key name => [name]
  | list names => names
  | range low high => [low, high]

end Operand

structure Clause where
  column : String
  operator : Operator
  operand : Operand
  connector : Connector
  deriving DecidableEq, Repr

namespace Clause

/-- The right-hand side of a predicate; a list without elements has no value at all. -/
def operandText : Operand → String
  | .none => ""
  | .key name => " :" ++ name
  | .list [] => " (NULL)"
  | .list names => " (" ++ String.intercalate ", " (names.map (":" ++ ·)) ++ ")"
  | .range low high => " :" ++ low ++ " AND :" ++ high

def render (c : Clause) : String := c.column ++ " " ++ c.operator.keyword ++ operandText c.operand

def renderRest : List Clause → String
  | [] => ""
  | c :: rest => " " ++ c.connector.keyword ++ " " ++ c.render ++ renderRest rest

def renderAll : List Clause → String
  | [] => ""
  | c :: rest => c.render ++ renderRest rest

end Clause

inductive JoinKind where
  | inner
  | left
  | right
  | full
  deriving DecidableEq, Repr

def JoinKind.keyword : JoinKind → String
  | .inner => "INNER"
  | .left => "LEFT"
  | .right => "RIGHT"
  | .full => "FULL"

structure Join where
  kind : JoinKind
  table : String
  localKey : String
  operator : Operator
  foreignKey : String
  deriving DecidableEq, Repr

def Join.render (j : Join) : String :=
  j.kind.keyword ++ " JOIN " ++ j.table ++ " ON " ++ j.localKey ++ " " ++ j.operator.keyword ++ " "
    ++ j.foreignKey

structure OrderTerm where
  column : String
  direction : Direction
  deriving DecidableEq, Repr

def OrderTerm.render (t : OrderTerm) : String := t.column ++ " " ++ t.direction.keyword

end BoundQuery
