import BoundQuery.QueryError

/-!
# Operators and directions

Only the operators listed here can stand between two operands, and only the two directions behind an
ordering term. A spelling is accepted in any letter case and with any blanks around and between its
words; what goes into a statement is the canonical keyword.
-/

namespace BoundQuery
set_option autoImplicit false

inductive Operator where
  | less
  | lessEqual
  | notLess
  | greater
  | greaterEqual
  | notGreater
  | unequal
  | bangEqual
  | equal
  | between
  | existence
  | disjunction
  | conjunction
  | negation
  | membership
  | allOf
  | anyOf
  | like
  | isNull
  | unique
  | ilike
  deriving DecidableEq, Repr

namespace Operator

def keyword : Operator → String
  | less => "<"
  | lessEqual => "<="
  | notLess => "!<"
  | greater => ">"
  | greaterEqual => ">="
  | notGreater => "!>"
  | unequal => "<>"
  | bangEqual => "!="
  | equal => "="
  | between => "BETWEEN"
  | existence => "EXISTS"
  | disjunction => "OR"
  | conjunction => "AND"
  | negation => "NOT"
  | membership => "IN"
  | allOf => "ALL"
  | anyOf => "ANY"
  | like => "LIKE"
  | isNull => "IS NULL"
  | unique => "UNIQUE"
  | ilike => "ILIKE"

/-- The operators of every dialect, in their customary order. -/
def base : List Operator :=
  [less, lessEqual, notLess, greater, greaterEqual, notGreater, unequal, bangEqual, equal, between,
   existence, disjunction, conjunction, negation, membership, allOf, anyOf, like, isNull, unique]

end Operator

namespace Dialect

def ownOperators : Dialect → List Operator
  | postgres => [.ilike]
  | mysql => []

def operators (d : Dialect) : List Operator := Operator.base ++ d.ownOperators

end Dialect

namespace Operator

/-- A spelling in upper case with single spaces between its words. -/
def normalize (s : String) : String :=
  Text.upper (.ofList ([' '].intercalate (Text.words s.toList)))

def ofText (d : Dialect) (s : String) : Except QueryError Operator :=
  match d.operators.find? (·.keyword == normalize s) with
  | some operator => .ok operator
  | none => .error (.unsupportedOperator s d.name)

end Operator

inductive Direction where
  | ascending
  | descending
  deriving DecidableEq, Repr

namespace Direction

def keyword : Direction → String
  | ascending => "ASC"
  | descending => "DESC"

def ofText (s : String) : Except QueryError Direction :=
  match [ascending, descending].find? (·.keyword == Text.upper (Text.trim s)) with
  | some direction => .ok direction
  | none => .error (.unsupportedDirection s)

end Direction

end BoundQuery
