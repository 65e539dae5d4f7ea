import BoundQuery.Dialect

/-!
# Errors

Everything that can go wrong between building a query and reading its result, one constructor for
each cause, and the wording of each.
-/

namespace BoundQuery
set_option autoImplicit false

/-- What is wrong with the payload of a column. -/
inductive DecodeFault where
  | malformed
  | stated (reason : String)
  deriving DecidableEq, Repr

namespace DecodeFault

def message : DecodeFault → String
  | malformed => "malformed value"
  | stated reason => reason

end DecodeFault

inductive QueryError where
  | unsupportedDriver (driver : String)
  | connection (reason : String)
  | unsupportedOperator (operator dialect : String)
  | unsupportedDirection (direction : String)
  | invalidPaging (clause value : String)
  /-- A query of one dialect was run on a connection of the other. -/
  | dialectMismatch (query connection : Dialect)
  | missingTable
  | missingWhere (table : String)
  | unboundPlaceholder (key : String)
  /-- A value does not fit its operator. -/
  | invalidValue (column reason : String)
  | mismatchedRow (index : Nat) (reason : String)
  /-- The server refused a statement, or the connection is lost. -/
  | server (dialect : Dialect)
  | decode (column : String) (fault : DecodeFault)
  | config (reason : String)
  /-- A result lacks what was asked for. -/
  | notFound (what : String)
  deriving DecidableEq, Repr

namespace QueryError

def message : QueryError → String
  | unsupportedDriver driver => "Driver " ++ driver ++ " not supported"
  | connection reason => "Connection failed: " ++ reason
  | unsupportedOperator operator dialect =>
    "Operator " ++ operator ++ " not supported for " ++ dialect
  | unsupportedDirection direction => "Direction " ++ direction ++ " not supported"
  | invalidPaging clause value =>
    clause ++ " must be a non-negative integer, got '" ++ value ++ "'"
  | dialectMismatch own other =>
    "Builder for " ++ own.name ++ " cannot run on a " ++ other.name ++ " connection"
  | missingTable => "Table not yet defined"
  | missingWhere table => "Where clause is not defined for UPDATE on '" ++ table ++ "'"
  | unboundPlaceholder key => "No value bound for placeholder ':" ++ key ++ "'"
  | invalidValue column reason => "Invalid value for column '" ++ column ++ "': " ++ reason
  | mismatchedRow index reason =>
    "Insert row " ++ index.repr ++ " does not match the first row: " ++ reason
  | server .postgres => "Postgres error"
  | server .mysql => "MySQL error"
  | decode column fault => "Decode error on column '" ++ column ++ "': " ++ fault.message
  | config reason => "Configuration error: " ++ reason
  | notFound what => "Not found: " ++ what

def isUnsupportedOperator : QueryError → Bool
  | unsupportedOperator .. => true
  | _ => false

def isUnsupportedDirection : QueryError → Bool
  | unsupportedDirection .. => true
  | _ => false

def isInvalidPaging : QueryError → Bool
  | invalidPaging .. => true
  | _ => false

def isDialectMismatch : QueryError → Bool
  | dialectMismatch .. => true
  | _ => false

def isMissingWhere : QueryError → Bool
  | missingWhere .. => true
  | _ => false

end QueryError

def Dialect.ofName (s : String) : Except QueryError Dialect :=
  match ofName? s with
  | some d => .ok d
  | none => .error (.unsupportedDriver s)

end BoundQuery
