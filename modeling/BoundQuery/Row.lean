import BoundQuery.Json.Printer
import BoundQuery.Text.Numeral

/-!
# Result rows

A row holds the columns of a result in the order of the query, a repeated name as often as it
occurs.
-/

namespace BoundQuery
set_option autoImplicit false

structure Row where
  fields : List (String × Json) := []
  deriving Repr

namespace Row

def push (row : Row) (column : String) (value : Json) : Row :=
  ⟨row.fields ++ [(column, value)]⟩

/-- The value of the first column with a name. -/
def get? (row : Row) (column : String) : Option Json := row.fields.lookup column

/-- The integer in a column: a number, or the numeral that a text is. -/
def getInt64? (row : Row) (column : String) : Option Int64 :=
  match row.get? column with
  | some (.string s) => (Text.readInt64 s).toOption
  | some value => value.toInt64?
  | none => none

def columns (row : Row) : List String := row.fields.map (·.1)

def size (row : Row) : Nat := row.fields.length

def isEmpty (row : Row) : Bool := row.fields.isEmpty

def render (row : Row) : String := (Json.object row.fields).render

end Row

end BoundQuery
