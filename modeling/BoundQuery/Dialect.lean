import BoundQuery.Text.Blank

/-!
# SQL dialects

The dialect of a connection decides which operators a query may use and how its placeholders are
written: by position for MySQL, by number for PostgreSQL.
-/

namespace BoundQuery
set_option autoImplicit false

inductive Dialect where
  | mysql
  | postgres
  deriving DecidableEq, Repr

namespace Dialect

def name : Dialect → String
  | mysql => "mysql"
  | postgres => "postgres"

def aliases : Dialect → List String
  | mysql => ["mysql"]
  | postgres => ["postgres", "postgresql", "pgsql"]

/-- The dialect that a name stands for, in any letter case and between blanks. -/
def ofName? (s : String) : Option Dialect :=
  let name := Text.lower (Text.trim s)
  [mysql, postgres].find? fun d => d.aliases.contains name

/-- The parameter with a number counted from one, as the dialect writes it. -/
def parameter (d : Dialect) (number : Nat) : String :=
  match d with
  | mysql => "?"
  | postgres => "$" ++ number.repr

end Dialect

end BoundQuery
