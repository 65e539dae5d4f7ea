import BoundQuery.Bytes

/-!
# Types of PostgreSQL

The types of parameters and columns. Those that a value can be bound to, or that a column can be
read from, have constructors; all others are known by schema and name. Text is sent in the same form
to every type that takes it, except that the types of label trees put a version in front.
-/

namespace BoundQuery.Postgres
set_option autoImplicit false

inductive SqlType where
  | bool
  | int2
  | int4
  | int8
  | oid
  | float4
  | float8
  | numeric
  | text
  | varchar
  | bpchar
  | name
  | unknown
  | json
  | jsonb
  | uuid
  | bytea
  | date
  | time
  | timestamp
  | timestamptz
  /-- A type of some other schema, or one that nothing special is done for. -/
  | other (schema label : String)
  deriving DecidableEq, Repr

/-- How text is sent to a type that takes it. -/
inductive TextForm where
  | plain
  | versioned
  deriving DecidableEq, Repr

namespace SqlType

def catalog : List (String × SqlType) :=
  [("bool", bool), ("int2", int2), ("int4", int4), ("int8", int8), ("oid", oid), ("float4", float4),
   ("float8", float8), ("numeric", numeric), ("text", text), ("varchar", varchar),
   ("bpchar", bpchar), ("name", name), ("unknown", unknown), ("json", json), ("jsonb", jsonb),
   ("uuid", uuid), ("bytea", bytea), ("date", date), ("time", time), ("timestamp", timestamp),
   ("timestamptz", timestamptz)]

def publicSchema : String := "public"

/-- The schemas that go without saying. -/
def silentSchemas : List String := [publicSchema, "pg_catalog"]

/-- The type with a name, which a schema and a point may stand in front of. -/
def ofName (s : String) : SqlType :=
  let schema := s.toList.takeWhile (· != '.')
  match s.toList.drop schema.length with
  | _ :: rest => .other (.ofList schema) (.ofList rest)
  | [] => (catalog.lookup s).getD (.other publicSchema s)

def render : SqlType → String
  | .other schema label => if silentSchemas.contains schema then label else schema ++ "." ++ label
  | t => ((catalog.find? (·.2 == t)).map (·.1)).getD ""

def textForm? : SqlType → Option TextForm
  | .text | .varchar | .bpchar | .name | .unknown => some .plain
  | .other _ label =>
    if label = "citext" then some .plain
    else if ["ltree", "lquery", "ltxtquery"].contains label then some .versioned
    else none
  | _ => none

end SqlType

namespace TextForm

def version : UInt8 := 1

def encode (form : TextForm) (s : String) : Bytes :=
  match form with
  | plain => Bytes.ofText s
  | versioned => version :: Bytes.ofText s

def decode? (form : TextForm) (bytes : Bytes) : Option String :=
  match form, bytes with
  | plain, _ => Bytes.toText? bytes
  | versioned, mark :: rest => if mark = version then Bytes.toText? rest else none
  | versioned, [] => none

end TextForm

end BoundQuery.Postgres
