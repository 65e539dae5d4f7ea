import BoundQuery.QueryError
import BoundQuery.Text.Numeral
import BoundQuery.Toml.Reader

/-!
# Settings of a connection

What is needed to open a connection: a driver, a host and a port, a database, a user and a password.
Settings are given directly, as TOML, or by variables of an environment. The driver is only a name
until somebody asks for its dialect.
-/

namespace BoundQuery
set_option autoImplicit false

structure Settings where
  driver : String
  database : String
  host : String := "localhost"
  port : Option UInt16 := none
  user : String := ""
  password : String := ""
  deriving DecidableEq, Repr

namespace Dialect

def defaultPort : Dialect → UInt16
  | mysql => 3306
  | postgres => 5432

end Dialect

namespace Settings

def dialect (s : Settings) : Except QueryError Dialect := Dialect.ofName s.driver

def resolvedPort (s : Settings) : Except QueryError UInt16 :=
  match s.port with
  | some port => .ok port
  | none => s.dialect.map Dialect.defaultPort

def maxPort : Nat := 65535

/-! ## TOML -/

def keys : List String := ["driver", "host", "port", "database", "user", "username", "password"]

def required? (entries : Toml.Entries) (key : String) : Option String :=
  match entries.lookup key with
  | some (.string s) => some s
  | _ => none

def optional? (entries : Toml.Entries) (key default : String) : Option String :=
  match entries.lookup key with
  | none => some default
  | some (.string s) => some s
  | some _ => none

def port? (entries : Toml.Entries) : Option (Option UInt16) :=
  match entries.lookup "port" with
  | none => some none
  | some (.integer n) => if 0 ≤ n ∧ n ≤ maxPort then some (some (UInt16.ofNat n.toNat)) else none
  | some _ => none

/-- The user, who has two names of which only one may be used. -/
def user? (entries : Toml.Entries) : Option String :=
  match entries.lookup "user", entries.lookup "username" with
  | some _, some _ => none
  | none, _ => optional? entries "username" ""
  | _, none => optional? entries "user" ""

def ofEntries? (entries : Toml.Entries) : Option Settings :=
  if entries.all fun entry => keys.contains entry.1 then do
    let driver ← required? entries "driver"
    let host ← optional? entries "host" "localhost"
    let port ← port? entries
    let database ← required? entries "database"
    let user ← user? entries
    let password ← optional? entries "password" ""
    return { driver, database, host, port, user, password }
  else none

/-- The settings in a document: in its table `database` if it has one, and at its top level if not.
-/
def ofDocument? (entries : Toml.Entries) : Option Settings :=
  match entries.lookup "database" with
  | some (.table _ inner) => ofEntries? inner
  | _ => ofEntries? entries

def ofToml (text : String) : Except QueryError Settings :=
  match (Toml.ofText? text).bind ofDocument? with
  | some settings => .ok settings
  | none => .error (.config "malformed settings")

/-! ## Environment -/

/-- The value of a variable, unless it is blank. -/
def setting? (lookup : String → Option String) (name : String) : Option String :=
  (lookup name).filter (!Text.isBlankText ·)

def setting (lookup : String → Option String) (name : String) : Except QueryError String :=
  match setting? lookup name with
  | some value => .ok value
  | none => .error (.config (name ++ " is not set"))

def portSetting (lookup : String → Option String) (name : String) :
    Except QueryError (Option UInt16) :=
  match setting? lookup name with
  | none => .ok none
  | some raw =>
    match Text.readNatural maxPort (Text.trim raw) with
    | .ok n => .ok (some (UInt16.ofNat n))
    | .error e => .error (.config (name ++ " '" ++ raw ++ "': " ++ e.message))

/-- Reads settings from the variables of an environment; the port is looked at first. -/
def ofEnvironment (lookup : String → Option String) : Except QueryError Settings := do
  let port ← portSetting lookup "DB_PORT"
  let driver ← setting lookup "DB_DRIVER"
  let database ← setting lookup "DB_DATABASE"
  return {
    driver, database, port
    host := (setting? lookup "DB_HOST").getD "localhost"
    user := (lookup "DB_USERNAME").getD ""
    password := (lookup "DB_PASSWORD").getD "" }

end Settings

end BoundQuery
