import BoundQuery.Connection.Settings
import BoundQuery.Executor
import BoundQuery.Mysql.Decode
import BoundQuery.Mysql.Encode
import BoundQuery.Postgres.Decode
import BoundQuery.Postgres.Encode
import BoundQuery.Text.Cut

/-!
# Sessions with a server

A session is one open connection. What the server will answer is given as a queue, and everything
that it receives is kept, so that a session is a function of the two. A statement is bound before it
is sent. PostgreSQL prepares it first and then names the types of its parameters, and takes no text
with the character zero in it. MySQL gets text and values together, once it has accepted the text,
and remembers the texts used last. A lost connection fails every later statement, and nothing more
is sent on it.
-/

namespace BoundQuery
set_option autoImplicit false

inductive ServerFailure where
  | prepare
  | execute
  | disconnect
  deriving DecidableEq, Repr

structure ServerReply where
  /-- The names of the types of the parameters, as far as they are not text. -/
  parameters : List String := []
  columns : List (String × String) := []
  rows : List (List (Option Bytes)) := []
  affected : Nat := 0
  failure : Option ServerFailure := none
  deriving Repr

inductive Message where
  | simple (text : String)
  | prepare (text : String)
  | execute (parameters : List (Option Bytes))
  | statement (text : String) (arguments : List Mysql.Argument)
  deriving DecidableEq, Repr

structure Session where
  dialect : Dialect
  replies : List ServerReply := []
  received : List Message := []
  log : List Event := []
  /-- The texts that MySQL has accepted and remembers, the one used last in front. -/
  prepared : List String := []
  isClosed : Bool := false
  deriving Repr

namespace Transaction

def statement (d : Dialect) : Transaction → String
  | begin =>
    match d with
    | .mysql => "START TRANSACTION"
    | .postgres => "BEGIN"
  | commit => "COMMIT"
  | rollback => "ROLLBACK"

end Transaction

namespace Session

def connectionTarget : String := "fluentdb.connection"

def statementTarget : String := "fluentdb.sql"

def maxLoggedText : Nat := 200

def connectEvent (settings : Settings) (d : Dialect) (port : UInt16) : Event :=
  ⟨"INFO", connectionTarget, "connecting",
    [("dialect", d.name), ("host", settings.host), ("port", Text.naturalText port.toNat),
     ("database", settings.database)]⟩

def dispatchEvent (d : Dialect) (text : String) (registry : Registry) : Event :=
  ⟨"DEBUG", statementTarget, "dispatch",
    [("dialect", d.name), ("sql", Text.cut maxLoggedText text),
     ("param_count", Text.naturalText registry.size)]⟩

def transactionEvent (text : String) : Event :=
  ⟨"DEBUG", connectionTarget, "transaction", [("statement", text)]⟩

def lossEvent : Event := ⟨"ERROR", connectionTarget, "postgres connection closed with error", []⟩

/--
Opens a connection, which the server may refuse, and returns the log with it. The driver is checked
before anything else.
-/
def connect (settings : Settings) (refusal : Option String) :
    Except QueryError Session × List Event :=
  match settings.dialect, settings.resolvedPort with
  | .error e, _ => (.error e, [])
  | _, .error e => (.error e, [])
  | .ok d, .ok port =>
    let log := [connectEvent settings d port]
    match refusal with
    | some reason => (.error (.connection reason), log)
    | none => (.ok { dialect := d }, log)

def write (s : Session) (event : Event) : Session := { s with log := s.log ++ [event] }

def send (s : Session) (message : Message) : Session :=
  { s with received := s.received ++ [message] }

def takeReply (s : Session) : ServerReply × Session :=
  (s.replies.headD {}, { s with replies := s.replies.tail })

def refused {α : Type} (s : Session) : Except QueryError α := .error (.server s.dialect)

def afterFailure (s : Session) : ServerFailure → Session
  | .disconnect =>
    let closed := { s with isClosed := true }
    match s.dialect with
    | .postgres => closed.write lossEvent
    | .mysql => closed
  | _ => s

def conclude (s : Session) (reply : ServerReply) : Except QueryError ServerReply × Session :=
  match reply.failure with
  | none => (.ok reply, s)
  | some failure => (s.refused, s.afterFailure failure)

def runPrepared (s : Session) (bound : BoundStatement) : Except QueryError ServerReply × Session :=
  if s.isClosed ∨ bound.sql.toList.contains '\x00' then (s.refused, s)
  else
    let (reply, s) := s.takeReply
    let s := s.send (.prepare bound.sql)
    match reply.failure with
    | some .prepare => (s.refused, s)
    | some .disconnect => (s.refused, s.afterFailure .disconnect)
    | _ =>
      match Postgres.encodeAll (reply.parameters.map Postgres.SqlType.ofName) bound.values with
      | .error _ => (s.refused, s)
      | .ok parameters => (s.send (.execute parameters)).conclude reply

def maxPrepared : Nat := 100

/-- Remembers a statement as the one used last; too many make forget the one not used longest. -/
def remember (s : Session) (text : String) : Session :=
  { s with prepared := (text :: s.prepared.filter (· != text)).take maxPrepared }

/-- Sends a statement with its values. A text that is remembered is not looked at again. -/
def runTogether (s : Session) (bound : BoundStatement) : Except QueryError ServerReply × Session :=
  match bound.values.mapM Mysql.Argument.ofValue with
  | .error e => (.error e, s)
  | .ok arguments =>
    if s.isClosed then (s.refused, s)
    else
      let (reply, s) := s.takeReply
      if reply.failure = some .prepare ∧ !s.prepared.contains bound.sql then (s.refused, s)
      else ((s.remember bound.sql).send (.statement bound.sql arguments)).conclude reply

def run (s : Session) (text : String) (registry : Registry) :
    Except QueryError ServerReply × Session :=
  let s := s.write (dispatchEvent s.dialect text registry)
  match registry.bind s.dialect text with
  | .error e => (.error e, s)
  | .ok bound =>
    match s.dialect with
    | .postgres => s.runPrepared bound
    | .mysql => s.runTogether bound

def decodeColumn (d : Dialect) (typeName : String) (payload : Option Bytes) :
    Except DecodeFault Json :=
  match d with
  | .postgres => Postgres.decodeColumn (.ofName typeName) payload
  | .mysql => Mysql.decodeColumn typeName payload

def decodeRow (d : Dialect) : List (String × String) → List (Option Bytes) → Except QueryError Row
  | [], _ => .ok {}
  | (name, typeName) :: columns, payloads =>
    match decodeColumn d typeName (payloads.headD none) with
    | .error fault => .error (.decode name fault)
    | .ok value => (decodeRow d columns payloads.tail).map fun row => ⟨(name, value) :: row.fields⟩

def decodeRows (d : Dialect) (reply : ServerReply) : Except QueryError (List Row) :=
  reply.rows.mapM (decodeRow d reply.columns)

/-- The number of rows that an answer affected; for MySQL an answer with columns affects none. -/
def affectedRows (d : Dialect) (reply : ServerReply) : Nat :=
  match d with
  | .postgres => reply.affected
  | .mysql => if reply.columns.isEmpty then reply.affected else 0

def runTransaction (s : Session) (t : Transaction) : Except QueryError Unit × Session :=
  let text := t.statement s.dialect
  let s := s.write (transactionEvent text)
  if s.isClosed then (s.refused, s)
  else
    let (reply, s) := s.takeReply
    let (result, s) := (s.send (.simple text)).conclude reply
    (result.map fun _ => (), s)

instance : Executor Session where
  dialect s := s.dialect
  fetchAll s text registry :=
    let (result, s) := s.run text registry
    (result.bind (decodeRows s.dialect), s)
  execute s text registry :=
    let (result, s) := s.run text registry
    (result.map (affectedRows s.dialect), s)
  transact s t := s.runTransaction t
  note s event := s.write event

end Session

end BoundQuery
