import BoundQuery.Query.Staging
import BoundQuery.Row

/-!
# Running a query

An executor is anything that can run statements: a connection, or a record of what was asked of it.
It gets the text with named placeholders and the registry with their values. A query runs only on an
executor of its own dialect, and it reaches the executor at most once. An insert without rows and an
update without columns succeed with no row affected and do not reach it.
-/

namespace BoundQuery
set_option autoImplicit false

/-- A statement that begins or ends a transaction. There is no nesting and no automatic rollback. -/
inductive Transaction where
  | begin
  | commit
  | rollback
  deriving DecidableEq, Repr

structure Event where
  level : String
  target : String
  message : String
  fields : List (String × String)
  deriving DecidableEq, Repr

/-- What runs statements. Each operation returns its result and the executor after it. -/
class Executor (σ : Type) where
  dialect : σ → Dialect
  fetchAll : σ → String → Registry → Except QueryError (List Row) × σ
  execute : σ → String → Registry → Except QueryError Nat × σ
  transact : σ → Transaction → Except QueryError Unit × σ
  note : σ → Event → σ

namespace Query

variable {σ : Type} [Executor σ]

/-- The error of a query whose dialect is not that of the executor. -/
def mismatch? (q : Query) (conn : σ) : Option QueryError :=
  if Executor.dialect conn = q.dialect then none
  else some (.dialectMismatch q.dialect (Executor.dialect conn))

def get (q : Query) (conn : σ) : Except QueryError (List Row) × σ :=
  match q.mismatch? conn with
  | some e => (.error e, conn)
  | none =>
    match q.selectText with
    | .error e => (.error e, conn)
    | .ok text => Executor.fetchAll conn text q.registry

/-- The number in the `count` column of the first row. -/
def countOf (rows : List Row) : Except QueryError Int64 :=
  match rows.head?.bind (·.getInt64? "count") with
  | some n => .ok n
  | none => .error (.notFound "count field missing from COUNT result")

def count (q : Query) (conn : σ) : Except QueryError Int64 × σ :=
  match q.mismatch? conn with
  | some e => (.error e, conn)
  | none =>
    match q.countText with
    | .error e => (.error e, conn)
    | .ok text =>
      let (result, conn) := Executor.fetchAll conn text q.registry
      (result.bind countOf, conn)

def delete (q : Query) (conn : σ) : Except QueryError Nat × σ :=
  match q.mismatch? conn with
  | some e => (.error e, conn)
  | none =>
    match q.deleteText with
    | .error e => (.error e, conn)
    | .ok text => Executor.execute conn text q.registry

def runStaged (staged : Attempt (Option String)) (conn : σ) : Attempt Nat × σ :=
  match staged with
  | (.error e, q) => ((.error e, q), conn)
  | (.ok none, q) => ((.ok 0, q), conn)
  | (.ok (some text), q) =>
    let (result, conn) := Executor.execute conn text q.registry
    ((result, q), conn)

def insert (q : Query) (rows : List Cells) (conn : σ) : Attempt Nat × σ :=
  match q.mismatch? conn with
  | some e => ((.error e, q), conn)
  | none => runStaged (q.stageInsert rows) conn

def update (q : Query) (cells : Cells) (conn : σ) : Attempt Nat × σ :=
  match q.mismatch? conn with
  | some e => ((.error e, q), conn)
  | none => runStaged (q.stageUpdate cells) conn

end Query

end BoundQuery
