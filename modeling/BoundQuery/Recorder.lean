import BoundQuery.Executor

/-!
# An executor in memory

A recorder keeps every statement it is asked to run and answers from a queue of prepared results. A
statement whose placeholders cannot be bound is not kept and takes no result.
-/

namespace BoundQuery
set_option autoImplicit false

inductive Scripted where
  | rows (rows : List Row)
  | fail (reason : String)
  deriving Repr

inductive Demand where
  | fetch
  | execute
  deriving DecidableEq, Repr

/-- What a recorder keeps. -/
inductive Sent where
  | statement (demand : Demand) (text : String) (registry : Registry) (bound : BoundStatement)
  | transaction (t : Transaction)
  deriving Repr

structure Recorder where
  dialect : Dialect
  /-- Results to come; without one there are no rows. -/
  script : List Scripted := []
  affected : Nat := 1
  sent : List Sent := []
  log : List Event := []
  deriving Repr

namespace Recorder

/-- Keeps a statement and takes the next result. -/
def dispatch (r : Recorder) (demand : Demand) (text : String) (registry : Registry) :
    Except QueryError (List Row) × Recorder :=
  match registry.bind r.dialect text with
  | .error e => (.error e, r)
  | .ok bound =>
    let kept :=
      { r with sent := r.sent ++ [.statement demand text registry bound], script := r.script.tail }
    match r.script.head? with
    | some (.rows rows) => (.ok rows, kept)
    | some (.fail reason) => (.error (.connection reason), kept)
    | none => (.ok [], kept)

instance : Executor Recorder where
  dialect r := r.dialect
  fetchAll r text registry := r.dispatch .fetch text registry
  execute r text registry :=
    let (result, r) := r.dispatch .execute text registry
    (result.map fun _ => r.affected, r)
  transact r t := (.ok (), { r with sent := r.sent ++ [.transaction t] })
  note r event := { r with log := r.log ++ [event] }

end Recorder

end BoundQuery
