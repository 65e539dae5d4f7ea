import BoundQuery.Proofs.Query.Calls
import BoundQuery.Proofs.Watched

/-!
# Operations that end a query

Reading, counting, deleting, inserting and updating go the same way. The dialects are compared, the
statement is compiled, and only then is the executor asked, once. Compiling is the staging of an
insert or an update, and for the others it leaves the query alone.
-/

namespace BoundQuery

set_option autoImplicit false

inductive Operation where
  | get
  | count
  | delete
  | insert (rows : List Cells)
  | update (cells : Cells)

inductive Outcome where
  | rows (rows : List Row)
  | number (n : Int64)
  | affected (n : Nat)

namespace Operation

variable {σ : Type} [Executor σ]

/-- What an operation answers, the query after it, and the executor after it. -/
def run : Operation → Query → σ → Attempt Outcome × σ
  | get, q, conn => (((q.get conn).1.map .rows, q), (q.get conn).2)
  | count, q, conn => (((q.count conn).1.map .number, q), (q.count conn).2)
  | delete, q, conn => (((q.delete conn).1.map .affected, q), (q.delete conn).2)
  | insert rows, q, conn =>
    (((q.insert rows conn).1.1.map .affected, (q.insert rows conn).1.2), (q.insert rows conn).2)
  | update cells, q, conn =>
    (((q.update cells conn).1.1.map .affected, (q.update cells conn).1.2), (q.update cells conn).2)

/-- The statement of an operation, if there is anything to do. -/
def compile : Operation → Query → Attempt (Option String)
  | get, q => (q.selectText.map some, q)
  | count, q => (q.countText.map some, q)
  | delete, q => (q.deleteText.map some, q)
  | insert rows, q => q.stageInsert rows
  | update cells, q => q.stageUpdate cells

def demand : Operation → Demand
  | get | count => .fetch
  | delete | insert _ | update _ => .execute

/-- Asks an executor, and makes of its answer that of the operation. -/
def ask (op : Operation) (conn : σ) (text : String) (registry : Registry) :
    Except QueryError Outcome × σ :=
  match op with
  | get =>
    let (result, conn) := Executor.fetchAll conn text registry
    (result.map .rows, conn)
  | count =>
    let (result, conn) := Executor.fetchAll conn text registry
    ((result.bind Query.countOf).map .number, conn)
  | delete | insert _ | update _ =>
    let (result, conn) := Executor.execute conn text registry
    (result.map .affected, conn)

/-- What an operation does once its statement is compiled. -/
def proceed (op : Operation) (staged : Attempt (Option String)) (conn : σ) : Attempt Outcome × σ :=
  match staged with
  | (.error e, q) => ((.error e, q), conn)
  | (.ok none, q) => ((.ok (.affected 0), q), conn)
  | (.ok (some text), q) =>
    let (result, conn) := op.ask conn text q.registry
    ((result, q), conn)

theorem run_of_mismatch (op : Operation) {q : Query} {conn : σ}
    (h : Executor.dialect conn ≠ q.dialect) :
    op.run q conn = ((.error (.dialectMismatch q.dialect (Executor.dialect conn)), q), conn) := by
  have hmismatch : q.mismatch? conn =
      some (.dialectMismatch q.dialect (Executor.dialect conn)) := if_neg h
  cases op <;>
    simp only [run, Query.get, Query.count, Query.delete, Query.insert, Query.update, hmismatch,
      Except.map]

theorem run_of_match (op : Operation) {q : Query} {conn : σ}
    (h : Executor.dialect conn = q.dialect) :
    op.run q conn = op.proceed (op.compile q) conn := by
  have hmismatch : q.mismatch? conn = none := if_pos h
  cases op with
  | get =>
    simp only [run, Query.get, hmismatch, compile]
    cases q.selectText <;> rfl
  | count =>
    simp only [run, Query.count, hmismatch, compile]
    cases q.countText <;> rfl
  | delete =>
    simp only [run, Query.delete, hmismatch, compile]
    cases q.deleteText <;> rfl
  | insert rows =>
    simp only [run, Query.insert, hmismatch, compile]
    rcases q.stageInsert rows with ⟨e | (_ | text), q'⟩ <;> rfl
  | update cells =>
    simp only [run, Query.update, hmismatch, compile]
    rcases q.stageUpdate cells with ⟨e | (_ | text), q'⟩ <;> rfl

theorem compile_of_error {op : Operation} {q : Query} {e : QueryError}
    (h : (op.compile q).1 = .error e) : op.compile q = (.error e, q) := by
  cases op with
  | insert rows =>
    rcases q.stageInsert_outcomes rows with
      ⟨_, hstage⟩ | ⟨e', hstage⟩ | ⟨first, rest, table, all, _, _, _, _, hstage⟩
    · rw [compile, hstage] at h
      cases h
    · rw [compile, hstage] at h ⊢
      cases h
      rfl
    · rw [compile, hstage] at h
      cases h
  | update cells =>
    rcases q.stageUpdate_outcomes cells with
      ⟨_, hstage⟩ | ⟨e', hstage⟩ | ⟨table, _, _, _, hstage⟩
    · rw [compile, hstage] at h
      cases h
    · rw [compile, hstage] at h ⊢
      cases h
      rfl
    · rw [compile, hstage] at h
      cases h
  | _ => exact Prod.ext h rfl

/-- Compiling does to a query what one of its calls does, or nothing. -/
theorem query_compile (op : Operation) (q : Query) :
    (op.compile q).2 = q ∨ ∃ call : Call, (op.compile q).2 = (call.run q).2 := by
  cases op with
  | insert rows => exact .inr ⟨.stageInsert rows, rfl⟩
  | update cells => exact .inr ⟨.stageUpdate cells, rfl⟩
  | _ => exact .inl rfl

/-- An operation leaves the executor alone, or the dialects agree and it asks for its statement. -/
theorem run_outcomes (op : Operation) (q : Query) (conn : σ) :
    (op.run q conn).2 = conn ∧
        ((op.run q conn).1.2 = q ∨ (op.run q conn).1.2 = (op.compile q).2) ∨
      ∃ text, Executor.dialect conn = q.dialect ∧ (op.compile q).1 = .ok (some text) ∧
        op.run q conn =
          (((op.ask conn text (op.compile q).2.registry).1, (op.compile q).2),
            (op.ask conn text (op.compile q).2.registry).2) := by
  by_cases hdialect : Executor.dialect conn = q.dialect
  · rw [op.run_of_match hdialect]
    rcases op.compile q with ⟨e | (_ | text), q'⟩
    · exact .inl ⟨rfl, .inr rfl⟩
    · exact .inl ⟨rfl, .inr rfl⟩
    · exact .inr ⟨text, hdialect, rfl, rfl⟩
  · rw [op.run_of_mismatch hdialect]
    exact .inl ⟨rfl, .inl rfl⟩

theorem asked_ask (op : Operation) (w : Watched σ) (text : String) (registry : Registry) :
    (op.ask w text registry).2.asked = w.asked ++ [⟨op.demand, text, registry⟩] := by
  cases op <;> rfl

end Operation

end BoundQuery
