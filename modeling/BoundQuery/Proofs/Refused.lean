import BoundQuery.Proofs.Operation

/-!
# What is refused changes nothing

A call checks everything before it records anything, so a refused one leaves the query as it was:
its clauses, its page, its registry and the number of the next key. A run of calls therefore goes
as if the refused ones had not been made. An operation that is refused leaves the executor alone as
well.
-/

namespace BoundQuery

set_option autoImplicit false

namespace Call

theorem run_of_error {call : Call} {q : Query} {e : QueryError} (h : (call.run q).1 = .error e) :
    (call.run q).2 = q := by
  rcases call.run_outcomes q with ⟨e', hrun⟩ | ⟨reply, q', hrun, _⟩
  · rw [hrun]
  · rw [hrun] at h
    cases h

/-- The calls that were accepted. -/
def kept : List Call → List (Except QueryError Reply) → List Call
  | call :: calls, outcome :: outcomes =>
    if outcome.isOk then call :: kept calls outcomes else kept calls outcomes
  | _, _ => []

/-- The refused calls of a run can be left out. -/
theorem runAll_kept (calls : List Call) (q : Query) :
    runAll (kept calls (runAll calls q).1) q =
      ((runAll calls q).1.filter (·.isOk), (runAll calls q).2) := by
  induction calls generalizing q with
  | nil => rfl
  | cons call calls ih =>
    have hcons (q : Query) (rest : List Call) : runAll (call :: rest) q =
        ((call.run q).1 :: (runAll rest (call.run q).2).1, (runAll rest (call.run q).2).2) := rfl
    rcases call.run_outcomes q with ⟨e, h⟩ | ⟨reply, q', h, _⟩
    · rw [hcons, h]
      exact ih q
    · have hrest := ih q'
      rw [hcons, h]
      change runAll (call :: kept calls (runAll calls q').1) q = _
      rw [hcons, h, hrest]
      rfl

end Call

namespace Query

/--
Whatever the state of a query: a call that is refused leaves it as it was, so do an insert without
rows and an update without columns, and so does an operation that is refused, be it that the
dialects differ or that there is no statement; it does not reach the executor either. A run goes as
if its refused calls had not been made.
-/
theorem refused_unchanged {σ : Type} [Executor σ] (q : Query) (conn : σ) :
    (∀ call e, (Call.run call q).1 = .error e → (Call.run call q).2 = q) ∧
    q.stageInsert [] = (.ok none, q) ∧ q.stageUpdate [] = (.ok none, q) ∧
    (∀ op : Operation, Executor.dialect conn ≠ q.dialect → op.run q conn =
      ((.error (.dialectMismatch q.dialect (Executor.dialect conn)), q), conn)) ∧
    (∀ (op : Operation) e, Executor.dialect conn = q.dialect → (op.compile q).1 = .error e →
      op.run q conn = ((.error e, q), conn)) ∧
    ∀ calls, Call.runAll (Call.kept calls (Call.runAll calls q).1) q =
      ((Call.runAll calls q).1.filter (·.isOk), (Call.runAll calls q).2) := by
  refine ⟨fun _ _ => Call.run_of_error, rfl, rfl, fun op => op.run_of_mismatch, ?_,
    fun calls => Call.runAll_kept calls q⟩
  intro op e hdialect he
  rw [op.run_of_match hdialect, Operation.compile_of_error he]
  rfl

/-- A range with one bound, and a query for one server on a connection to the other. -/
theorem refused_unchanged_range :
    let q : Query :=
      { dialect := .mysql, table := some "t", limit := some 5
        registry := (({} : Registry).push "a" .null).2 }
    let conn : Recorder := { dialect := .postgres }
    let call : Call := .restrict "a" "between" (.list [.null]) .and
    (call.run q).1 =
        .error (.invalidValue "a" "BETWEEN expects a list of exactly two values") ∧
      (call.run q).2 = q ∧
      Operation.run .get q conn = ((.error (.dialectMismatch .mysql .postgres), q), conn) ∧
      Operation.run (.update [("a", .null)]) q { conn with dialect := .mysql } =
        ((.error (.missingWhere "t"), q), { conn with dialect := .mysql }) := by
  intro q conn call
  have hcall : (call.run q).1 =
      .error (.invalidValue "a" "BETWEEN expects a list of exactly two values") := by
    with_unfolding_all rfl
  obtain ⟨hcalls, _, _, hmismatch, _, _⟩ := refused_unchanged q conn
  obtain ⟨_, _, _, _, hcompile, _⟩ := refused_unchanged q { conn with dialect := .mysql }
  have hdialect : Executor.dialect conn ≠ q.dialect := by decide
  exact ⟨hcall, hcalls call _ hcall, hmismatch .get hdialect,
    hcompile (.update [("a", .null)]) _ rfl rfl⟩

end Query

end BoundQuery
