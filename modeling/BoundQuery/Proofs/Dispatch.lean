import BoundQuery.Proofs.Operation
import BoundQuery.Proofs.Query.Records

/-!
# What reaches an executor

Whatever was called on a query before, refused or not, an operation asks its executor at most once,
and only for a statement of the executor's own dialect: its operators are of that dialect, every key
of a predicate has a value in the registry that goes with it, and an update has a predicate.
-/

namespace BoundQuery

set_option autoImplicit false

/-- The errors that an operation gives before it has asked anything. -/
def QueryError.isRefusal : QueryError → Bool
  | dialectMismatch .. | missingTable | missingWhere _ | mismatchedRow .. => true
  | _ => false

/-- The executor itself answers a statement with an error. -/
def Asked.FailsWith {σ : Type} [Executor σ] (asked : Asked) (conn : σ) (e : QueryError) : Prop :=
  match asked.demand with
  | .fetch => (Executor.fetchAll conn asked.text asked.registry).1 = .error e
  | .execute => (Executor.execute conn asked.text asked.registry).1 = .error e

theorem eq_error_of_map {α β : Type} {f : α → β} {result : Except QueryError α} {e : QueryError}
    (h : result.map f = .error e) : result = .error e := by
  cases result with
  | error e' => exact congrArg Except.error (Except.error.inj h)
  | ok a => cases h

theorem Operator.mem_operators_of_ofText {d : Dialect} {s : String} {op : Operator}
    (h : ofText d s = .ok op) : op ∈ d.operators := by
  unfold ofText at h
  split at h
  next found hfound =>
    cases h
    exact List.mem_of_find?_eq_some hfound
  next => cases h

namespace Query

/-- A state that some calls lead to from an empty query. -/
def Reached (d : Dialect) (q : Query) : Prop :=
  ∃ calls, q = (Call.runAll calls { dialect := d }).2

variable {d : Dialect} {q : Query}

theorem reached_empty (d : Dialect) : Reached d { dialect := d } := ⟨[], rfl⟩

theorem Reached.run (h : q.Reached d) (call : Call) : (call.run q).2.Reached d := by
  obtain ⟨calls, rfl⟩ := h
  exact ⟨calls ++ [call], by rw [Call.runAll_append]; rfl⟩

theorem Reached.induction {P : Query → Prop} (h : q.Reached d) (hstart : P { dialect := d })
    (hstep : ∀ q call, P q → P (Call.run call q).2) : P q := by
  obtain ⟨calls, rfl⟩ := h
  have hrun (q : Query) (hq : P q) : P (Call.runAll calls q).2 := by
    induction calls generalizing q with
    | nil => exact hq
    | cons call calls ih => exact ih (call.run q).2 (hstep q call hq)
  exact hrun _ hstart

theorem Reached.dialect (h : q.Reached d) : q.dialect = d :=
  h.induction (P := fun q => q.dialect = d) rfl fun q call hq => (call.dialect_run q).trans hq

theorem Reached.operators (h : q.Reached d) : ∀ c ∈ q.clauses, c.operator ∈ d.operators := by
  refine (h.induction (P := fun q => q.dialect = d ∧ ∀ c ∈ q.clauses, c.operator ∈ d.operators)
    ⟨rfl, fun _ hc => nomatch hc⟩ ?_).2
  rintro q call ⟨rfl, hclauses⟩
  refine ⟨call.dialect_run q, ?_⟩
  rcases call.run_outcomes q with ⟨e, hrun⟩ | ⟨reply, q', hrun, heffect⟩
  · rw [hrun]
    exact hclauses
  · rw [hrun]
    cases heffect with
    | restrict column connector hop _ _ =>
      intro c hc
      rcases List.mem_append.mp hc with hold | hnew
      · exact hclauses c hold
      · rw [List.mem_singleton.mp hnew]
        exact Operator.mem_operators_of_ofText hop
    | _ => exact hclauses

theorem exists_tailText (h : q.clauses ≠ []) : ∃ tail,
    q.tailText = q.joinText ++ " WHERE " ++ Clause.renderAll q.clauses ++ tail := by
  have hwhere : q.whereText = " WHERE " ++ Clause.renderAll q.clauses := by
    unfold whereText
    cases hq : q.clauses with
    | nil => exact absurd hq h
    | cons c rest => rfl
  refine ⟨q.orderText ++ q.pageText, ?_⟩
  rw [tailText, filterText, hwhere]
  simp only [String.append_assoc]

theorem Reached.held (h : q.Reached d) :
    ∀ key ∈ q.operandKeys, (q.registry.get? key).isSome := by
  obtain ⟨calls, rfl⟩ := h
  have hrecords := (records_empty d).runAll calls
  exact fun key hkey => Registry.isSome_get?_iff.mpr (hrecords.operandKeys.subset hkey)

end Query

namespace Operation

theorem clauses_compile (op : Operation) (q : Query) : (op.compile q).2.clauses = q.clauses := by
  cases op with
  | insert rows =>
    rcases q.stageInsert_cases rows with ⟨h, _⟩ | ⟨first, rest, table, all, _, _, _, _, h⟩ <;>
      simp only [compile, h]
  | update cells =>
    rcases q.stageUpdate_cases cells with ⟨h, _⟩ | ⟨table, _, _, _, h⟩ <;> simp only [compile, h]
  | _ => rfl

theorem reached_compile {d : Dialect} {q : Query} (op : Operation) (h : q.Reached d) :
    (op.compile q).2.Reached d := by
  rcases op.query_compile q with hsame | ⟨call, hcall⟩
  · rwa [hsame]
  · rw [hcall]
    exact h.run call

/-- What an operation on a query sends to an executor of a dialect. -/
structure Sends (op : Operation) (q : Query) (d : Dialect) (asked : Asked) : Prop where
  dialect : q.dialect = d
  compiled : (op.compile q).1 = .ok (some asked.text)
  registry : asked.registry = (op.compile q).2.registry
  demand : asked.demand = op.demand
  operators : ∀ c ∈ q.clauses, c.operator ∈ d.operators
  held : ∀ key ∈ q.operandKeys, (asked.registry.get? key).isSome
  guarded : "UPDATE ".toList <+: asked.text.toList → q.clauses ≠ [] ∧ ∃ head tail,
    asked.text = head ++ " WHERE " ++ Clause.renderAll q.clauses ++ tail

def verb : Operation → String
  | get => "SELECT "
  | count => "SELECT COUNT(*) AS count FROM "
  | delete => "DELETE FROM "
  | insert _ => "INSERT INTO "
  | update _ => "UPDATE "

theorem begins_of_compile {op : Operation} {q : Query} {text : String}
    (h : (op.compile q).1 = .ok (some text)) : ∃ rest, text = op.verb ++ rest := by
  cases op with
  | get =>
    simp only [compile, Query.selectText] at h
    split at h
    next name hname =>
      cases h
      simp only [String.append_assoc]
      exact ⟨_, rfl⟩
    next => cases h
  | count =>
    simp only [compile, Query.countText] at h
    split at h
    next name hname =>
      cases h
      rw [String.append_assoc]
      exact ⟨_, rfl⟩
    next => cases h
  | delete =>
    simp only [compile, Query.deleteText] at h
    split at h
    next name hname =>
      cases h
      rw [String.append_assoc]
      exact ⟨_, rfl⟩
    next => cases h
  | insert rows =>
    rcases q.stageInsert_cases rows with
      ⟨_, hnone⟩ | ⟨first, rest, table, all, _, _, _, _, hstage⟩
    · exact absurd h (hnone text)
    · rw [compile, hstage] at h
      cases h
      unfold Query.insertText
      simp only [String.append_assoc]
      exact ⟨_, rfl⟩
  | update cells =>
    rcases q.stageUpdate_cases cells with ⟨_, hnone⟩ | ⟨table, _, _, _, hstage⟩
    · exact absurd h (hnone text)
    · rw [compile, hstage] at h
      cases h
      unfold Query.updateText
      simp only [String.append_assoc]
      exact ⟨_, rfl⟩

/-- Only an update begins as an update does. -/
theorem eq_update_of_compile {op : Operation} {q : Query} {text : String}
    (h : (op.compile q).1 = .ok (some text)) (hupdate : "UPDATE ".toList <+: text.toList) :
    ∃ cells, op = .update cells := by
  obtain ⟨rest, rfl⟩ := begins_of_compile h
  obtain ⟨tail, htail⟩ := hupdate
  have hfirst := congrArg List.head? htail
  cases op with
  | update cells => exact ⟨cells, rfl⟩
  | _ => simp [verb] at hfirst

theorem guarded_compile {op : Operation} {q : Query} {text : String}
    (h : (op.compile q).1 = .ok (some text)) (hupdate : "UPDATE ".toList <+: text.toList) :
    q.clauses ≠ [] ∧ ∃ head tail,
      text = head ++ " WHERE " ++ Clause.renderAll q.clauses ++ tail := by
  obtain ⟨cells, rfl⟩ := eq_update_of_compile h hupdate
  rcases q.stageUpdate_cases cells with ⟨_, hnone⟩ | ⟨table, _, _, hclauses, hstage⟩
  · exact absurd h (hnone text)
  · rw [compile, hstage] at h
    cases h
    obtain ⟨tail, htail⟩ := Query.exists_tailText hclauses
    unfold Query.updateText
    rw [htail]
    simp only [← String.append_assoc]
    exact ⟨hclauses, _, tail, rfl⟩

variable {σ : Type} [Executor σ]

theorem failsWith_of_ask {op : Operation} {w : Watched σ} {text : String} {registry : Registry}
    {e : QueryError} (h : (op.ask w text registry).1 = .error e) (he : e.isRefusal = true) :
    Asked.FailsWith ⟨op.demand, text, registry⟩ w.conn e := by
  cases op with
  | count =>
    have hbind : (Executor.fetchAll w.conn text registry).1.bind Query.countOf = .error e :=
      eq_error_of_map h
    change (Executor.fetchAll w.conn text registry).1 = .error e
    cases hresult : (Executor.fetchAll w.conn text registry).1 with
    | error e' =>
      rw [hresult] at hbind
      exact congrArg Except.error (Except.error.inj hbind)
    | ok rows =>
      -- a result without the count is another error
      rw [hresult] at hbind
      simp only [Except.bind, Query.countOf] at hbind
      split at hbind
      · cases hbind
      · cases hbind
        cases he
  | _ => exact eq_error_of_map h

/-- What an operation on a query does to a watched executor. -/
structure Safe (op : Operation) (q : Query) (w : Watched σ) : Prop where
  once : (op.run q w).2.asked = w.asked ∨ ∃ asked, (op.run q w).2.asked = w.asked ++ [asked] ∧
    op.Sends q (Executor.dialect w) asked
  refusal : ∀ e, (op.run q w).1.1 = .error e → e.isRefusal = true →
    (op.run q w).2.asked = w.asked ∨ ∃ asked, (op.run q w).2.asked = w.asked ++ [asked] ∧
      asked.FailsWith w.conn e
  empty : op = .insert [] ∨ op = .update [] → (op.run q w).2.asked = w.asked

theorem safe_of_reached {d : Dialect} {q : Query} (h : q.Reached d) (op : Operation)
    (w : Watched σ) : op.Safe q w := by
  rcases op.run_outcomes q w with ⟨hsame, _⟩ | ⟨text, hdialect, hcompile, hrun⟩
  · have hasked : (op.run q w).2.asked = w.asked := by rw [hsame]
    exact ⟨.inl hasked, fun _ _ _ => .inl hasked, fun _ => hasked⟩
  · have hasked : (op.run q w).2.asked =
        w.asked ++ [⟨op.demand, text, (op.compile q).2.registry⟩] := by
      rw [hrun]
      exact op.asked_ask w text _
    refine ⟨.inr ⟨_, hasked, ?_⟩, ?_, ?_⟩
    · refine ⟨hdialect.symm, hcompile, rfl, rfl, ?_, ?_, fun hupdate =>
        guarded_compile hcompile hupdate⟩
      · rw [hdialect, h.dialect]
        exact h.operators
      · have hheld := (op.reached_compile h).held
        rwa [Query.operandKeys, op.clauses_compile q] at hheld
    · intro e herror he
      rw [hrun] at herror
      exact .inr ⟨_, hasked, failsWith_of_ask herror he⟩
    · rintro (rfl | rfl) <;> cases hcompile

end Operation

end BoundQuery
