import BoundQuery.Connection.Session
import BoundQuery.Proofs.Dispatch

/-!
# Refusals and the executors of the program

A session and a recorder answer with errors of their own: a placeholder without a value, a value
that cannot be sent, what the server says, a result that cannot be read. None of them is one that an
operation gives before it asks. So where an operation on one of them is refused, nothing has reached
the executor.
-/

namespace BoundQuery

set_option autoImplicit false

/-- The errors that the executors of the program answer with. -/
def QueryError.isAnswer : QueryError → Bool
  | connection _ | unboundPlaceholder _ | invalidValue .. | server _ | decode .. => true
  | _ => false

theorem QueryError.isRefusal_of_isAnswer {e : QueryError} (h : e.isAnswer = true) :
    e.isRefusal = false := by
  cases e <;> first | rfl | cases h

theorem mapM_error {α β : Type} {f : α → Except QueryError β} {as : List α} {e : QueryError}
    (h : as.mapM f = .error e) : ∃ a ∈ as, f a = .error e := by
  induction as with
  | nil => cases h
  | cons a rest ih =>
    rw [List.mapM_cons] at h
    cases hfirst : f a with
    | error e' =>
      rw [hfirst] at h
      cases h
      exact ⟨a, List.mem_cons_self, hfirst⟩
    | ok b =>
      rw [hfirst] at h
      cases hrest : rest.mapM f with
      | error e' =>
        rw [hrest] at h
        cases h
        obtain ⟨a', hmem, ha'⟩ := ih hrest
        exact ⟨a', List.mem_cons_of_mem a hmem, ha'⟩
      | ok bs =>
        rw [hrest] at h
        cases h

namespace Registry

theorem fill_error {lookup : String → Option Value} {d : Dialect}
    {parameters : List (String × Value)} {ps : List Piece} {e : QueryError}
    (h : fill lookup d parameters ps = .error e) :
    ∃ key, e = .unboundPlaceholder key := by
  induction ps generalizing parameters with
  | nil => cases h
  | cons p rest ih =>
    cases p with
    | char c =>
      rw [fill] at h
      split at h
      · cases h
      next hrest =>
        cases h
        exact ih hrest
    | key name =>
      rw [fill] at h
      split at h
      · cases h
        exact ⟨name, rfl⟩
      · simp only at h
        split at h
        · cases h
        next hrest =>
          cases h
          exact ih hrest

theorem bind_error {r : Registry} {d : Dialect} {text : String} {e : QueryError}
    (h : r.bind d text = .error e) : ∃ key, e = .unboundPlaceholder key := by
  unfold bind at h
  split at h
  · cases h
  next hfill =>
    cases h
    exact fill_error hfill

end Registry

namespace Session

variable {s : Session} {e : QueryError}

theorem conclude_error {reply : ServerReply} (h : (s.conclude reply).1 = .error e) :
    e = .server s.dialect := by
  unfold conclude at h
  split at h
  · cases h
  · exact (Except.error.inj h).symm

theorem runPrepared_error {bound : BoundStatement} (h : (s.runPrepared bound).1 = .error e) :
    ∃ d, e = .server d := by
  have hrefused {s : Session} (h : (s.refused : Except QueryError ServerReply) = .error e) :
      ∃ d, e = .server d := ⟨s.dialect, (Except.error.inj h).symm⟩
  unfold runPrepared at h
  split at h
  · exact hrefused h
  · simp only at h
    split at h
    · exact hrefused h
    · exact hrefused h
    · split at h
      · exact hrefused h
      · exact ⟨_, conclude_error h⟩

theorem runTogether_error {bound : BoundStatement} (h : (s.runTogether bound).1 = .error e) :
    (∃ d, e = .server d) ∨ ∃ column reason, e = .invalidValue column reason := by
  unfold runTogether at h
  split at h
  next hvalues =>
    cases h
    obtain ⟨value, _, hvalue⟩ := mapM_error hvalues
    cases value <;> cases hvalue
    exact .inr ⟨_, _, rfl⟩
  next =>
    left
    split at h
    · exact ⟨_, (Except.error.inj h).symm⟩
    · simp only at h
      split at h
      · exact ⟨_, (Except.error.inj h).symm⟩
      · exact ⟨_, conclude_error h⟩

theorem run_error {text : String} {registry : Registry} (h : (s.run text registry).1 = .error e) :
    e.isAnswer = true := by
  unfold run at h
  simp only at h
  split at h
  next hbind =>
    cases h
    obtain ⟨key, rfl⟩ := Registry.bind_error hbind
    rfl
  next =>
    split at h
    · obtain ⟨d, rfl⟩ := runPrepared_error h
      rfl
    · rcases runTogether_error h with ⟨d, rfl⟩ | ⟨column, reason, rfl⟩ <;> rfl

theorem decodeRow_error {d : Dialect} {columns : List (String × String)}
    {payloads : List (Option Bytes)} (h : decodeRow d columns payloads = .error e) :
    ∃ column fault, e = .decode column fault := by
  induction columns generalizing payloads with
  | nil => cases h
  | cons column rest ih =>
    obtain ⟨name, typeName⟩ := column
    rw [decodeRow] at h
    split at h
    · cases h
      exact ⟨name, _, rfl⟩
    · cases hrest : decodeRow d rest payloads.tail with
      | error e' =>
        rw [hrest] at h
        cases h
        exact ih hrest
      | ok row =>
        rw [hrest] at h
        cases h

theorem isAnswer_of_failsWith {asked : Asked} (h : asked.FailsWith s e) : e.isAnswer = true := by
  obtain ⟨demand, text, registry⟩ := asked
  cases demand with
  | execute => exact run_error (eq_error_of_map h)
  | fetch =>
    change (s.run text registry).1.bind (decodeRows (s.run text registry).2.dialect) = .error e at h
    cases hrun : (s.run text registry).1 with
    | error e' =>
      rw [hrun] at h
      cases h
      exact run_error hrun
    | ok reply =>
      rw [hrun] at h
      obtain ⟨row, _, hrow⟩ := mapM_error h
      obtain ⟨column, fault, rfl⟩ := decodeRow_error hrow
      rfl

end Session

theorem Recorder.isAnswer_of_failsWith {r : Recorder} {asked : Asked} {e : QueryError}
    (h : asked.FailsWith r e) : e.isAnswer = true := by
  obtain ⟨demand, text, registry⟩ := asked
  have hdispatch : (r.dispatch demand text registry).1 = .error e := by
    cases demand with
    | fetch => exact h
    | execute => exact eq_error_of_map h
  unfold dispatch at hdispatch
  split at hdispatch
  next hbind =>
    cases hdispatch
    obtain ⟨key, rfl⟩ := Registry.bind_error hbind
    rfl
  next =>
    simp only at hdispatch
    split at hdispatch
    · cases hdispatch
    · cases hdispatch
      rfl
    · cases hdispatch

namespace Operation

variable {σ : Type} [Executor σ]

/-- An operation that is refused asks nothing. -/
def Silent (op : Operation) (q : Query) (w : Watched σ) : Prop :=
  ∀ e, (op.run q w).1.1 = .error e → e.isRefusal = true → (op.run q w).2.asked = w.asked

/-- Where an executor has no refusal of its own, an operation that is refused has not asked. -/
theorem Safe.silent {op : Operation} {q : Query} {w : Watched σ} (h : op.Safe q w)
    (hown : ∀ (asked : Asked) e, asked.FailsWith w.conn e → e.isAnswer = true) :
    op.Silent q w := by
  intro e herror he
  rcases h.refusal e herror he with hsame | ⟨asked, _, hfails⟩
  · exact hsame
  · rw [QueryError.isRefusal_of_isAnswer (hown asked e hfails)] at he
    cases he

variable {d : Dialect} {q : Query}

theorem silent_session (h : q.Reached d) (op : Operation) (w : Watched Session) : op.Silent q w :=
  (op.safe_of_reached h w).silent fun _ _ => Session.isAnswer_of_failsWith

theorem silent_recorder (h : q.Reached d) (op : Operation) (w : Watched Recorder) :
    op.Silent q w :=
  (op.safe_of_reached h w).silent fun _ _ => Recorder.isAnswer_of_failsWith

end Operation

end BoundQuery
