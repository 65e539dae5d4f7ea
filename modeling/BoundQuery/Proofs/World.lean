import BoundQuery.Proofs.Session

/-!
# One query on several executors

One query may be shaped and run many times, on executors of either dialect. What a sequence of moves
asks of them is written in their logs. Each step adds to a log at most what one operation sends, so
every statement in a log was sent from the state that the moves before it had led to.
-/

namespace BoundQuery

set_option autoImplicit false

/-- A query and several executors, each with what was asked of it. -/
structure World (ι σ : Type) where
  query : Query
  conns : ι → Watched σ

/-- What can be done with a query: it is shaped, or run on one of the executors. -/
inductive World.Move (ι : Type) where
  | shape (call : Call)
  | operate (op : Operation) (i : ι)

namespace World

variable {ι σ : Type} [DecidableEq ι] [Executor σ]

def start (d : Dialect) (conns : ι → σ) : World ι σ := ⟨{ dialect := d }, fun i => ⟨conns i, []⟩⟩

def step (w : World ι σ) : Move ι → World ι σ
  | .shape call => { w with query := (call.run w.query).2 }
  | .operate op i =>
    ⟨(op.run w.query (w.conns i)).1.2, fun j =>
      if j = i then (op.run w.query (w.conns i)).2 else w.conns j⟩

def run (w : World ι σ) (moves : List (Move ι)) : World ι σ := moves.foldl step w

theorem run_append (w : World ι σ) (moves more : List (Move ι)) :
    w.run (moves ++ more) = (w.run moves).run more := List.foldl_append

theorem reached_step {d : Dialect} {w : World ι σ} (h : w.query.Reached d) (move : Move ι) :
    (w.step move).query.Reached d := by
  cases move with
  | shape call => exact h.run call
  | operate op i =>
    rcases op.run_outcomes w.query (w.conns i) with ⟨_, hquery | hquery⟩ | ⟨text, _, _, hrun⟩
    · rw [step, hquery]
      exact h
    · rw [step, hquery]
      exact op.reached_compile h
    · rw [step, hrun]
      exact op.reached_compile h

theorem reached_run (d : Dialect) (conns : ι → σ) (moves : List (Move ι)) :
    ((start d conns).run moves).query.Reached d := by
  have hrun (w : World ι σ) (h : w.query.Reached d) : (w.run moves).query.Reached d := by
    induction moves generalizing w with
    | nil => exact h
    | cons move moves ih => exact ih (w.step move) (reached_step h move)
  exact hrun _ (Query.reached_empty d)

/-- One step: what is new in a log was sent by this step. -/
theorem mem_asked_step {d : Dialect} {w : World ι σ} (h : w.query.Reached d) {move : Move ι}
    {i : ι} {asked : Asked} (hasked : asked ∈ ((w.step move).conns i).asked) :
    asked ∈ (w.conns i).asked ∨ ∃ op, move = .operate op i ∧
      op.Sends w.query (Executor.dialect (w.conns i)) asked := by
  cases move with
  | shape call => exact .inl hasked
  | operate op j =>
    by_cases hij : i = j
    · subst hij
      simp only [step, if_pos] at hasked
      rcases (op.safe_of_reached h (w.conns i)).once with hsame | ⟨new, hnew, hsends⟩
      · rw [hsame] at hasked
        exact .inl hasked
      · rw [hnew] at hasked
        rcases List.mem_append.mp hasked with hold | hlast
        · exact .inl hold
        · rw [List.mem_singleton.mp hlast]
          exact .inr ⟨op, rfl, hsends⟩
    · simp only [step, if_neg hij] at hasked
      exact .inl hasked

/-- A run, move by move: what is in a log was sent by one of the moves so far. -/
theorem sent_of_mem_asked (d : Dialect) (conns : ι → σ) (moves : List (Move ι)) (m : Nat) :
    let reach (n : Nat) := (start d conns).run (moves.take n)
    ∀ i asked, asked ∈ ((reach m).conns i).asked → ∃ (n : Nat) (op : Operation),
      moves[n]? = some (.operate op i) ∧
      op.Sends (reach n).query (Executor.dialect ((reach n).conns i)) asked := by
  intro reach
  have hreached (n : Nat) : (reach n).query.Reached d := reached_run d conns (moves.take n)
  induction m with
  | zero =>
    intro i asked hasked
    cases hasked
  | succ m ih =>
    intro i asked hasked
    have hsucc : reach (m + 1) = (reach m).run moves[m]?.toList := by
      change (start d conns).run (moves.take (m + 1)) = _
      rw [List.take_add_one, run_append]
    rw [hsucc] at hasked
    cases hmove : moves[m]? with
    | none =>
      rw [hmove] at hasked
      exact ih i asked hasked
    | some move =>
      rw [hmove] at hasked
      rcases mem_asked_step (hreached m) hasked with hold | ⟨op, rfl, hsends⟩
      · exact ih i asked hold
      · exact ⟨m, op, hmove, hsends⟩

/--
Every sequence of calls and operations on one query, with executors of any dialect: each operation
that could come next is safe, and every statement in the logs was sent by an operation of the
sequence, from the state that the moves before it had led to. Where the executors are sessions, or
recorders, an operation that is refused asks nothing.
-/
theorem run_safe (d : Dialect) (conns : ι → σ) (moves : List (Move ι)) :
    let reach (n : Nat) := (start d conns).run (moves.take n)
    let last := (start d conns).run moves
    (∀ (op : Operation) i, op.Safe last.query (last.conns i)) ∧
    (∀ i asked, asked ∈ (last.conns i).asked → ∃ (n : Nat) (op : Operation),
      moves[n]? = some (.operate op i) ∧
      op.Sends (reach n).query (Executor.dialect ((reach n).conns i)) asked) ∧
    (∀ (sessions : ι → Session) (op : Operation) i,
      let ended := (start d sessions).run moves
      op.Silent ended.query (ended.conns i)) ∧
    ∀ (recorders : ι → Recorder) (op : Operation) i,
      let ended := (start d recorders).run moves
      op.Silent ended.query (ended.conns i) := by
  intro reach last
  have hlast : last = reach moves.length := by
    change (start d conns).run moves = (start d conns).run (moves.take moves.length)
    rw [List.take_length]
  refine ⟨fun op i => op.safe_of_reached (reached_run d conns moves) (last.conns i), ?_,
    fun sessions op i => op.silent_session (reached_run d sessions moves) _,
    fun recorders op i => op.silent_recorder (reached_run d recorders moves) _⟩
  rw [hlast]
  exact sent_of_mem_asked d conns moves moves.length

/-- Two updates, of which the first has no predicate, and a query for rows from the wrong server. -/
theorem run_safe_recorders :
    let conns : Bool → Recorder := fun i => { dialect := if i then .mysql else .postgres }
    let moves : List (Move Bool) := [.shape (.setTable "t"), .operate (.update [("a", .null)]) true,
      .shape (.restrict "id" "=" (.int 1) .and), .operate .get false,
      .operate (.update [("a", .null)]) true]
    let last := (start .mysql conns).run moves
    (last.conns false).asked.map (·.text) = [] ∧ Operation.Safe .get last.query (last.conns false) ∧
      (last.conns true).asked.map (·.text) = ["UPDATE t SET a = :a_2 WHERE id = :id_1"] ∧
      (∃ asked ∈ (last.conns true).asked, ∃ (n : Nat) (op : Operation),
        moves[n]? = some (.operate op true) ∧
        op.Sends ((start .mysql conns).run (moves.take n)).query
          (Executor.dialect (((start .mysql conns).run (moves.take n)).conns true)) asked) ∧
      (Operation.run .get last.query (last.conns false)).1.1 =
        .error (.dialectMismatch .mysql .postgres) ∧
      (Operation.run .get last.query (last.conns false)).2.asked = (last.conns false).asked := by
  intro conns moves last
  have hsilent : (last.conns false).asked.map (·.text) = [] := by decide +kernel
  have htexts : (last.conns true).asked.map (·.text) =
      ["UPDATE t SET a = :a_2 WHERE id = :id_1"] := by
    decide +kernel
  obtain ⟨hnext, hsent, _, hrefused⟩ := run_safe .mysql conns moves
  have hmem : "UPDATE t SET a = :a_2 WHERE id = :id_1" ∈ (last.conns true).asked.map (·.text) := by
    rw [htexts]
    exact List.mem_singleton_self _
  obtain ⟨asked, hasked, _⟩ := List.mem_map.mp hmem
  have hquery : last.query.dialect = .mysql := (reached_run .mysql conns moves).dialect
  have hconn : Executor.dialect (last.conns false) = .postgres := by decide +kernel
  have hmismatch : (Operation.run .get last.query (last.conns false)).1.1 =
      .error (.dialectMismatch .mysql .postgres) := by
    rw [Operation.run_of_mismatch .get (by rw [hquery, hconn]; decide), hquery, hconn]
  exact ⟨hsilent, hnext .get false, htexts, ⟨asked, hasked, hsent true asked hasked⟩, hmismatch,
    hrefused conns .get false _ hmismatch rfl⟩

end World

end BoundQuery
