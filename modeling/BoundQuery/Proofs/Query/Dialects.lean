import BoundQuery.Proofs.Query.Binding
import BoundQuery.Proofs.Query.Uniform

/-!
# The same calls on queries of two dialects

The dialect of a query decides which operators it accepts, and nothing else. So calls that do not
bring the one operator of a single dialect are answered alike, and the queries they lead to differ
in the dialect alone. What is compiled or staged on the way binds for both dialects to the same
values, and the bound texts differ in the parameters alone.
-/

namespace BoundQuery

set_option autoImplicit false

open Placeholder Registry

/-- The error of a query in another dialect: the refusal of an operator names the dialect. -/
def QueryError.inDialect (d : Dialect) : QueryError → QueryError
  | unsupportedOperator operator _ => unsupportedOperator operator d.name
  | e => e

def Query.inDialect (d : Dialect) (q : Query) : Query := { q with dialect := d }

def Attempt.inDialect {α : Type} (d : Dialect) (a : Attempt α) : Attempt α :=
  (a.1.mapError (QueryError.inDialect d), a.2.inDialect d)

namespace Operator

variable {s : String}

theorem find?_operators (h : normalize s ≠ "ILIKE") (d : Dialect) :
    d.operators.find? (·.keyword == normalize s) = base.find? (·.keyword == normalize s) := by
  have hown : d.ownOperators.find? (·.keyword == normalize s) = none := by
    rw [List.find?_eq_none]
    intro op hop
    cases d with
    | mysql => cases hop
    | postgres =>
      rw [List.mem_singleton.mp hop]
      simpa [keyword] using h.symm
  rw [Dialect.operators, List.find?_append, hown, Option.or_none]

/-- Unless it stands for ILIKE, a spelling is accepted or refused in both dialects. -/
theorem ofText_inDialect (h : normalize s ≠ "ILIKE") (d d' : Dialect) :
    ofText d' s = (ofText d s).mapError (QueryError.inDialect d') := by
  unfold ofText
  rw [find?_operators h d, find?_operators h d']
  cases base.find? (·.keyword == normalize s) <;> rfl

end Operator

namespace QueryError

variable {e : QueryError}

theorem inDialect_of_direction {direction : String} (h : Direction.ofText direction = .error e)
    (d : Dialect) : e.inDialect d = e := by
  unfold Direction.ofText at h
  split at h
  · cases h
  · cases h
    rfl

theorem inDialect_of_natural {clause : String} {value : Value}
    (h : Query.natural clause value = .error e) (d : Dialect) : e.inDialect d = e := by
  unfold Query.natural at h
  split at h
  · split at h
    · cases h
    · cases h
      rfl
  · cases h
    rfl

theorem inDialect_of_bindOperand {r : Registry} {column : String} {op : Operator} {value : Value}
    (h : (Query.bindOperand r column op value).1 = .error e) (d : Dialect) :
    e.inDialect d = e := by
  unfold Query.bindOperand at h
  split at h
  case h_3 =>
    cases h
    rfl
  all_goals cases h

theorem inDialect_of_target {q : Query} (h : q.target = .error e) (d : Dialect) :
    e.inDialect d = e := by
  unfold Query.target at h
  split at h
  · split at h
    · cases h
      rfl
    · cases h
  · cases h
    rfl

theorem inDialect_of_arrangeAll {columns : List String} {index : Nat} {rows : List Cells}
    (h : Cells.arrangeAll columns index rows = .error e) (d : Dialect) : e.inDialect d = e := by
  rcases Cells.arrangeAll_outcomes columns index rows with
    ⟨all, hall⟩ | ⟨_, _, _, _, _, _, _, herror⟩
  · rw [hall] at h
    cases h
  · rw [herror] at h
    cases h
    rfl

end QueryError

namespace Query

variable (d : Dialect) (q : Query)

theorem join_inDialect {operator : String} (h : Operator.normalize operator ≠ "ILIKE")
    (kind : JoinKind) (table localKey foreignKey : String) :
    (q.inDialect d).join kind table localKey operator foreignKey =
      (q.join kind table localKey operator foreignKey).inDialect d := by
  unfold join
  rw [show (q.inDialect d).dialect = d from rfl, Operator.ofText_inDialect h q.dialect d]
  cases Operator.ofText q.dialect operator <;> rfl

theorem restrict_inDialect {operator : String} (h : Operator.normalize operator ≠ "ILIKE")
    (column : String) (value : Value) (connector : Connector) :
    (q.inDialect d).restrict column operator value connector =
      (q.restrict column operator value connector).inDialect d := by
  unfold restrict
  rw [show (q.inDialect d).dialect = d from rfl, Operator.ofText_inDialect h q.dialect d,
    show (q.inDialect d).registry = q.registry from rfl]
  cases Operator.ofText q.dialect operator with
  | error e => rfl
  | ok op =>
    simp only [Except.mapError]
    cases hbound : bindOperand q.registry (Identifier.escape column) op value with
    | mk outcome r =>
      cases outcome with
      | ok operand => rfl
      | error e =>
        have herror := QueryError.inDialect_of_bindOperand (congrArg Prod.fst hbound) d
        simp only [Attempt.inDialect, Except.mapError, herror]
        rfl

theorem orderBy_inDialect (column direction : String) :
    (q.inDialect d).orderBy column direction = (q.orderBy column direction).inDialect d := by
  unfold orderBy
  cases hdirection : Direction.ofText direction with
  | ok direction => rfl
  | error e =>
    simp only [Attempt.inDialect, Except.mapError, QueryError.inDialect_of_direction hdirection d]

theorem setLimit_inDialect (value : Value) :
    (q.inDialect d).setLimit value = (q.setLimit value).inDialect d := by
  unfold setLimit
  cases hnatural : natural "LIMIT" value with
  | ok n => rfl
  | error e =>
    simp only [Attempt.inDialect, Except.mapError, QueryError.inDialect_of_natural hnatural d]

theorem setOffset_inDialect (value : Value) :
    (q.inDialect d).setOffset value = (q.setOffset value).inDialect d := by
  unfold setOffset
  cases hnatural : natural "OFFSET" value with
  | ok n => rfl
  | error e =>
    simp only [Attempt.inDialect, Except.mapError, QueryError.inDialect_of_natural hnatural d]

theorem stageInsert_inDialect (rows : List Cells) :
    (q.inDialect d).stageInsert rows = (q.stageInsert rows).inDialect d := by
  cases rows with
  | nil => rfl
  | cons first rest =>
    unfold stageInsert
    rw [show (q.inDialect d).target = q.target from rfl]
    cases htarget : q.target with
    | error e =>
      simp only [Attempt.inDialect, Except.mapError, QueryError.inDialect_of_target htarget d]
    | ok table =>
      simp only
      split
      · rfl
      · cases hall : Cells.arrangeAll (first.map (·.1)) 0 (first :: rest) with
        | ok all => rfl
        | error e =>
          simp only [Attempt.inDialect, Except.mapError, QueryError.inDialect_of_arrangeAll hall d]

theorem stageUpdate_inDialect (cells : Cells) :
    (q.inDialect d).stageUpdate cells = (q.stageUpdate cells).inDialect d := by
  cases cells with
  | nil => rfl
  | cons cell rest =>
    unfold stageUpdate
    rw [show (q.inDialect d).target = q.target from rfl]
    cases htarget : q.target with
    | error e =>
      simp only [Attempt.inDialect, Except.mapError, QueryError.inDialect_of_target htarget d]
    | ok table =>
      simp only
      rw [show (q.inDialect d).clauses = q.clauses from rfl]
      split <;> rfl

end Query

namespace Call

/-- The spellings of operators that a call brings. -/
def operators : Call → List String
  | join _ _ _ operator _ => [operator]
  | restrict _ operator _ _ => [operator]
  | _ => []

theorem answer_inDialect {α : Type} (f : α → Reply) (d : Dialect) (a : Attempt α) :
    answer f (a.inDialect d) = (answer f a).inDialect d := by
  obtain ⟨outcome, q⟩ := a
  cases outcome <;> rfl

theorem run_inDialect (d : Dialect) (q : Query) (call : Call)
    (h : ∀ operator ∈ call.operators, Operator.normalize operator ≠ "ILIKE") :
    call.run (q.inDialect d) = (call.run q).inDialect d := by
  cases call with
  | setTable | setSource | project => rfl
  | join kind table localKey operator foreignKey =>
    have hoperator := h operator List.mem_cons_self
    rw [run, q.join_inDialect d hoperator, answer_inDialect, run]
  | restrict column operator value connector =>
    have hoperator := h operator List.mem_cons_self
    rw [run, q.restrict_inDialect d hoperator, answer_inDialect, run]
  | orderBy column direction => rw [run, q.orderBy_inDialect d, answer_inDialect, run]
  | setLimit value => rw [run, q.setLimit_inDialect d, answer_inDialect, run]
  | setOffset value => rw [run, q.setOffset_inDialect d, answer_inDialect, run]
  | stageInsert rows => rw [run, q.stageInsert_inDialect d, answer_inDialect, run]
  | stageUpdate cells => rw [run, q.stageUpdate_inDialect d, answer_inDialect, run]

theorem runAll_inDialect (d : Dialect) (q : Query) (calls : List Call)
    (h : ∀ call ∈ calls, ∀ operator ∈ call.operators, Operator.normalize operator ≠ "ILIKE") :
    runAll calls (q.inDialect d) =
      ((runAll calls q).1.map (·.mapError (QueryError.inDialect d)),
        (runAll calls q).2.inDialect d) := by
  induction calls generalizing q with
  | nil => rfl
  | cons call calls ih =>
    have hrest := ih (call.run q).2 fun c hc => h c (List.mem_cons_of_mem call hc)
    rw [runAll, call.run_inDialect d q (h call List.mem_cons_self)]
    simp only [Attempt.inDialect, hrest, runAll, List.map_cons]

/--
Every run of calls, none of which brings the operator that only one dialect has. The calls are
answered alike in both dialects, up to the dialect that the refusal of an operator names; the
queries at the end differ in the dialect alone, and give the same texts. Where names are neutral,
each of these texts, and each that the run has staged, is bound in both dialects to one list of
values, and becomes the text with the parameters of the dialect in place of its placeholders.
-/
theorem runAll_neutral (calls : List Call)
    (hoperators : ∀ call ∈ calls, ∀ operator ∈ call.operators,
      Operator.normalize operator ≠ "ILIKE") :
    let my := runAll calls { dialect := .mysql }
    let pg := runAll calls { dialect := .postgres }
    pg.1 = my.1.map (·.mapError (QueryError.inDialect .postgres)) ∧
    my.2.dialect = .mysql ∧ pg.2 = { my.2 with dialect := .postgres } ∧
    pg.2.selectText = my.2.selectText ∧ pg.2.countText = my.2.countText ∧
    pg.2.deleteText = my.2.deleteText ∧
    ((∀ call ∈ calls, ∀ name ∈ call.names, Identifier.IsNeutral name) →
      ∀ text, my.2.selectText = .ok text ∨ my.2.countText = .ok text ∨
        my.2.deleteText = .ok text ∨ .ok (.staged (some text)) ∈ my.1 →
      ∃ keys values, my.2.registry.BindsInOrder .mysql text keys values ∧
        pg.2.registry.BindsInOrder .postgres text keys values) := by
  intro my pg
  have hpg : pg = (my.1.map (·.mapError (QueryError.inDialect .postgres)),
      my.2.inDialect .postgres) := runAll_inDialect .postgres { dialect := .mysql } calls hoperators
  rw [hpg]
  refine ⟨rfl, dialect_runAll calls { dialect := .mysql }, rfl, rfl, rfl, rfl, ?_⟩
  intro hnames text htext
  have hgrounded := ((Query.records_empty .mysql).runAll calls).grounded
    (names_runAll calls hnames (by simp [Query.names]))
  have hserves : ∃ keys values, my.2.registry.Serves text keys values := by
    rcases htext with htext | htext | htext | hstaged
    · exact ⟨_, _, hgrounded.serves_of_text (.inl htext)⟩
    · exact ⟨_, _, hgrounded.serves_of_text (.inr (.inl htext))⟩
    · exact ⟨_, _, hgrounded.serves_of_text (.inr (.inr htext))⟩
    · exact exists_serves_of_staged calls hnames (by simp [Query.names])
        (Query.records_empty .mysql) hstaged
  obtain ⟨keys, values, h⟩ := hserves
  exact ⟨keys, values, h.bindsInOrder .mysql, h.bindsInOrder .postgres⟩

/-- A refused operator in between, and an insert whose second row has another order. -/
theorem runAll_neutral_users :
    let calls : List Call := [.setTable "users", .restrict "a" "like" (.text "x") .and,
      .restrict "a" "FOO" .null .or,
      .stageInsert [[("a", .bool true), ("b", .null)], [("b", .null), ("a", .bool false)]]]
    let my := runAll calls { dialect := .mysql }
    let pg := runAll calls { dialect := .postgres }
    let insert := "INSERT INTO users (a, b) VALUES (:a_2, :b_3), (:a_4, :b_5)"
    (∀ call ∈ calls, ∀ operator ∈ call.operators, Operator.normalize operator ≠ "ILIKE") ∧
      (∀ call ∈ calls, ∀ name ∈ call.names, Identifier.IsNeutral name) ∧
      pg.1 = [.ok .done, .ok .done, .error (.unsupportedOperator "FOO" "postgres"),
        .ok (.staged (some insert))] ∧
      ∃ values,
        my.2.registry.bind .mysql insert =
          .ok ⟨"INSERT INTO users (a, b) VALUES (?, ?), (?, ?)", values⟩ ∧
        pg.2.registry.bind .postgres insert =
          .ok ⟨"INSERT INTO users (a, b) VALUES ($1, $2), ($3, $4)", values⟩ := by
  intro calls my pg insert
  have hoperators : ∀ call ∈ calls, ∀ operator ∈ call.operators,
      Operator.normalize operator ≠ "ILIKE" := by
    decide +kernel
  have hnames : ∀ call ∈ calls, ∀ name ∈ call.names, Identifier.IsNeutral name := by
    decide +kernel
  have houtcomes : my.1 = [.ok .done, .ok .done, .error (.unsupportedOperator "FOO" "mysql"),
      .ok (.staged (some insert))] := by
    decide +kernel
  have hstaged : .ok (.staged (some insert)) ∈ my.1 := by
    rw [houtcomes]
    simp
  have hmysql : Placeholder.replaced (fun _ => "?") insert =
      "INSERT INTO users (a, b) VALUES (?, ?), (?, ?)" := by
    decide +kernel
  have hpostgres : Placeholder.replaced (fun i => "$" ++ i.repr) insert =
      "INSERT INTO users (a, b) VALUES ($1, $2), ($3, $4)" := by
    decide +kernel
  obtain ⟨hanswers, _, _, _, _, _, hbinds⟩ := runAll_neutral calls hoperators
  obtain ⟨_, values, hmy, hpg⟩ := hbinds hnames insert (.inr (.inr (.inr hstaged)))
  refine ⟨hoperators, hnames, ?_, values, ?_, ?_⟩
  · calc pg.1
        = my.1.map (·.mapError (QueryError.inDialect .postgres)) := hanswers
      _ = _ := by rw [houtcomes]; rfl
  · rw [← hmysql]
    exact hmy.bound
  · rw [← hpostgres]
    exact hpg.bound

end Call

end BoundQuery
