import BoundQuery.Proofs.Registry
import BoundQuery.Query.Call

/-!
# What each call can do

A call is refused and leaves the query as it was, or it is accepted and changes one part of it.
Values go nowhere but into the registry, one after the other: those of a predicate, of the rows of
an insert, or of an update.
-/

namespace BoundQuery

set_option autoImplicit false

def Value.items : Value → List Value
  | .list items => items
  | value => [value]

/-- The values that a predicate compares with. -/
def Operator.operands (op : Operator) (value : Value) : List Value :=
  if op = .isNull then [] else value.items

namespace Registry

theorem pushRows_eq_pushAll (r : Registry) (columns : List String) (rows : List (List Value)) :
    (r.pushRows columns rows).1.flatten = (r.pushAll (rows.flatMap columns.zip)).1 ∧
      (r.pushRows columns rows).2 = (r.pushAll (rows.flatMap columns.zip)).2 := by
  induction rows generalizing r with
  | nil => exact ⟨rfl, rfl⟩
  | cons values rows ih =>
    obtain ⟨hkeys, hregistry⟩ := ih (r.pushAll (columns.zip values)).2
    rw [List.flatMap_cons, pushAll_append]
    exact ⟨congrArg ((r.pushAll (columns.zip values)).1 ++ ·) hkeys, hregistry⟩

end Registry

namespace Query

open Registry

theorem bindOperand_cases (r : Registry) (column : String) (op : Operator) (value : Value) :
    (∃ e, bindOperand r column op value = (.error e, r)) ∨
      ∃ operand : Operand,
        operand.keys = keysFrom r.counter ((op.operands value).map fun _ => column) ∧
        bindOperand r column op value =
          (.ok operand, (r.pushAll ((op.operands value).map fun v => (column, v))).2) := by
  unfold bindOperand
  split
  next => exact .inr ⟨.none, rfl, rfl⟩
  next => exact .inr ⟨.range _ _, rfl, rfl⟩
  next => exact .inl ⟨_, rfl⟩
  next items hnull _ _ =>
    have hoperands : op.operands (.list items) = items := if_neg hnull
    rw [hoperands]
    refine .inr ⟨.list _, ?_, rfl⟩
    change (r.pushAll (items.map fun item => (column, item))).1 = _
    rw [fst_pushAll, List.map_map]
    rfl
  next hnull _ hlist _ =>
    have hoperands : op.operands value = [value] := by
      rw [Operator.operands, if_neg hnull]
      cases value with
      | list items => exact (hlist items rfl).elim
      | _ => rfl
    rw [hoperands]
    exact .inr ⟨.key _, rfl, rfl⟩

theorem restrict_cases (q : Query) (column operator : String) (value : Value)
    (connector : Connector) :
    (∃ e, q.restrict column operator value connector = (.error e, q)) ∨
      ∃ (op : Operator) (operand : Operand),
        Operator.ofText q.dialect operator = .ok op ∧
        (bindOperand q.registry (Identifier.escape column) op value).1 = .ok operand ∧
        operand.keys = keysFrom q.registry.counter
          ((op.operands value).map fun _ => Identifier.escape column) ∧
        q.restrict column operator value connector =
          (.ok (), { q with
            registry := (q.registry.pushAll
              ((op.operands value).map fun v => (Identifier.escape column, v))).2
            clauses := q.clauses ++ [⟨Identifier.escape column, op, operand, connector⟩] }) := by
  unfold restrict
  cases hop : Operator.ofText q.dialect operator with
  | error e => exact .inl ⟨e, rfl⟩
  | ok op =>
    rcases bindOperand_cases q.registry (Identifier.escape column) op value with
      ⟨e, h⟩ | ⟨operand, hkeys, h⟩
    · exact .inl ⟨e, by simp only [h]⟩
    · exact .inr ⟨op, operand, rfl, by rw [h], hkeys, by simp only [h]⟩

theorem join_cases (q : Query) (kind : JoinKind) (table localKey operator foreignKey : String) :
    (∃ e, q.join kind table localKey operator foreignKey = (.error e, q)) ∨
      ∃ op, Operator.ofText q.dialect operator = .ok op ∧
        q.join kind table localKey operator foreignKey =
          (.ok (), { q with joins := q.joins ++ [⟨kind, Identifier.escape table,
            Identifier.escape localKey, op, Identifier.escape foreignKey⟩] }) := by
  unfold join
  cases Operator.ofText q.dialect operator with
  | error e => exact .inl ⟨e, rfl⟩
  | ok op => exact .inr ⟨op, rfl, rfl⟩

theorem orderBy_cases (q : Query) (column direction : String) :
    (∃ e, q.orderBy column direction = (.error e, q)) ∨
      ∃ d, Direction.ofText direction = .ok d ∧ q.orderBy column direction =
        (.ok (), { q with ordering := q.ordering ++ [⟨Identifier.escape column, d⟩] }) := by
  unfold orderBy
  cases Direction.ofText direction with
  | error e => exact .inl ⟨e, rfl⟩
  | ok d => exact .inr ⟨d, rfl, rfl⟩

theorem setLimit_cases (q : Query) (value : Value) :
    (∃ e, q.setLimit value = (.error e, q)) ∨
      ∃ n, natural "LIMIT" value = .ok n ∧
        q.setLimit value = (.ok (), { q with limit := some n }) := by
  unfold setLimit
  cases natural "LIMIT" value with
  | error e => exact .inl ⟨e, rfl⟩
  | ok n => exact .inr ⟨n, rfl, rfl⟩

theorem setOffset_cases (q : Query) (value : Value) :
    (∃ e, q.setOffset value = (.error e, q)) ∨
      ∃ n, natural "OFFSET" value = .ok n ∧
        q.setOffset value = (.ok (), { q with offset := some n }) := by
  unfold setOffset
  cases natural "OFFSET" value with
  | error e => exact .inl ⟨e, rfl⟩
  | ok n => exact .inr ⟨n, rfl, rfl⟩

/-- The rows are staged, and their values registered row by row. -/
def StagesInsert (q : Query) (rows : List Cells) : Prop :=
  ∃ first rest table values, rows = first :: rest ∧ q.target = .ok table ∧
    first.map (·.1) ≠ [] ∧ Cells.arrangeAll (first.map (·.1)) 0 rows = .ok values ∧
    q.stageInsert rows =
      (.ok (some (insertText table (first.map (·.1))
          (q.registry.pushRows (first.map (·.1)) values).1)),
        { q with registry := (q.registry.pushAll (values.flatMap (first.map (·.1)).zip)).2 })

theorem stageInsert_outcomes (q : Query) (rows : List Cells) :
    rows = [] ∧ q.stageInsert rows = (.ok none, q) ∨
      (∃ e, q.stageInsert rows = (.error e, q)) ∨
      q.StagesInsert rows := by
  unfold StagesInsert stageInsert
  cases rows with
  | nil => exact .inl ⟨rfl, rfl⟩
  | cons first rest =>
    right
    cases htarget : q.target with
    | error e => exact .inl ⟨e, rfl⟩
    | ok table =>
      simp only
      split
      next => exact .inl ⟨_, rfl⟩
      next hne =>
        cases hvalues : Cells.arrangeAll (first.map (·.1)) 0 (first :: rest) with
        | error e => exact .inl ⟨e, rfl⟩
        | ok values =>
          refine .inr ⟨first, rest, table, values, rfl, rfl, hne, hvalues, ?_⟩
          simp only [(pushRows_eq_pushAll q.registry (first.map (·.1)) values).2]

theorem stageInsert_cases (q : Query) (rows : List Cells) :
    (q.stageInsert rows).2 = q ∧ (∀ text, (q.stageInsert rows).1 ≠ .ok (some text)) ∨
      q.StagesInsert rows := by
  rcases q.stageInsert_outcomes rows with ⟨_, h⟩ | ⟨e, h⟩ | hstaged
  · rw [h]
    exact .inl ⟨rfl, fun _ h => nomatch h⟩
  · rw [h]
    exact .inl ⟨rfl, fun _ h => nomatch h⟩
  · exact .inr hstaged

/-- The text of an update, whose assignments get the next keys. -/
def updateText (q : Query) (table : String) (cells : Cells) : String :=
  "UPDATE " ++ table ++ " SET " ++ String.intercalate ", "
    ((cells.zip (keysFrom q.registry.counter (cells.map (·.1)))).map
      fun (cell, key) => assignmentText cell.1 key) ++ q.tailText

def StagesUpdate (q : Query) (cells : Cells) : Prop :=
  ∃ table, q.target = .ok table ∧ cells ≠ [] ∧ q.clauses ≠ [] ∧
    q.stageUpdate cells =
      (.ok (some (q.updateText table cells)), { q with registry := (q.registry.pushAll cells).2 })

theorem stageUpdate_outcomes (q : Query) (cells : Cells) :
    cells = [] ∧ q.stageUpdate cells = (.ok none, q) ∨
      (∃ e, q.stageUpdate cells = (.error e, q)) ∨
      q.StagesUpdate cells := by
  unfold StagesUpdate stageUpdate
  cases cells with
  | nil => exact .inl ⟨rfl, rfl⟩
  | cons cell rest =>
    right
    cases htarget : q.target with
    | error e => exact .inl ⟨e, rfl⟩
    | ok table =>
      simp only
      split
      next => exact .inl ⟨_, rfl⟩
      next hne =>
        refine .inr ⟨table, rfl, List.cons_ne_nil _ _, hne, ?_⟩
        rw [updateText, ← fst_pushAll]

theorem stageUpdate_cases (q : Query) (cells : Cells) :
    (q.stageUpdate cells).2 = q ∧ (∀ text, (q.stageUpdate cells).1 ≠ .ok (some text)) ∨
      q.StagesUpdate cells := by
  rcases q.stageUpdate_outcomes cells with ⟨_, h⟩ | ⟨e, h⟩ | hstaged
  · rw [h]
    exact .inl ⟨rfl, fun _ h => nomatch h⟩
  · rw [h]
    exact .inl ⟨rfl, fun _ h => nomatch h⟩
  · exact .inr hstaged

end Query

namespace Call

open Query Registry

/-- What an accepted call answers, and what it makes of a query. -/
inductive Effect (q : Query) : Call → Reply → Query → Prop
  | setTable (name : String) :
      Effect q (.setTable name) .done { q with table := some (Identifier.escape name) }
  | setSource (name : String) :
      Effect q (.setSource name) .done { q with source := some (Identifier.escape name) }
  | project (columns : List String) :
      Effect q (.project columns) .done { q with projection := columns.map Identifier.escape }
  | join (kind : JoinKind) (table localKey foreignKey : String) {operator : String}
      {op : Operator} (hop : Operator.ofText q.dialect operator = .ok op) :
      Effect q (.join kind table localKey operator foreignKey) .done
        { q with joins := q.joins ++ [⟨kind, Identifier.escape table, Identifier.escape localKey,
          op, Identifier.escape foreignKey⟩] }
  | restrict (column : String) (connector : Connector) {operator : String} {value : Value}
      {op : Operator} {operand : Operand} (hop : Operator.ofText q.dialect operator = .ok op)
      (hbound : (bindOperand q.registry (Identifier.escape column) op value).1 = .ok operand)
      (hkeys : operand.keys = keysFrom q.registry.counter
        ((op.operands value).map fun _ => Identifier.escape column)) :
      Effect q (.restrict column operator value connector) .done
        { q with
          registry := (q.registry.pushAll
            ((op.operands value).map fun v => (Identifier.escape column, v))).2
          clauses := q.clauses ++ [⟨Identifier.escape column, op, operand, connector⟩] }
  | orderBy (column : String) {direction : String} {d : Direction}
      (hd : Direction.ofText direction = .ok d) :
      Effect q (.orderBy column direction) .done
        { q with ordering := q.ordering ++ [⟨Identifier.escape column, d⟩] }
  | setLimit {value : Value} {n : Nat} (hn : natural "LIMIT" value = .ok n) :
      Effect q (.setLimit value) .done { q with limit := some n }
  | setOffset {value : Value} {n : Nat} (hn : natural "OFFSET" value = .ok n) :
      Effect q (.setOffset value) .done { q with offset := some n }
  | stageNoRows : Effect q (.stageInsert []) (.staged none) q
  | stageInsert {first : Cells} {rest : List Cells} {table : String} {all : List (List Value)}
      (htarget : q.target = .ok table) (hne : first.map (·.1) ≠ [])
      (hall : Cells.arrangeAll (first.map (·.1)) 0 (first :: rest) = .ok all) :
      Effect q (.stageInsert (first :: rest))
        (.staged (some (insertText table (first.map (·.1))
          (q.registry.pushRows (first.map (·.1)) all).1)))
        { q with registry := (q.registry.pushAll (all.flatMap (first.map (·.1)).zip)).2 }
  | stageNoCells : Effect q (.stageUpdate []) (.staged none) q
  | stageUpdate {cells : Cells} {table : String} (htarget : q.target = .ok table)
      (hne : cells ≠ []) (hclauses : q.clauses ≠ []) :
      Effect q (.stageUpdate cells)
        (.staged (some (q.updateText table cells)))
        { q with registry := (q.registry.pushAll cells).2 }

/-- A call is refused and leaves the query as it was, or it has its effect. -/
theorem run_outcomes (call : Call) (q : Query) :
    (∃ e, call.run q = (.error e, q)) ∨
      ∃ reply q', call.run q = (.ok reply, q') ∧ Effect q call reply q' := by
  cases call with
  | setTable name => exact .inr ⟨_, _, rfl, .setTable name⟩
  | setSource name => exact .inr ⟨_, _, rfl, .setSource name⟩
  | project columns => exact .inr ⟨_, _, rfl, .project columns⟩
  | join kind table localKey operator foreignKey =>
    rcases q.join_cases kind table localKey operator foreignKey with ⟨e, h⟩ | ⟨op, hop, h⟩
    · exact .inl ⟨e, by rw [run, answer, h]; rfl⟩
    · exact .inr ⟨_, _, by rw [run, answer, h]; rfl, .join kind table localKey foreignKey hop⟩
  | restrict column operator value connector =>
    rcases q.restrict_cases column operator value connector with
      ⟨e, h⟩ | ⟨op, operand, hop, hbound, hkeys, h⟩
    · exact .inl ⟨e, by rw [run, answer, h]; rfl⟩
    · exact .inr ⟨_, _, by rw [run, answer, h]; rfl, .restrict column connector hop hbound hkeys⟩
  | orderBy column direction =>
    rcases q.orderBy_cases column direction with ⟨e, h⟩ | ⟨d, hd, h⟩
    · exact .inl ⟨e, by rw [run, answer, h]; rfl⟩
    · exact .inr ⟨_, _, by rw [run, answer, h]; rfl, .orderBy column hd⟩
  | setLimit value =>
    rcases q.setLimit_cases value with ⟨e, h⟩ | ⟨n, hn, h⟩
    · exact .inl ⟨e, by rw [run, answer, h]; rfl⟩
    · exact .inr ⟨_, _, by rw [run, answer, h]; rfl, .setLimit hn⟩
  | setOffset value =>
    rcases q.setOffset_cases value with ⟨e, h⟩ | ⟨n, hn, h⟩
    · exact .inl ⟨e, by rw [run, answer, h]; rfl⟩
    · exact .inr ⟨_, _, by rw [run, answer, h]; rfl, .setOffset hn⟩
  | stageInsert rows =>
    rcases q.stageInsert_outcomes rows with
      ⟨rfl, h⟩ | ⟨e, h⟩ | ⟨first, rest, table, all, rfl, htarget, hne, hall, h⟩
    · exact .inr ⟨_, _, by rw [run, answer, h]; rfl, .stageNoRows⟩
    · exact .inl ⟨e, by rw [run, answer, h]; rfl⟩
    · exact .inr ⟨_, _, by rw [run, answer, h]; rfl, .stageInsert htarget hne hall⟩
  | stageUpdate cells =>
    rcases q.stageUpdate_outcomes cells with
      ⟨rfl, h⟩ | ⟨e, h⟩ | ⟨table, htarget, hne, hclauses, h⟩
    · exact .inr ⟨_, _, by rw [run, answer, h]; rfl, .stageNoCells⟩
    · exact .inl ⟨e, by rw [run, answer, h]; rfl⟩
    · exact .inr ⟨_, _, by rw [run, answer, h]; rfl, .stageUpdate htarget hne hclauses⟩

theorem dialect_run (call : Call) (q : Query) : (call.run q).2.dialect = q.dialect := by
  rcases call.run_outcomes q with ⟨e, h⟩ | ⟨reply, q', h, heffect⟩
  · rw [h]
  · rw [h]
    cases heffect <;> rfl

theorem dialect_runAll (calls : List Call) (q : Query) :
    (runAll calls q).2.dialect = q.dialect := by
  induction calls generalizing q with
  | nil => rfl
  | cons call calls ih => exact (ih (call.run q).2).trans (call.dialect_run q)

end Call

end BoundQuery
