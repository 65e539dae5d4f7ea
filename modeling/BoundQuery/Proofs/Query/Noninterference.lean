import BoundQuery.Proofs.Placeholder
import BoundQuery.Proofs.Query.Calls
import Mathlib.Data.List.Forall2

/-!
# Values have no influence on texts

Blanking replaces every value by null and keeps how many there are. It commutes with each call: a
run on blanked values gives the same answers, the same keys and, blanked, the same query. So two
runs that are the same once blanked cannot be told apart by an error, a key or a text.
-/

namespace BoundQuery

set_option autoImplicit false

/-- Null, or as many nulls as a list has items. -/
def Value.blank : Value → Value
  | .list items => .list (items.map fun _ => .null)
  | _ => .null

/-- Both are no list, or both are lists of one length. -/
def Value.SameShape : Value → Value → Prop
  | .list items, .list others => items.length = others.length
  | .list _, _ | _, .list _ => False
  | _, _ => True

theorem Value.SameShape.blank_eq {value other : Value} (h : value.SameShape other) :
    value.blank = other.blank := by
  cases value <;> cases other <;> first | rfl | exact h.elim | skip
  case list.list items others =>
    have hlength : items.length = others.length := h
    simp [Value.blank, List.map_const', hlength]

def Cells.blank (cells : Cells) : Cells := cells.map fun cell => (cell.1, .null)

theorem Cells.blank_eq_map_names (cells : Cells) :
    cells.blank = (cells.map (·.1)).map fun name => (name, .null) := by
  rw [blank, List.map_map]
  rfl

theorem Cells.map_fst_blank (cells : Cells) : cells.blank.map (·.1) = cells.map (·.1) := by
  simp [blank]

namespace Registry

def blank (r : Registry) : Registry where
  entries := Cells.blank r.entries
  counter := r.counter
  distinct := (Cells.map_fst_blank r.entries).symm ▸ r.distinct

theorem keys_blank (r : Registry) : r.blank.keys = r.keys := Cells.map_fst_blank r.entries

theorem assign_blank (key : String) (value : Value) (entries : List (String × Value)) :
    assign key .null (Cells.blank entries) = Cells.blank (assign key value entries) := by
  induction entries with
  | nil => rfl
  | cons entry rest ih =>
    obtain ⟨k, v⟩ := entry
    by_cases h : k = key
    · simp [assign, Cells.blank, h]
    · simpa [assign, Cells.blank, h] using ih

theorem push_blank (r : Registry) (column : String) (value : Value) :
    r.blank.push column .null = ((r.push column value).1, (r.push column value).2.blank) := by
  have hassign := assign_blank (keyOf column (r.counter + 1)) value r.entries
  simp only [push, generate, register, blank, hassign]

theorem pushAll_blank (r : Registry) (cells : Cells) :
    r.blank.pushAll cells.blank = ((r.pushAll cells).1, (r.pushAll cells).2.blank) := by
  induction cells generalizing r with
  | nil => rfl
  | cons cell rest ih =>
    have hpush := r.push_blank cell.1 cell.2
    have hrest := ih (r.push cell.1 cell.2).2
    rw [show Cells.blank (cell :: rest) = (cell.1, .null) :: Cells.blank rest from rfl,
      pushAll_cons, pushAll_cons, hpush, hrest]

theorem zip_blank (columns : List String) (values : List Value) :
    columns.zip (values.map fun _ => .null) = Cells.blank (columns.zip values) := by
  rw [List.zip_map_right]
  rfl

theorem pushRows_blank (r : Registry) (columns : List String) (all : List (List Value)) :
    r.blank.pushRows columns (all.map fun values => values.map fun _ => .null) =
      ((r.pushRows columns all).1, (r.pushRows columns all).2.blank) := by
  induction all generalizing r with
  | nil => rfl
  | cons values all ih =>
    have hrow := r.pushAll_blank (columns.zip values)
    have hrest := ih (r.pushAll (columns.zip values)).2
    rw [← zip_blank] at hrow
    simp only [List.map_cons, pushRows, hrow, hrest]

theorem get?_blank (r : Registry) (key : String) :
    r.blank.get? key = (r.get? key).map fun _ => .null := by
  unfold get? blank
  simp only
  induction r.entries with
  | nil => rfl
  | cons entry rest ih =>
    rw [show Cells.blank (entry :: rest) = (entry.1, .null) :: Cells.blank rest from rfl,
      lookup_cons_eq, lookup_cons_eq entry.1 key entry.2 rest, ih]
    split <;> rfl

theorem place_blank (d : Dialect) (parameters : Cells) (key : String) (value : Value) :
    d.place parameters.blank key .null =
      ((d.place parameters key value).1, Cells.blank (d.place parameters key value).2) := by
  cases d with
  | mysql => simp [Dialect.place, Cells.blank]
  | postgres =>
    have hfind : parameters.blank.findIdx? (·.1 == key) = parameters.findIdx? (·.1 == key) := by
      rw [Cells.blank, List.findIdx?_map]
      rfl
    unfold Dialect.place
    simp only [hfind]
    cases parameters.findIdx? (·.1 == key) with
    | some i => rfl
    | none => simp [Cells.blank]

theorem fill_blank (lookup : String → Option Value) (d : Dialect) (parameters : Cells)
    (ps : List Piece) :
    fill (fun key => (lookup key).map fun _ => .null) d parameters.blank ps =
      (fill lookup d parameters ps).map fun filled => (filled.1, Cells.blank filled.2) := by
  induction ps generalizing parameters with
  | nil => rfl
  | cons piece rest ih =>
    cases piece with
    | char c =>
      rw [fill, fill, ih]
      cases fill lookup d parameters rest <;> rfl
    | key name =>
      rw [fill, fill]
      cases lookup name with
      | none => rfl
      | some value =>
        simp only [Option.map_some, place_blank d parameters name value, ih]
        cases fill lookup d (d.place parameters name value).2 rest <;> rfl

/-- Binding gives one text and one number of parameters, whatever the values are. -/
theorem bind_blank (r : Registry) (d : Dialect) (sql : String) :
    r.blank.bind d sql =
      (r.bind d sql).map fun bound => ⟨bound.sql, bound.values.map fun _ => .null⟩ := by
  have hget : r.blank.get? = fun key => (r.get? key).map fun _ => .null := funext r.get?_blank
  have hfill := fill_blank r.get? d [] (Placeholder.scan sql)
  rw [bind_eq_fill, bind_eq_fill, hget, show ([] : Cells) = Cells.blank [] from rfl, hfill]
  simp only [show Cells.blank [] = [] from rfl]
  cases fill r.get? d [] (Placeholder.scan sql) with
  | error e => rfl
  | ok filled => simp [Except.map, Cells.blank]

end Registry

namespace Cells

theorem takeOut?_blank (column : String) (cells : Cells) :
    cells.blank.takeOut? column =
      (cells.takeOut? column).map fun taken => (.null, blank taken.2) := by
  have hfind : cells.blank.findIdx? (·.1 == column) = cells.findIdx? (·.1 == column) := by
    rw [blank, List.findIdx?_map]
    rfl
  have hlast : cells.blank.getLast? = cells.getLast?.map fun cell => (cell.1, .null) :=
    List.getLast?_map
  unfold takeOut?
  rw [hfind, hlast]
  cases cells.findIdx? (·.1 == column) with
  | none => rfl
  | some i =>
    cases cells.getLast? with
    | none => rfl
    | some last =>
      simp only [Option.map_some]
      rw [blank, List.getElem?_map, Option.map_map, Option.map_map]
      congr 1
      funext cell
      simp [blank, List.map_dropLast, List.map_set]

theorem arrange_blank (index : Nat) (columns : List String) (cells : Cells) :
    arrange index columns cells.blank =
      (arrange index columns cells).map fun values => values.map fun _ => .null := by
  induction columns generalizing cells with
  | nil => rfl
  | cons column columns ih =>
    rw [arrange, arrange, takeOut?_blank]
    cases cells.takeOut? column with
    | none => rfl
    | some taken =>
      obtain ⟨value, rest⟩ := taken
      simp only [Option.map_some, ih rest]
      cases arrange index columns rest <;> rfl

theorem arrangeRow_blank (columns : List String) (index : Nat) (cells : Cells) :
    arrangeRow columns index cells.blank =
      (arrangeRow columns index cells).map fun values => values.map fun _ => .null := by
  unfold arrangeRow
  rw [show cells.blank.length = cells.length from List.length_map _]
  split
  · exact arrange_blank index columns cells
  · rfl

theorem arrangeAll_blank (columns : List String) (index : Nat) (rows : List Cells) :
    arrangeAll columns index (rows.map blank) =
      (arrangeAll columns index rows).map fun all =>
        all.map fun values => values.map fun _ => .null := by
  induction rows generalizing index with
  | nil => rfl
  | cons row rows ih =>
    rw [List.map_cons, arrangeAll, arrangeAll, arrangeRow_blank]
    cases arrangeRow columns index row with
    | error e => rfl
    | ok values =>
      simp only [Except.map, ih (index + 1)]
      cases arrangeAll columns (index + 1) rows <;> rfl

end Cells

namespace Query

def blank (q : Query) : Query := { q with registry := q.registry.blank }

@[simp] theorem keys_blank (q : Query) : q.blank.registry.keys = q.registry.keys :=
  q.registry.keys_blank

@[simp] theorem clauses_blank (q : Query) : q.blank.clauses = q.clauses := rfl

@[simp] theorem selectText_blank (q : Query) : q.blank.selectText = q.selectText := rfl

@[simp] theorem countText_blank (q : Query) : q.blank.countText = q.countText := rfl

@[simp] theorem deleteText_blank (q : Query) : q.blank.deleteText = q.deleteText := rfl

theorem bindOperand_list {op : Operator} (hnull : op ≠ .isNull) (hbetween : op ≠ .between)
    (r : Registry) (column : String) (items : List Value) :
    bindOperand r column op (.list items) =
      (.ok (.list (r.pushAll (items.map fun item => (column, item))).1),
        (r.pushAll (items.map fun item => (column, item))).2) := by
  cases op <;> first | rfl | contradiction

theorem bindOperand_scalar {op : Operator} (hnull : op ≠ .isNull) (hbetween : op ≠ .between)
    (r : Registry) (column : String) {value : Value} (hvalue : ∀ items, value ≠ .list items) :
    bindOperand r column op value =
      (.ok (.key (r.push column value).1), (r.push column value).2) := by
  unfold bindOperand
  split
  next => contradiction
  next => contradiction
  next => contradiction
  next items _ _ _ => exact absurd rfl (hvalue items)
  next => rfl

theorem bindOperand_between (r : Registry) (column : String) (low high : Value) :
    bindOperand r column .between (.list [low, high]) =
      (.ok (.range (r.push column low).1 ((r.push column low).2.push column high).1),
        ((r.push column low).2.push column high).2) := rfl

theorem bindOperand_blank (r : Registry) (column : String) (op : Operator) (value : Value) :
    bindOperand r.blank column op value.blank =
      ((bindOperand r column op value).1, (bindOperand r column op value).2.blank) := by
  by_cases hnull : op = .isNull
  · subst hnull
    rfl
  by_cases hbetween : op = .between
  · subst hbetween
    cases value with
    | list items =>
      rcases items with _ | ⟨low, _ | ⟨high, _ | ⟨_, _⟩⟩⟩
      · rfl
      · rfl
      · have hlow := r.push_blank column low
        have hhigh := (r.push column low).2.push_blank column high
        rw [show (Value.list [low, high]).blank = .list [.null, .null] from rfl,
          bindOperand_between, bindOperand_between, hlow, hhigh]
      · rfl
    | _ => rfl
  by_cases hlist : ∃ items, value = .list items
  · obtain ⟨items, rfl⟩ := hlist
    have hcells : (items.map fun _ => Value.null).map (fun item => (column, item)) =
        Cells.blank (items.map fun item => (column, item)) := by
      rw [Cells.blank, List.map_map, List.map_map]
      rfl
    have hpushed := r.pushAll_blank (items.map fun item => (column, item))
    rw [Value.blank, bindOperand_list hnull hbetween, bindOperand_list hnull hbetween, hcells,
      hpushed]
  · have hvalue : ∀ items, value ≠ .list items := fun items h => hlist ⟨items, h⟩
    have hblank : value.blank = .null := by
      cases value with
      | list items => exact absurd rfl (hvalue items)
      | _ => rfl
    have hpushed := r.push_blank column value
    rw [hblank, bindOperand_scalar hnull hbetween r column hvalue,
      bindOperand_scalar hnull hbetween r.blank column (by intro items h; cases h), hpushed]

theorem restrict_blank (q : Query) (column operator : String) (value : Value)
    (connector : Connector) :
    q.blank.restrict column operator value.blank connector =
      ((q.restrict column operator value connector).1,
        (q.restrict column operator value connector).2.blank) := by
  unfold restrict
  rw [show q.blank.dialect = q.dialect from rfl]
  cases Operator.ofText q.dialect operator with
  | error e => rfl
  | ok op =>
    have hbound := bindOperand_blank q.registry (Identifier.escape column) op value
    simp only
    rw [show q.blank.registry = q.registry.blank from rfl, hbound]
    cases bindOperand q.registry (Identifier.escape column) op value with
    | mk outcome r => cases outcome <;> rfl

theorem restrict_isNull {q : Query} {operator : String}
    (hop : Operator.ofText q.dialect operator = .ok .isNull) (column : String)
    (value other : Value) (connector : Connector) :
    q.restrict column operator value connector = q.restrict column operator other connector := by
  unfold restrict
  rw [hop]
  rfl

theorem orderBy_blank (q : Query) (column direction : String) :
    q.blank.orderBy column direction =
      ((q.orderBy column direction).1, (q.orderBy column direction).2.blank) := by
  unfold orderBy
  cases Direction.ofText direction <;> rfl

theorem setLimit_blank (q : Query) (value : Value) :
    q.blank.setLimit value = ((q.setLimit value).1, (q.setLimit value).2.blank) := by
  unfold setLimit
  cases natural "LIMIT" value <;> rfl

theorem setOffset_blank (q : Query) (value : Value) :
    q.blank.setOffset value = ((q.setOffset value).1, (q.setOffset value).2.blank) := by
  unfold setOffset
  cases natural "OFFSET" value <;> rfl

theorem stageInsert_blank (q : Query) (rows : List Cells) :
    q.blank.stageInsert (rows.map Cells.blank) =
      ((q.stageInsert rows).1, (q.stageInsert rows).2.blank) := by
  cases rows with
  | nil => rfl
  | cons first rest =>
    have hcolumns : first.blank.map (·.1) = first.map (·.1) := by
      rw [Cells.blank, List.map_map]
      rfl
    have hall := Cells.arrangeAll_blank (first.map (·.1)) 0 (first :: rest)
    rw [List.map_cons] at hall
    unfold stageInsert
    rw [List.map_cons, show q.blank.target = q.target from rfl]
    cases q.target with
    | error e => rfl
    | ok table =>
      simp only [hcolumns, hall]
      split
      next => rfl
      next =>
        cases Cells.arrangeAll (first.map (·.1)) 0 (first :: rest) with
        | error e => rfl
        | ok values =>
          have hpushed := q.registry.pushRows_blank (first.map (·.1)) values
          simp only [Except.map]
          rw [show q.blank.registry = q.registry.blank from rfl, hpushed]
          rfl

theorem stageUpdate_blank (q : Query) (cells : Cells) :
    q.blank.stageUpdate cells.blank =
      ((q.stageUpdate cells).1, (q.stageUpdate cells).2.blank) := by
  cases cells with
  | nil => rfl
  | cons cell rest =>
    have hpushed := q.registry.pushAll_blank (cell :: rest)
    have htext (keys : List String) (text : (String × Value) × String → String)
        (hnames : ∀ cell key, text ((cell.1, .null), key) = text (cell, key)) :
        ((Cells.blank (cell :: rest)).zip keys).map text =
          ((cell :: rest).zip keys).map text := by
      rw [Cells.blank, List.zip_map_left, List.map_map]
      apply List.map_congr_left
      intro pair _
      exact hnames pair.1 pair.2
    have hcons : Cells.blank (cell :: rest) = (cell.1, .null) :: Cells.blank rest := rfl
    unfold stageUpdate
    rw [hcons]
    simp only [← hcons]
    rw [show q.blank.target = q.target from rfl, show q.blank.clauses = q.clauses from rfl,
      show q.blank.registry = q.registry.blank from rfl, hpushed]
    cases q.target with
    | error e => rfl
    | ok table =>
      simp only
      rw [htext _ _ fun _ _ => rfl]
      split
      next => rfl
      next => rfl

end Query

namespace Call

def blank : Call → Call
  | restrict column operator value connector => restrict column operator value.blank connector
  | stageInsert rows => stageInsert (rows.map Cells.blank)
  | stageUpdate cells => stageUpdate cells.blank
  | call => call

/-- One call: the blanked call on the blanked query answers the same, and leaves it blanked. -/
theorem run_blank (call : Call) (q : Query) :
    call.blank.run q.blank = ((call.run q).1, (call.run q).2.blank) := by
  cases call with
  | setTable name => rfl
  | setSource name => rfl
  | project columns => rfl
  | join kind table localKey operator foreignKey =>
    simp only [blank, run, answer, Query.join]
    rw [show q.blank.dialect = q.dialect from rfl]
    cases Operator.ofText q.dialect operator <;> rfl
  | restrict column operator value connector =>
    simp only [blank, run, answer, q.restrict_blank]
  | orderBy column direction => simp only [blank, run, answer, q.orderBy_blank]
  | setLimit value => simp only [blank, run, answer, q.setLimit_blank]
  | setOffset value => simp only [blank, run, answer, q.setOffset_blank]
  | stageInsert rows => simp only [blank, run, answer, q.stageInsert_blank]
  | stageUpdate cells => simp only [blank, run, answer, q.stageUpdate_blank]

/--
Two calls that differ at most in values: of a predicate, where they have one shape or the operator
compares with nothing; of the cells of an insert or an update, under the same names.
-/
inductive Alike (d : Dialect) : Call → Call → Prop
  | same (call : Call) : Alike d call call
  | restrict (column operator : String) {value other : Value} (connector : Connector)
      (h : value.SameShape other ∨ Operator.ofText d operator = .ok .isNull) :
      Alike d (.restrict column operator value connector)
        (.restrict column operator other connector)
  | stageInsert {rows others : List Cells}
      (h : rows.map (·.map (·.1)) = others.map (·.map (·.1))) :
      Alike d (.stageInsert rows) (.stageInsert others)
  | stageUpdate {cells others : Cells} (h : cells.map (·.1) = others.map (·.1)) :
      Alike d (.stageUpdate cells) (.stageUpdate others)

theorem run_eq_of_blank_eq {call other : Call} {q q' : Query} (hcalls : call.blank = other.blank)
    (hquery : q.blank = q'.blank) :
    (call.run q).1 = (other.run q').1 ∧ (call.run q).2.blank = (other.run q').2.blank := by
  have hruns : call.blank.run q.blank = other.blank.run q'.blank := by rw [hcalls, hquery]
  rw [run_blank, run_blank] at hruns
  exact Prod.mk.inj hruns

theorem Alike.run {call other : Call} {q q' : Query} (h : Alike q.dialect call other)
    (hquery : q.blank = q'.blank) :
    (call.run q).1 = (other.run q').1 ∧ (call.run q).2.blank = (other.run q').2.blank := by
  cases h with
  | same => exact run_eq_of_blank_eq rfl hquery
  | restrict column operator connector h =>
    rename_i value other
    rcases h with hshape | hnull
    · apply run_eq_of_blank_eq _ hquery
      rw [blank, blank, hshape.blank_eq]
    · have hvalue : (Call.restrict column operator value connector).run q =
          (Call.restrict column operator other connector).run q := by
        rw [Call.run, Call.run, Query.restrict_isNull hnull column value other connector]
      rw [hvalue]
      exact run_eq_of_blank_eq rfl hquery
  | stageInsert h =>
    rename_i rows others
    apply run_eq_of_blank_eq _ hquery
    have hnames (rows : List Cells) : rows.map Cells.blank =
        (rows.map (·.map (·.1))).map (·.map fun name => (name, Value.null)) := by
      rw [List.map_map]
      apply List.map_congr_left
      intro row _
      exact row.blank_eq_map_names
    rw [blank, blank, hnames rows, h, hnames others]
  | stageUpdate h =>
    rename_i cells others
    apply run_eq_of_blank_eq _ hquery
    rw [blank, blank, cells.blank_eq_map_names, h, ← Cells.blank_eq_map_names]

theorem runAll_blank_eq {calls others : List Call} {q q' : Query}
    (h : List.Forall₂ (Alike q.dialect) calls others) (hquery : q.blank = q'.blank) :
    (runAll calls q).1 = (runAll others q').1 ∧
      (runAll calls q).2.blank = (runAll others q').2.blank := by
  induction calls generalizing others q q' with
  | nil =>
    cases h
    exact ⟨rfl, hquery⟩
  | cons call calls ih =>
    cases h with
    | cons hcall hcalls =>
      rename_i other others
      obtain ⟨hanswer, hstep⟩ := hcall.run hquery
      have hdialect := call.dialect_run q
      rw [← hdialect] at hcalls
      obtain ⟨hanswers, hend⟩ := ih hcalls hstep
      exact ⟨List.cons_eq_cons.mpr ⟨hanswer, hanswers⟩, hend⟩

/--
After any number of calls, two runs of alike calls from one query have accepted and refused at the
same positions with the same errors and staged the same texts, and every text of the two queries,
every key and every predicate is the same.
-/
theorem runAll_of_alike (q : Query) {calls others : List Call}
    (h : List.Forall₂ (Alike q.dialect) calls others) (n : Nat) :
    let run := runAll (calls.take n) q
    let other := runAll (others.take n) q
    run.1 = other.1 ∧ run.2.registry.keys = other.2.registry.keys ∧
      run.2.clauses = other.2.clauses ∧ run.2.selectText = other.2.selectText ∧
      run.2.countText = other.2.countText ∧ run.2.deleteText = other.2.deleteText := by
  intro run other
  have hprefix := List.forall₂_take n h
  obtain ⟨hanswers, hblank⟩ := runAll_blank_eq hprefix (Eq.refl q.blank)
  have hkeys := congrArg (·.registry.keys) hblank
  have hclauses := congrArg Query.clauses hblank
  have hselect := congrArg Query.selectText hblank
  have hcount := congrArg Query.countText hblank
  have hdelete := congrArg Query.deleteText hblank
  simp only [Query.keys_blank, Query.clauses_blank, Query.selectText_blank, Query.countText_blank,
    Query.deleteText_blank] at hkeys hclauses hselect hcount hdelete
  exact ⟨hanswers, hkeys, hclauses, hselect, hcount, hdelete⟩

/-- A list and another of its length, a null that is not looked at, and a refused pair. -/
theorem runAll_of_alike_users :
    let calls : List Call := [.setTable "users",
      .restrict "id" "in" (.list [.int 1, .text "x"]) .and,
      .restrict "gone" "is null" (.text "y") .and,
      .restrict "age" "between" (.bool true) .or,
      .stageUpdate [("name", .text "a' OR 1=1")]]
    let others : List Call := [.setTable "users",
      .restrict "id" "in" (.list [.null, .bool false]) .and,
      .restrict "gone" "is null" (.list []) .and,
      .restrict "age" "between" (.text "z") .or,
      .stageUpdate [("name", .null)]]
    let run := runAll (calls.take 5) { dialect := .postgres }
    let other := runAll (others.take 5) { dialect := .postgres }
    List.Forall₂ (Alike .postgres) calls others ∧ run.1 = other.1 ∧
      run.2.registry.keys = other.2.registry.keys ∧ run.2.selectText = other.2.selectText := by
  intro calls others run other
  have hnull : Operator.ofText .postgres "is null" = .ok .isNull := by decide +kernel
  have halike : List.Forall₂ (Alike .postgres) calls others := by
    refine .cons (.same _) (.cons ?_ (.cons ?_ (.cons ?_ (.cons ?_ .nil))))
    · exact .restrict _ _ _ (.inl rfl)
    · exact .restrict _ _ _ (.inr hnull)
    · exact .restrict _ _ _ (.inl trivial)
    · exact .stageUpdate rfl
  obtain ⟨hanswers, hkeys, _, hselect, _⟩ :=
    runAll_of_alike { dialect := .postgres } halike 5
  exact ⟨halike, hanswers, hkeys, hselect⟩

end Call

end BoundQuery
