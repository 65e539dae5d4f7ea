import BoundQuery.Proofs.Query.Records
import Mathlib.Control.Monad.Basic

/-!
# Binding the statements of a query

Where all names are neutral, binding a statement of a query succeeds in both dialects, and the
values are those of the accepted predicates in the order of the calls, behind those of the
assignments if it is an update. What earlier inserts and updates have registered is never among
them. The registry keeps what it has registered for a statement, so what is staged during a run can
still be bound at its end.
-/

namespace BoundQuery

set_option autoImplicit false

open Placeholder Registry

/--
Binding succeeds: the placeholders of the text are the keys, the `i`-th of them becomes a question
mark for MySQL and `$i` for PostgreSQL, all else stays, and the values come in this order.
-/
structure Registry.BindsInOrder (r : Registry) (d : Dialect) (text : String) (keys : List String)
    (values : List Value) : Prop where
  placeholders : Placeholder.keys (scan text) = keys
  bound : r.bind d text = .ok ⟨replaced (fun i => match d with
    | .mysql => "?"
    | .postgres => "$" ++ i.repr) text, values⟩

theorem Registry.bindsInOrder_of_reads {r : Registry} (d : Dialect) {text : String}
    {keys : List String} {values : List Value} (hreads : Reads text keys) (hnodup : keys.Nodup)
    (hheld : keys.map r.get? = values.map some) : r.BindsInOrder d text keys values := by
  have hkeys := hreads.keys
  have hbind := r.bind_of_nodup d (by rw [hkeys]; exact hnodup) (by rw [hkeys]; exact hheld)
  refine ⟨hkeys, hbind.trans ?_⟩
  cases d <;> rfl

/--
The placeholders of the text are the keys, which are different and made by this registry, and hold
the values in order. So whatever it registers from now on, it binds the text to these values.
-/
structure Registry.Serves (r : Registry) (text : String) (keys : List String)
    (values : List Value) : Prop where
  reads : Reads text keys
  issued : ∀ key ∈ keys, IssuedBy r.counter key
  nodup : keys.Nodup
  held : keys.map r.get? = values.map some

namespace Registry.Serves

variable {r : Registry} {text : String} {keys : List String} {values : List Value}

theorem bindsInOrder (h : r.Serves text keys values) (d : Dialect) :
    r.BindsInOrder d text keys values :=
  bindsInOrder_of_reads d h.reads h.nodup h.held

theorem pushAll (h : r.Serves text keys values) (cells : Cells) :
    (r.pushAll cells).2.Serves text keys values := by
  refine ⟨h.reads, ?_, h.nodup, held_pushAll h.issued h.held cells⟩
  intro key hkey
  rw [counter_pushAll]
  exact (h.issued key hkey).mono (Nat.le_add_right _ _)

end Registry.Serves

namespace Query

/--
The state of a query whose predicates were given `values`: names are neutral, and the keys of the
predicates are different, made by the registry, and hold the values in order.
-/
structure Grounded (q : Query) (values : List Value) : Prop where
  legible : q.Legible
  issued : ∀ key ∈ q.operandKeys, IssuedBy q.registry.counter key
  nodup : q.operandKeys.Nodup
  held : q.operandKeys.map q.registry.get? = values.map some

variable {q : Query} {values : List Value}

theorem Records.grounded {cells : Cells} (h : q.Records cells values)
    (hnames : ∀ name ∈ q.names, Reads name []) : q.Grounded values :=
  ⟨legible_of_names hnames h.isName, h.issuedBy, h.nodup.sublist h.operandKeys, h.held⟩

theorem Grounded.nodup_keysFrom_append (h : q.Grounded values) (columns : List String) :
    (keysFrom q.registry.counter columns ++ q.operandKeys).Nodup := by
  apply List.nodup_append.mpr
  refine ⟨nodup_keysFrom _ _, h.nodup, ?_⟩
  rintro new hnew old hold rfl
  exact not_mem_keysFrom (h.issued new hold) hnew

theorem lays_assignmentText (column : String) {key : String} (hkey : IsName key.toList) :
    Lays (assignmentText column key)
      [.name (Identifier.escape column), .fixed " = ", .slot key] := by
  have hequal : (" = :" : String) = " = " ++ ":" := rfl
  simp only [assignmentText, hequal, String.append_assoc]
  exact .name _ (breaks_of_blank rfl _)
    (.fixed (by decide) (.of_slot hkey))

theorem reads_assignments {cells : Cells} (keys : List String)
    (hlength : cells.length = keys.length)
    (hnames : ∀ cell ∈ cells, Identifier.IsNeutral cell.1)
    (hkeys : ∀ key ∈ keys, IsName key.toList) :
    Reads (String.intercalate ", " ((cells.zip keys).map fun (cell, key) =>
      assignmentText cell.1 key)) keys := by
  have hlays : Lays _ (Layout.commas (fun (p : (String × Value) × String) =>
      [.name (Identifier.escape p.1.1), .fixed " = ", .slot p.2]) (cells.zip keys)) :=
    Lays.commas fun p hp => lays_assignmentText p.1.1 (hkeys p.2 (List.of_mem_zip hp).2)
  have hreads := hlays.reads fun n hn => by
    rw [Layout.names_commas] at hn
    obtain ⟨p, hp, hn⟩ := List.mem_flatMap.mp hn
    rw [List.mem_singleton.mp hn]
    exact hnames p.1 (List.of_mem_zip hp).1
  have hslots : (cells.zip keys).flatMap (fun p => [p.2]) = keys := by
    rw [← List.map_eq_flatMap, List.map_snd_zip (by omega)]
  simpa [Layout.slots, hslots] using hreads

theorem Legible.reads_updateText (h : q.Legible) {table : String} (htable : q.target = .ok table)
    {cells : Cells} (hnames : ∀ cell ∈ cells, Identifier.IsNeutral cell.1) :
    Reads (q.updateText table cells)
      (keysFrom q.registry.counter (cells.map (·.1)) ++ q.operandKeys) := by
  have hassignments := reads_assignments (keysFrom q.registry.counter (cells.map (·.1)))
    (by simp) hnames fun key hkey => isName_of_mem_keysFrom hkey
  unfold updateText
  simp only [String.append_assoc]
  refine Plain.reads_append (by decide) ?_
  refine (h.reads_target htable).append_nil ?_ (breaks_of_blank rfl _)
  exact Plain.reads_append (by decide) (hassignments.append h.reads_tailText q.breaks_tailText)

theorem Grounded.serves_of_text (h : q.Grounded values) {text : String}
    (htext : q.selectText = .ok text ∨ q.countText = .ok text ∨ q.deleteText = .ok text) :
    q.registry.Serves text q.operandKeys values := by
  refine ⟨?_, h.issued, h.nodup, h.held⟩
  rcases htext with htext | htext | htext
  · exact h.legible.reads_selectText htext
  · exact h.legible.reads_countText htext
  · exact h.legible.reads_deleteText htext

theorem Grounded.serves_updateText (h : q.Grounded values) {table : String}
    (htable : q.target = .ok table) {cells : Cells}
    (hnames : ∀ cell ∈ cells, Identifier.IsNeutral cell.1) :
    (q.registry.pushAll cells).2.Serves (q.updateText table cells)
      (keysFrom q.registry.counter (cells.map (·.1)) ++ q.operandKeys)
      (cells.map (·.2) ++ values) where
  reads := h.legible.reads_updateText htable hnames
  issued := by
    intro key hkey
    rw [counter_pushAll]
    rcases List.mem_append.mp hkey with hnew | hold
    · simpa using issuedBy_of_mem_keysFrom hnew
    · exact (h.issued key hold).mono (Nat.le_add_right _ _)
  nodup := h.nodup_keysFrom_append _
  held := by
    rw [List.map_append, List.map_append, get?_pushAll, held_pushAll h.issued h.held, List.map_map]
    rfl

theorem serves_insertText (r : Registry) {table : String} {columns : List String}
    {all : List (List Value)} (htable : Reads table [])
    (hcolumns : ∀ column ∈ columns, Identifier.IsNeutral column)
    (hsize : ∀ values ∈ all, values.length = columns.length) :
    (r.pushAll (all.flatMap columns.zip)).2.Serves
      (insertText table columns (r.pushRows columns all).1)
      (keysFrom r.counter ((all.flatMap columns.zip).map (·.1))) all.flatten where
  reads := by
    obtain ⟨_, hlengths, hnames⟩ := groups_pushRows r hsize
    obtain ⟨hreads, _⟩ := reads_insertText htable hcolumns hlengths hnames .mysql
    rwa [(pushRows_eq_pushAll r columns all).1, fst_pushAll] at hreads
  issued := by
    intro key hkey
    rw [counter_pushAll]
    simpa using issuedBy_of_mem_keysFrom hkey
  nodup := nodup_keysFrom _ _
  held := by
    rw [get?_pushAll, ← map_snd_flatMap_zip hsize, List.map_map]
    rfl

theorem Grounded.bindsInOrder_of_text (h : q.Grounded values) (d : Dialect) {text : String}
    (htext : q.selectText = .ok text ∨ q.countText = .ok text ∨ q.deleteText = .ok text) :
    q.registry.BindsInOrder d text q.operandKeys values :=
  (h.serves_of_text htext).bindsInOrder d

theorem Grounded.bindsInOrder_stageUpdate (h : q.Grounded values) (d : Dialect) {cells : Cells}
    (hnames : ∀ cell ∈ cells, Identifier.IsNeutral cell.1) {text : String}
    (htext : (q.stageUpdate cells).1 = .ok (some text)) :
    (q.stageUpdate cells).2.registry.BindsInOrder d text
      (keysFrom q.registry.counter (cells.map (·.1)) ++ q.operandKeys)
      (cells.map (·.2) ++ values) := by
  rcases q.stageUpdate_cases cells with ⟨_, hnone⟩ | ⟨table, htable, _, _, hstage⟩
  · exact absurd htext (hnone text)
  · rw [hstage] at htext ⊢
    cases htext
    exact (h.serves_updateText htable hnames).bindsInOrder d

end Query

namespace Call

variable {q q' : Query} {call : Call} {text : String}

/-- What a call stages is served by the registry behind it. -/
theorem Effect.serves {values : List Value} (h : Effect q call (.staged (some text)) q')
    (hgrounded : q.Grounded values) (hnames : ∀ name ∈ call.names, Identifier.IsNeutral name) :
    ∃ keys values, q'.registry.Serves text keys values := by
  cases h with
  | @stageInsert first rest table all htarget _ hall =>
    refine ⟨_, _, Query.serves_insertText _ (hgrounded.legible.reads_target htarget) ?_ ?_⟩
    · intro column hcolumn
      exact hnames column (List.mem_append_left _ hcolumn)
    · exact Cells.length_of_forall₂_carries (Cells.forall₂_carries_of_arrangeAll hall)
  | stageUpdate htarget _ _ =>
    refine ⟨_, _, hgrounded.serves_updateText htarget ?_⟩
    intro cell hcell
    exact hnames cell.1 (List.mem_map.mpr ⟨cell, hcell, rfl⟩)

/-- What a run stages on its way is served by the registry at its end. -/
theorem exists_serves_of_staged {cells : Cells} {values : List Value} (calls : List Call)
    (hcalls : ∀ call ∈ calls, ∀ name ∈ call.names, Identifier.IsNeutral name)
    (hnames : ∀ name ∈ q.names, Reads name []) (h : q.Records cells values)
    (hstaged : .ok (.staged (some text)) ∈ (runAll calls q).1) :
    ∃ keys values, (runAll calls q).2.registry.Serves text keys values := by
  induction calls generalizing q cells values with
  | nil => cases hstaged
  | cons call calls ih =>
    have hcall := hcalls call List.mem_cons_self
    change _ ∈ (call.run q).1 :: (runAll calls (call.run q).2).1 at hstaged
    change ∃ keys values, (runAll calls (call.run q).2).2.registry.Serves text keys values
    rcases List.mem_cons.mp hstaged with hnow | hlater
    · rcases call.run_outcomes q with ⟨e, hrun⟩ | ⟨reply, q', hrun, heffect⟩
      · rw [hrun] at hnow
        cases hnow
      · rw [hrun] at hnow
        cases hnow
        obtain ⟨keys, values, hserves⟩ := heffect.serves (h.grounded hnames) hcall
        refine ⟨keys, values, ?_⟩
        rw [hrun, registry_runAll]
        exact hserves.pushAll _
    · have hrun : ∀ name ∈ (call.run q).2.names, Reads name [] := by
        apply names_runAll [call] _ hnames
        intro c hc
        rw [List.mem_singleton.mp hc]
        exact hcall
      exact ih (fun c hc => hcalls c (List.mem_cons_of_mem call hc)) hrun (h.run call) hlater

end Call

/--
Every run of calls, accepted and refused, with neutral names: whichever of SELECT, COUNT and DELETE
the query then gives, and whatever update is staged on it, binds in both dialects to the values of
the accepted predicates in order, those of the assignments before them, and its placeholders become
question marks or the numbers from `$1` on.
-/
theorem Call.runAll_bindsInOrder (d d' : Dialect) (calls : List Call)
    (hnames : ∀ call ∈ calls, ∀ name ∈ call.names, Identifier.IsNeutral name) :
    let run := Call.runAll calls { dialect := d }
    let q := run.2
    let values := Call.acceptedAll d calls run.1
    (∀ text, q.selectText = .ok text ∨ q.countText = .ok text ∨ q.deleteText = .ok text →
      q.registry.BindsInOrder d' text q.operandKeys values) ∧
    ∀ cells text, (∀ cell ∈ cells, Identifier.IsNeutral cell.1) →
      (q.stageUpdate cells).1 = .ok (some text) →
      (q.stageUpdate cells).2.registry.BindsInOrder d' text
        (keysFrom q.registry.counter (cells.map (·.1)) ++ q.operandKeys)
        (cells.map (·.2) ++ values) := by
  intro run q values
  have hgrounded : q.Grounded values :=
    ((Query.records_empty d).runAll calls).grounded
      (Call.names_runAll calls hnames (by simp [Query.names]))
  constructor
  · intro text htext
    exact hgrounded.bindsInOrder_of_text d' htext
  · intro cells text hcells htext
    exact hgrounded.bindsInOrder_stageUpdate d' hcells htext

/-- A refused predicate in between, and names with a colon and with a region of their own. -/
theorem Call.runAll_bindsInOrder_users :
    let calls : List Call := [.setTable "users:", .restrict "id" "=" (.bool true) .and,
      .restrict "id" "FOO" .null .and,
      .restrict "`a`" "between" (.list [.text "a", .text "z"]) .or]
    let q := (Call.runAll calls { dialect := .mysql }).2
    let condition := " WHERE id = :id_1 OR `a` BETWEEN :_a__2 AND :_a__3"
    (∀ call ∈ calls, ∀ name ∈ call.names, Identifier.IsNeutral name) ∧
      q.countText = .ok ("SELECT COUNT(*) AS count FROM users:" ++ condition) ∧
      q.registry.bind .postgres ("SELECT COUNT(*) AS count FROM users:" ++ condition) =
        .ok ⟨"SELECT COUNT(*) AS count FROM users: WHERE id = $1 OR `a` BETWEEN $2 AND $3",
          [.bool true, .text "a", .text "z"]⟩ ∧
      (q.stageUpdate [("b", .null)]).1 =
        .ok (some ("UPDATE users: SET b = :b_4" ++ condition)) ∧
      (q.stageUpdate [("b", .null)]).2.registry.bind .mysql
          ("UPDATE users: SET b = :b_4" ++ condition) =
        .ok ⟨"UPDATE users: SET b = ? WHERE id = ? OR `a` BETWEEN ? AND ?",
          [.null, .bool true, .text "a", .text "z"]⟩ := by
  intro calls q condition
  have hnames : ∀ call ∈ calls, ∀ name ∈ call.names, Identifier.IsNeutral name := by decide
  have hcount : q.countText = .ok ("SELECT COUNT(*) AS count FROM users:" ++ condition) := by
    decide +kernel
  have hupdate : (q.stageUpdate [("b", .null)]).1 =
      .ok (some ("UPDATE users: SET b = :b_4" ++ condition)) := by
    decide +kernel
  have houtcomes : (Call.runAll calls { dialect := .mysql }).1 =
      [.ok .done, .ok .done, .error (.unsupportedOperator "FOO" "mysql"), .ok .done] := by
    decide +kernel
  have hequal : Operator.ofText .mysql "=" = .ok .equal := by decide +kernel
  have hbetween : Operator.ofText .mysql "between" = .ok .between := by decide +kernel
  have hvalues : Call.acceptedAll .mysql calls (Call.runAll calls { dialect := .mysql }).1 =
      [.bool true, .text "a", .text "z"] := by
    rw [houtcomes]
    simp [calls, Call.acceptedAll, Call.accepted, Call.operands, hequal, hbetween,
      Operator.operands, Value.items, Except.isOk, Except.toBool]
  have hnumbered : replaced (fun i => "$" ++ i.repr)
      ("SELECT COUNT(*) AS count FROM users:" ++ condition) =
      "SELECT COUNT(*) AS count FROM users: WHERE id = $1 OR `a` BETWEEN $2 AND $3" := by
    decide +kernel
  have hmarked : replaced (fun _ => "?") ("UPDATE users: SET b = :b_4" ++ condition) =
      "UPDATE users: SET b = ? WHERE id = ? OR `a` BETWEEN ? AND ?" := by
    decide +kernel
  obtain ⟨htexts, _⟩ := Call.runAll_bindsInOrder .mysql .postgres calls hnames
  obtain ⟨_, hupdates⟩ := Call.runAll_bindsInOrder .mysql .mysql calls hnames
  have hbound := (htexts _ (.inr (.inl hcount))).bound
  have hstaged := (hupdates [("b", .null)] _ (by decide) hupdate).bound
  rw [hvalues] at hbound hstaged
  simp only [hnumbered] at hbound
  simp only [hmarked] at hstaged
  exact ⟨hnames, hcount, hbound, hupdate, hstaged⟩

end BoundQuery
