import BoundQuery.Proofs.Disturbance
import BoundQuery.Proofs.Query.Records

/-!
# Binding a SELECT with any names

Nothing keeps a name from disturbing a binding: a grave accent in the name of a table hides the
placeholders behind it, and a name may hold a placeholder itself. Which names do is read off the
layout of the statement.
-/

namespace BoundQuery

set_option autoImplicit false

open Placeholder Registry Layout

namespace Query

variable {q : Query} {cells : Cells} {values : List Value}

theorem Records.bind_selectText_iff (h : q.Records cells values)
    (hnames : ∀ name ∈ q.names, Ticked name) (d : Dialect) {source : String}
    (hsource : q.rowSource = .ok source) :
    q.registry.bind d ("SELECT " ++ q.projectionText ++ " FROM " ++ source ++ q.tailText) =
        .ok ⟨.ofList (filled d 0 (q.selectLayout source)), values⟩ ↔
      Undisturbed false (q.selectLayout source) := by
  apply (lays_selectText h.isName source).bind_eq_ok_iff
  · intro name hname
    exact hnames name (names_selectLayout_subset hsource hname)
  · rw [slots_selectLayout]
    exact h.nodup.sublist h.operandKeys
  · rw [slots_selectLayout]
    exact h.held

end Query

/--
Every run of calls with any names: the SELECT that the query then gives, if it gives one, binds to
the text with the parameters in the places of the predicates' placeholders, and to the values of the
accepted predicates in order, if and only if the names in it leave its layout undisturbed.
-/
theorem Call.runAll_binds_iff (d d' : Dialect) (calls : List Call) :
    let run := Call.runAll calls { dialect := d }
    let q := run.2
    ∀ text, q.selectText = .ok text → ∃ source, q.rowSource = .ok source ∧
      Lays text (q.selectLayout source) ∧ slots (q.selectLayout source) = q.operandKeys ∧
      (q.registry.bind d' text = .ok ⟨.ofList (filled d' 0 (q.selectLayout source)),
          Call.acceptedAll d calls run.1⟩ ↔
        Undisturbed false (q.selectLayout source)) := by
  intro run q text htext
  have hrecords : q.Records (Call.registeredAll d calls run.1) (Call.acceptedAll d calls run.1) :=
    (Query.records_empty d).runAll calls
  have hnames : ∀ name ∈ q.names, Ticked name :=
    Call.names_runAll calls (fun _ _ new _ => Identifier.ticked_escape new) (by simp [Query.names])
  obtain ⟨source, hsource, rfl⟩ := Query.selectText_eq_ok htext
  exact ⟨source, hsource, Query.lays_selectText hrecords.isName source,
    q.slots_selectLayout source, hrecords.bind_selectText_iff hnames d' hsource⟩

/-- A name with a region of its own, which hides its colon, and a placeholder behind it. -/
theorem Call.runAll_binds_region :
    let calls : List Call := [.setTable "`a:b`", .restrict "id" "=" (.int 1) .and]
    let run := Call.runAll calls { dialect := .mysql }
    run.2.selectText = .ok "SELECT * FROM `a:b` WHERE id = :id_1" ∧
      run.2.registry.bind .mysql "SELECT * FROM `a:b` WHERE id = :id_1" =
        .ok ⟨"SELECT * FROM `a:b` WHERE id = ?", [.int 1]⟩ := by
  intro calls run
  have htext : run.2.selectText = .ok "SELECT * FROM `a:b` WHERE id = :id_1" := by decide +kernel
  have hvalues : Call.acceptedAll .mysql calls run.1 = [.int 1] := by with_unfolding_all rfl
  have hsource : run.2.rowSource = .ok "`a:b`" := by decide +kernel
  obtain ⟨source, hrow, _, _, hbinds⟩ := Call.runAll_binds_iff .mysql .mysql calls _ htext
  cases hsource.symm.trans hrow
  have hfilled : String.ofList (filled .mysql 0 (run.2.selectLayout "`a:b`")) =
      "SELECT * FROM `a:b` WHERE id = ?" := by decide +kernel
  have hclear : Undisturbed false (run.2.selectLayout "`a:b`") := by decide +kernel
  have hbound := hbinds.mpr hclear
  rw [hfilled, hvalues] at hbound
  exact ⟨htext, hbound⟩

/-- A grave accent in the name of the table: binding succeeds, without the value of the predicate
and with its placeholder still in the text. -/
theorem Call.runAll_binds_wrongly :
    let calls : List Call := [.setTable "users`", .restrict "id" "=" (.int 1) .and]
    let run := Call.runAll calls { dialect := .mysql }
    let text := "SELECT * FROM users` WHERE id = :id_1"
    run.2.selectText = .ok text ∧ run.2.registry.bind .mysql text = .ok ⟨text, []⟩ ∧
      Call.acceptedAll .mysql calls run.1 = [.int 1] := by
  intro calls run text
  have hkeys : Placeholder.keys (scan text) = [] := by decide +kernel
  have hform : boundForm .mysql 0 text = text := by decide +kernel
  have hbound : run.2.registry.bind .mysql text = .ok ⟨boundForm .mysql 0 text, []⟩ :=
    bind_of_nodup _ _ (by rw [hkeys]; exact List.nodup_nil) (by rw [hkeys]; rfl)
  rw [hform] at hbound
  have hvalues : Call.acceptedAll .mysql calls run.1 = [.int 1] := by with_unfolding_all rfl
  exact ⟨by decide +kernel, hbound, hvalues⟩

end BoundQuery
