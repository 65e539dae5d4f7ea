import BoundQuery.Proofs.Query.Insert
import Mathlib.Order.Bounds.Basic

/-!
# Which rows can be inserted together

An insert is accepted if and only if its first row has columns and every row has the same ones, each
as often, in any order. Otherwise the error names the first row that differs and how it does, and
nothing is registered.
-/

namespace BoundQuery

set_option autoImplicit false

open Registry

namespace Cells

/-- The row has these columns, a repeated one as often, in any order. -/
def Matches (columns : List String) (row : Cells) : Prop := (row.map (·.1)).Perm columns

instance (columns : List String) (row : Cells) : Decidable (Matches columns row) :=
  inferInstanceAs (Decidable (List.Perm _ _))

/-- What is wrong with a row beside the columns of the first, in words. -/
inductive Fault (columns : List String) (row : Cells) : String → Prop
  | noColumns (h : columns = []) : Fault columns row "row has no columns"
  | size (h : row.length ≠ columns.length) :
      Fault columns row
        ("expected " ++ columns.length.repr ++ " columns, got " ++ row.length.repr)
  | missing {column : String} (h : (row.map (·.1)).count column < columns.count column) :
      Fault columns row ("missing column '" ++ column ++ "'")

variable {columns : List String} {row : Cells} {values : List Value}

theorem Fault.not_matches {reason : String} (h : Fault columns row reason)
    (hne : columns ≠ []) : ¬ Matches columns row := by
  intro hmatches
  cases h with
  | noColumns hnil => exact hne hnil
  | size hlength =>
    apply hlength
    rw [← hmatches.length_eq, List.length_map]
  | @missing column hcount =>
    have heq := hmatches.count_eq column
    omega

theorem Carries.matches (h : Carries columns row values) : Matches columns row := by
  have hnames := h.perm.map (·.1)
  rwa [List.map_fst_zip (Nat.le_of_eq h.length.symm)] at hnames

theorem Carries.perm_values (h : Carries columns row values) : values.Perm (row.map (·.2)) := by
  have hvalues := h.perm.map (·.2)
  rw [List.map_snd_zip (Nat.le_of_eq h.length)] at hvalues
  exact hvalues.symm

theorem not_mem_of_takeOut?_eq_none {column : String} (h : row.takeOut? column = none) :
    column ∉ row.map (·.1) := by
  intro hmem
  obtain ⟨value, rest, hsome⟩ := exists_takeOut? hmem
  rw [h] at hsome
  cases hsome

theorem arrange_outcomes (index : Nat) (columns : List String) {row : Cells}
    (hlength : row.length = columns.length) :
    (∃ values, arrange index columns row = .ok values) ∨
      ∃ column, (row.map (·.1)).count column < columns.count column ∧
        arrange index columns row =
          .error (.mismatchedRow index ("missing column '" ++ column ++ "'")) := by
  induction columns generalizing row with
  | nil => exact .inl ⟨[], rfl⟩
  | cons column columns ih =>
    unfold arrange
    cases htake : row.takeOut? column with
    | none =>
      have habsent := List.count_eq_zero.mpr (not_mem_of_takeOut?_eq_none htake)
      refine .inr ⟨column, ?_, rfl⟩
      rw [habsent, List.count_cons_self]
      omega
    | some taken =>
      obtain ⟨value, rest⟩ := taken
      have hperm := perm_of_takeOut? htake
      have hcount := hperm.length_eq
      rw [hlength] at hcount
      rcases ih (Nat.succ.inj hcount).symm with ⟨values, hvalues⟩ | ⟨other, hother, herror⟩
      · exact .inl ⟨value :: values, by simp only [hvalues]⟩
      · -- the row lacks what the rest of it lacks: the same column has gone from both sides
        refine .inr ⟨other, ?_, by simp only [herror]⟩
        have hnames : (row.map (·.1)).Perm (column :: rest.map (·.1)) := hperm.map (·.1)
        rw [hnames.count_eq, List.count_cons, List.count_cons]
        omega

theorem arrangeRow_outcomes (columns : List String) (index : Nat) (row : Cells) :
    (∃ values, arrangeRow columns index row = .ok values) ∨
      ∃ reason, Fault columns row reason ∧
        arrangeRow columns index row = .error (.mismatchedRow index reason) := by
  unfold arrangeRow
  split
  next hlength =>
    rcases arrange_outcomes index columns hlength with hok | ⟨column, hcount, herror⟩
    · exact .inl hok
    · exact .inr ⟨_, .missing hcount, herror⟩
  next hlength => exact .inr ⟨_, .size hlength, rfl⟩

/-- Rows are arranged up to the first that is at fault. -/
theorem arrangeAll_outcomes (columns : List String) (index : Nat) (rows : List Cells) :
    (∃ all, arrangeAll columns index rows = .ok all) ∨
      ∃ before row after reason, rows = before ++ row :: after ∧
        (∀ other ∈ before, Matches columns other) ∧ Fault columns row reason ∧
        arrangeAll columns index rows = .error (.mismatchedRow (index + before.length) reason) := by
  induction rows generalizing index with
  | nil => exact .inl ⟨[], rfl⟩
  | cons row rows ih =>
    unfold arrangeAll
    rcases arrangeRow_outcomes columns index row with ⟨values, hrow⟩ | ⟨reason, hfault, hrow⟩
    · have hmatches := (carries_of_arrangeRow hrow).matches
      rcases ih (index + 1) with
        ⟨all, hall⟩ | ⟨before, bad, after, reason, hsplit, hbefore, hfault, herror⟩
      · exact .inl ⟨values :: all, by simp only [hrow, hall]⟩
      · refine .inr ⟨row :: before, bad, after, reason, ?_, ?_, hfault, ?_⟩
        · rw [hsplit, List.cons_append]
        · intro other hother
          rcases List.mem_cons.mp hother with rfl | hother
          · exact hmatches
          · exact hbefore other hother
        · simp only [hrow, herror, List.length_cons]
          rw [Nat.add_assoc, Nat.add_comm 1]
    · refine .inr ⟨[], row, rows, reason, rfl, ?_, hfault, by simp only [hrow]; rfl⟩
      intro other hother
      cases hother

end Cells

/-- The keys that rows get hold their values once all rows are registered. -/
theorem Registry.held_pushRows {columns : List String} {rows : List Cells}
    {all : List (List Value)} (h : List.Forall₂ (Cells.Carries columns) rows all) (r : Registry) :
    List.Forall₂ (fun row keys => ∃ values : List Value, values.Perm (row.map (·.2)) ∧
      keys.map (r.pushRows columns all).2.get? = values.map some)
      rows (r.pushRows columns all).1 := by
  induction h generalizing r with
  | nil => exact .nil
  | @cons row values rows all hrow _ ih =>
    obtain ⟨_, hpushed⟩ := pushRows_eq_pushAll (r.pushAll (columns.zip values)).2 columns all
    refine .cons ⟨values, hrow.perm_values, ?_⟩ (ih (r.pushAll (columns.zip values)).2)
    change (r.pushAll (columns.zip values)).1.map
      ((r.pushAll (columns.zip values)).2.pushRows columns all).2.get? = _
    rw [hpushed, fst_pushAll]
    -- the rows behind get other keys, so the values of this one stay
    apply held_pushAll
    · intro key hkey
      rw [counter_pushAll]
      simpa using issuedBy_of_mem_keysFrom hkey
    · rw [get?_pushAll]
      conv_rhs => rw [← List.map_snd_zip (Nat.le_of_eq hrow.length), List.map_map]
      rfl

namespace Query

open Cells

variable {q : Query} {table : String} {first : Cells} {rest : List Cells}

theorem stageInsert_of_matches (htarget : q.target = .ok table) (hne : first ≠ [])
    (h : ∀ row ∈ first :: rest, Matches (first.map (·.1)) row) :
    ∃ groups, (q.stageInsert (first :: rest)).1 =
        .ok (some (insertText table (first.map (·.1)) groups)) ∧ groups.flatten.Nodup ∧
      List.Forall₂ (fun row keys => ∃ values : List Value, values.Perm (row.map (·.2)) ∧
        keys.map (q.stageInsert (first :: rest)).2.registry.get? = values.map some)
        (first :: rest) groups := by
  have hcolumns : first.map (·.1) ≠ [] := by simpa using hne
  rcases arrangeAll_outcomes (first.map (·.1)) 0 (first :: rest) with
    ⟨all, hall⟩ | ⟨before, row, after, reason, hsplit, _, hfault, _⟩
  · have hheld := held_pushRows (forall₂_carries_of_arrangeAll hall) q.registry
    have hnodup : (q.registry.pushRows (first.map (·.1)) all).1.flatten.Nodup := by
      rw [(pushRows_eq_pushAll q.registry _ all).1, fst_pushAll]
      exact nodup_keysFrom _ _
    refine ⟨(q.registry.pushRows (first.map (·.1)) all).1, ?_⟩
    unfold stageInsert
    simp only [htarget, hall, if_neg hcolumns]
    exact ⟨trivial, hnodup, hheld⟩
  · have hmem : row ∈ first :: rest := by
      rw [hsplit]
      exact List.mem_append_right _ List.mem_cons_self
    exact absurd (h row hmem) (hfault.not_matches hcolumns)

/-- The numbers of the rows that cannot stand in an insert with these columns. -/
def offenders (columns : List String) (rows : List Cells) : Set Nat :=
  {i | ∃ row, rows[i]? = some row ∧ (columns = [] ∨ ¬ Matches columns row)}

theorem isLeast_offenders {columns : List String} {before after : List Cells} {row : Cells}
    (hbefore : ∀ other ∈ before, Matches columns other) (hrow : ¬ Matches columns row)
    (hne : columns ≠ []) :
    IsLeast (offenders columns (before ++ row :: after)) before.length := by
  constructor
  · exact ⟨row, by simp, .inr hrow⟩
  · rintro j ⟨other, hother, hoffends⟩
    apply Nat.le_of_not_lt
    intro hlt
    rw [List.getElem?_append_left hlt] at hother
    rcases hoffends with hnil | hoffends
    · exact hne hnil
    · exact hoffends (hbefore other (List.mem_of_getElem? hother))

theorem stageInsert_of_not_matches (htarget : q.target = .ok table)
    (h : first ≠ [] → ∃ row ∈ first :: rest, ¬ Matches (first.map (·.1)) row) :
    ∃ (i : Nat) (row : Cells) (reason : String), (first :: rest)[i]? = some row ∧
      Fault (first.map (·.1)) row reason ∧
      IsLeast (offenders (first.map (·.1)) (first :: rest)) i ∧
      q.stageInsert (first :: rest) = (.error (.mismatchedRow i reason), q) := by
  unfold stageInsert
  simp only [htarget]
  by_cases hcolumns : first.map (·.1) = []
  · refine ⟨0, first, _, rfl, .noColumns hcolumns, ?_, if_pos hcolumns⟩
    exact ⟨⟨first, rfl, .inl hcolumns⟩, fun j _ => Nat.zero_le j⟩
  · simp only [if_neg hcolumns]
    obtain ⟨bad, hbad, hoffends⟩ := h (by simpa using hcolumns)
    rcases arrangeAll_outcomes (first.map (·.1)) 0 (first :: rest) with
      ⟨all, hall⟩ | ⟨before, row, after, reason, hsplit, hbefore, hfault, herror⟩
    · obtain ⟨i, hi⟩ := List.mem_iff_getElem?.mp hbad
      obtain ⟨values, _, hcarries⟩ :=
        exists_carries_of_getElem? (forall₂_carries_of_arrangeAll hall) hi
      exact absurd hcarries.matches hoffends
    · rw [Nat.zero_add] at herror
      refine ⟨before.length, row, reason, ?_, hfault, ?_, by simp only [herror]⟩
      · rw [hsplit]
        simp
      · rw [hsplit]
        exact isLeast_offenders hbefore (hfault.not_matches hcolumns) hcolumns

/--
An insert on a query that has a target is accepted if and only if its first row is not empty and all
rows have the columns of the first, each as often, in any order. Then the keys are different, and
those in the group of a row hold the values of that row, in some order. Otherwise the error has the
number of the first row that offends and says what is wrong with it, and the query stays as it was.
-/
theorem stageInsert_uniform (q : Query) (table : String) (first : Cells) (rest : List Cells)
    (htarget : q.target = .ok table) :
    let rows := first :: rest
    let columns := first.map (·.1)
    let uniform := first ≠ [] ∧ ∀ row ∈ rows, (row.map (·.1)).Perm columns
    (uniform → ∃ groups,
      (q.stageInsert rows).1 = .ok (some (insertText table columns groups)) ∧
      groups.flatten.Nodup ∧
      List.Forall₂ (fun row keys => ∃ values : List Value, values.Perm (row.map (·.2)) ∧
        keys.map (q.stageInsert rows).2.registry.get? = values.map some) rows groups) ∧
    (¬ uniform → ∃ (i : Nat) (row : Cells) (reason : String), rows[i]? = some row ∧
      Fault columns row reason ∧ IsLeast (offenders columns rows) i ∧
      q.stageInsert rows = (.error (.mismatchedRow i reason), q)) := by
  intro rows columns uniform
  constructor
  · rintro ⟨hne, hmatches⟩
    exact stageInsert_of_matches htarget hne hmatches
  · intro hnot
    apply stageInsert_of_not_matches htarget
    intro hne
    by_contra hall
    apply hnot
    refine ⟨hne, ?_⟩
    intro row hrow
    by_contra hoffends
    exact hall ⟨row, hrow, hoffends⟩

/-- A repeated column, in another order in the second row, and one too few of it in the third. -/
theorem stageInsert_uniform_repeated :
    let q := onTable .mysql "t"
    let first : Cells := [("a", .int 1), ("b", .null), ("a", .int 2)]
    let second : Cells := [("a", .int 3), ("a", .int 4), ("b", .null)]
    let third : Cells := [("b", .null), ("a", .int 5), ("b", .int 6)]
    q.target = .ok "t" ∧
      (∃ groups, (q.stageInsert [first, second]).1 =
        .ok (some (insertText "t" ["a", "b", "a"] groups))) ∧
      (∃ reason, q.stageInsert [first, second, third] = (.error (.mismatchedRow 2 reason), q)) := by
  intro q first second third
  have htarget : q.target = .ok "t" := by decide +kernel
  obtain ⟨haccepts, _⟩ := stageInsert_uniform q "t" first [second] htarget
  obtain ⟨_, hrefuses⟩ := stageInsert_uniform q "t" first [second, third] htarget
  obtain ⟨groups, htext, _⟩ := haccepts (by decide)
  obtain ⟨i, row, reason, _, _, hleast, herror⟩ := hrefuses (by decide)
  have hthird : IsLeast (offenders ["a", "b", "a"] ([first, second] ++ third :: [])) 2 := by
    apply isLeast_offenders
    · decide
    · decide
    · decide
  rw [hleast.unique hthird] at herror
  exact ⟨htarget, ⟨groups, htext⟩, reason, herror⟩

end Query

end BoundQuery
