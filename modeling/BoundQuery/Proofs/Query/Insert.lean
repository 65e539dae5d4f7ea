import BoundQuery.Proofs.Query.Calls
import BoundQuery.Proofs.Query.Text
import Mathlib.Data.List.Forall2
import Mathlib.Data.List.Perm.Basic

/-!
# Inserts

A row is arranged by taking its cells out one after the other, and each time the last cell moves
into the gap. Whatever order this leaves behind, nothing is lost and nothing comes twice: a row is
accepted with certain values if and only if it is a permutation of the columns paired with them. So
every cell of an insert is bound to its own column, whatever order its row has.
-/

namespace BoundQuery

set_option autoImplicit false

open Placeholder Registry

namespace Cells

theorem perm_dropLast_set {cells : Cells} {i : Nat} {last : String × Value}
    (hlast : cells.getLast? = some last) (hi : i < cells.length) :
    (cells.dropLast.set i last).Perm (cells.eraseIdx i) := by
  obtain ⟨init, rfl⟩ := List.getLast?_eq_some_iff.mp hlast
  rw [List.dropLast_concat]
  -- the last cell moves into the gap, unless the gap is its own place
  by_cases hin : i < init.length
  · rw [List.eraseIdx_append_of_lt_length hin]
    exact (List.set_perm_cons_eraseIdx hin last).trans (List.perm_append_singleton _ _).symm
  · have hat : i = init.length := by
      rw [List.length_append, List.length_singleton] at hi
      omega
    rw [List.set_eq_of_length_le (by omega), List.eraseIdx_append_of_length_le (by omega), hat]
    simp

theorem perm_of_takeOut? {column : String} {cells rest : Cells} {value : Value}
    (h : cells.takeOut? column = some (value, rest)) : cells.Perm ((column, value) :: rest) := by
  unfold takeOut? at h
  split at h
  next i last hi hlast =>
    obtain ⟨hlt, hcolumn, _⟩ := List.findIdx?_eq_some_iff_getElem.mp hi
    rw [List.getElem?_eq_getElem hlt] at h
    simp only [Option.map_some, Option.some.injEq, Prod.mk.injEq] at h
    obtain ⟨rfl, rfl⟩ := h
    have hcell : (column, cells[i].2) = cells[i] := by rw [← beq_iff_eq.mp hcolumn]
    rw [hcell]
    exact (List.getElem_cons_eraseIdx_perm hlt).symm.trans
      ((perm_dropLast_set hlast hlt).symm.cons _)
  next => cases h

theorem exists_takeOut? {column : String} {cells : Cells} (h : column ∈ cells.map (·.1)) :
    ∃ value rest, cells.takeOut? column = some (value, rest) := by
  obtain ⟨cell, hcell, rfl⟩ := List.mem_map.mp h
  have hfound : (cells.findIdx? (·.1 == cell.1)).isSome := by
    rw [List.findIdx?_isSome, List.any_eq_true]
    exact ⟨cell, hcell, beq_self_eq_true _⟩
  obtain ⟨i, hi⟩ := Option.isSome_iff_exists.mp hfound
  obtain ⟨hlt, _, _⟩ := List.findIdx?_eq_some_iff_getElem.mp hi
  have hlast := List.getLast?_eq_some_getLast (List.ne_nil_of_mem hcell)
  unfold takeOut?
  rw [hi, hlast]
  simp only [List.getElem?_eq_getElem hlt, Option.map_some, Option.some.injEq, Prod.mk.injEq]
  exact ⟨_, _, rfl, rfl⟩

/-- A row whose cells are those of the columns with certain values, in any order. -/
structure Carries (columns : List String) (row : Cells) (values : List Value) : Prop where
  length : values.length = columns.length
  perm : row.Perm (columns.zip values)

theorem carries_of_arrange {index : Nat} {columns : List String} {cells : Cells}
    {values : List Value} (hlength : cells.length = columns.length)
    (h : arrange index columns cells = .ok values) : Carries columns cells values := by
  induction columns generalizing cells values with
  | nil =>
    cases h
    rw [List.length_eq_zero_iff.mp hlength]
    exact ⟨rfl, List.Perm.nil⟩
  | cons column columns ih =>
    unfold arrange at h
    split at h
    next => cases h
    next value rest htake =>
      split at h
      next values' hrest =>
        cases h
        have hperm := perm_of_takeOut? htake
        have hcount := hperm.length_eq
        simp only [List.length_cons] at hcount hlength
        obtain ⟨hlen, hzip⟩ := ih (by omega) hrest
        exact ⟨congrArg (· + 1) hlen, hperm.trans (hzip.cons _)⟩
      next => cases h

theorem carries_of_arrangeRow {columns : List String} {index : Nat} {row : Cells}
    {values : List Value} (h : arrangeRow columns index row = .ok values) :
    Carries columns row values := by
  unfold arrangeRow at h
  split at h
  next hlength => exact carries_of_arrange hlength h
  next => cases h

theorem forall₂_carries_of_arrangeAll {columns : List String} {index : Nat} {rows : List Cells}
    {all : List (List Value)} (h : arrangeAll columns index rows = .ok all) :
    List.Forall₂ (Carries columns) rows all := by
  induction rows generalizing index all with
  | nil =>
    cases h
    exact .nil
  | cons row rows ih =>
    unfold arrangeAll at h
    split at h
    next => cases h
    next values hrow =>
      split at h
      next rest hrest =>
        cases h
        exact .cons (carries_of_arrangeRow hrow) (ih hrest)
      next => cases h

theorem Carries.value {columns : List String} (hnodup : columns.Nodup) {row : Cells}
    {values : List Value} (h : Carries columns row values) {j : Nat} {column : String}
    {value : Value} (hcolumn : columns[j]? = some column) (hvalue : values[j]? = some value)
    (other : Value) : (column, other) ∈ row ↔ other = value := by
  have hmem (w : Value) : (column, w) ∈ columns.zip values ↔
      ∃ k : Nat, columns[k]? = some column ∧ values[k]? = some w := by
    rw [List.mem_iff_getElem?]
    exact exists_congr fun k => by rw [List.getElem?_zip_eq_some]
  rw [h.perm.mem_iff, hmem]
  constructor
  · rintro ⟨k, hk, hother⟩
    obtain ⟨hlt, _⟩ := List.getElem?_eq_some_iff.mp hk
    have hkj : k = j := (List.getElem?_inj hlt hnodup).mp (hk.trans hcolumn.symm)
    rw [hkj, hvalue] at hother
    exact (Option.some.inj hother).symm
  · rintro rfl
    exact ⟨j, hcolumn, hvalue⟩

theorem length_of_forall₂_carries {columns : List String} {rows : List Cells}
    {all : List (List Value)} (h : List.Forall₂ (Carries columns) rows all) :
    ∀ values ∈ all, values.length = columns.length := by
  induction h with
  | nil =>
    intro values hvalues
    cases hvalues
  | cons hrow _ ih =>
    intro values hvalues
    rcases List.mem_cons.mp hvalues with rfl | hvalues
    · exact hrow.length
    · exact ih values hvalues

theorem exists_carries_of_getElem? {columns : List String} {rows : List Cells}
    {all : List (List Value)} (h : List.Forall₂ (Carries columns) rows all) {i : Nat} {row : Cells}
    (hrow : rows[i]? = some row) :
    ∃ values, all[i]? = some values ∧ Carries columns row values := by
  induction h generalizing i with
  | nil => cases hrow
  | cons hfirst _ ih =>
    cases i with
    | zero =>
      cases hrow
      exact ⟨_, rfl, hfirst⟩
    | succ i => exact ih hrow

theorem length_flatten {α : Type} {all : List (List α)} {m : Nat}
    (hlength : ∀ values ∈ all, values.length = m) : all.flatten.length = all.length * m := by
  induction all with
  | nil => simp
  | cons first rest ih =>
    rw [List.flatten_cons, List.length_append, hlength first List.mem_cons_self,
      ih fun v hv => hlength v (List.mem_cons_of_mem first hv), List.length_cons, Nat.succ_mul]
    omega

end Cells

namespace Placeholder

/-- Parts of one shape with `m` placeholders each: a part's parameters start where those of the
parts before it end. -/
theorem boundForm_commas {α : Type} (d : Dialect) (n m : Nat) (text : α → String)
    (ks : α → List String) (form : Nat → String) (parts : List α)
    (hreads : ∀ a ∈ parts, Reads (text a) (ks a)) (hlength : ∀ a ∈ parts, (ks a).length = m)
    (hform : ∀ a ∈ parts, ∀ k, boundForm d k (text a) = form k) :
    boundForm d n (String.intercalate ", " (parts.map text)) =
      String.intercalate ", " ((List.range' n parts.length m).map form) := by
  induction parts generalizing n with
  | nil => exact reads_empty.boundForm_eq d n
  | cons a rest ih =>
    have ha := hreads a List.mem_cons_self
    have hrest := ih (n + m) (fun b hb => hreads b (List.mem_cons_of_mem a hb))
      (fun b hb => hlength b (List.mem_cons_of_mem a hb))
      (fun b hb => hform b (List.mem_cons_of_mem a hb))
    cases rest with
    | nil => simpa using hform a List.mem_cons_self n
    | cons b rest =>
      have hplain : Plain ", " := by decide
      have hbreaks : Breaks ", " := by decide
      simp only [List.length_cons, List.map_cons, List.range'_succ,
        String.intercalate_cons_cons] at hrest ⊢
      rw [String.append_assoc, ha.boundForm_append d n (hbreaks.append_right (by decide) _),
        hplain.boundForm_append, hlength a List.mem_cons_self, hrest,
        hform a List.mem_cons_self n, String.append_assoc]

end Placeholder

namespace Query

def boundGroup (d : Dialect) (columnCount before : Nat) : String :=
  "(" ++ String.intercalate ", "
    ((List.range' before columnCount).map fun i => d.parameter (i + 1)) ++ ")"

/-- An insert whose groups hold parameters, counted through row by row. -/
def boundInsert (d : Dialect) (table : String) (columns : List String) (rowCount : Nat) : String :=
  "INSERT INTO " ++ table ++ " (" ++ String.intercalate ", " (columns.map Identifier.escape)
    ++ ") VALUES "
    ++ String.intercalate ", "
      ((List.range' 0 rowCount columns.length).map (boundGroup d columns.length))

variable {names : List String}

def groupLayout (names : List String) : List Part :=
  .fixed "(" :: (placeholderLayout names ++ [.fixed ")"])

theorem lays_group (h : ∀ k ∈ names, IsName k.toList) :
    Lays ("(" ++ (placeholderList names ++ ")")) (groupLayout names) :=
  .fixed (by decide) ((lays_placeholderList h).append (.of_plain (by decide)) (by decide))

@[simp] theorem slots_groupLayout (names : List String) :
    Layout.slots (groupLayout names) = names := by
  simp [groupLayout, Layout.slots]

@[simp] theorem names_groupLayout (names : List String) :
    Layout.names (groupLayout names) = [] := by
  simp [groupLayout, Layout.names]

theorem reads_group (h : ∀ k ∈ names, IsName k.toList) :
    Reads ("(" ++ (placeholderList names ++ ")")) names := by
  have hreads := (lays_group h).reads (by simp)
  rwa [slots_groupLayout] at hreads

theorem boundForm_placeholderList (d : Dialect) (n : Nat) (h : ∀ k ∈ names, IsName k.toList) :
    boundForm d n (placeholderList names) = String.intercalate ", "
      ((List.range' n names.length).map fun i => d.parameter (i + 1)) :=
  boundForm_commas d n 1 _ (fun k => [k])
    (fun i => d.parameter (i + 1)) names (fun k hk => reads_key (h k hk)) (fun _ _ => rfl)
    fun k hk i => boundForm_key d i (h k hk)

theorem boundForm_group (d : Dialect) (n : Nat) (h : ∀ k ∈ names, IsName k.toList) :
    boundForm d n ("(" ++ (placeholderList names ++ ")")) = boundGroup d names.length n := by
  rw [Plain.boundForm_append d n (by decide),
    (reads_placeholderList h).boundForm_append d n (by decide), boundForm_placeholderList d n h,
    (Plain.reads (a := ")") (by decide)).boundForm_eq, ← String.append_assoc]
  rfl

variable {table : String} {columns : List String} {groups : List (List String)}

theorem reads_insertText (htable : Reads table [])
    (hcolumns : ∀ column ∈ columns, Identifier.IsNeutral column)
    (hlength : ∀ g ∈ groups, g.length = columns.length)
    (hnames : ∀ g ∈ groups, ∀ k ∈ g, IsName k.toList) (d : Dialect) :
    Reads (insertText table columns groups) groups.flatten ∧
      boundForm d 0 (insertText table columns groups) =
        boundInsert d table columns groups.length := by
  have hlist : Reads (String.intercalate ", " (columns.map Identifier.escape)) [] := by
    have hlays : Lays (String.intercalate ", " (columns.map Identifier.escape))
        (Layout.commas (fun column => [.name (Identifier.escape column)]) columns) :=
      Lays.commas fun column _ => .of_name (Identifier.escape column)
    have hreads := hlays.reads fun n hn => by
      rw [Layout.names_commas] at hn
      obtain ⟨column, hcolumn, hn⟩ := List.mem_flatMap.mp hn
      rw [List.mem_singleton.mp hn]
      exact hcolumns column hcolumn
    have hslots : columns.flatMap (fun column =>
        Layout.slots [.name (Identifier.escape column)]) = [] :=
      List.flatMap_eq_nil_iff.mpr fun _ _ => rfl
    rwa [Layout.slots_commas, hslots] at hreads
  have hgroups : Reads (String.intercalate ", "
      (groups.map fun keys => "(" ++ (placeholderList keys ++ ")"))) groups.flatten := by
    have hreads := (Lays.commas fun g hg => lays_group (hnames g hg)).reads (by simp)
    simpa using hreads
  have hform : boundForm d 0 (String.intercalate ", "
      (groups.map fun keys => "(" ++ (placeholderList keys ++ ")"))) = String.intercalate ", "
        ((List.range' 0 groups.length columns.length).map (boundGroup d columns.length)) :=
    boundForm_commas d 0 columns.length _
      (fun keys => keys) (boundGroup d columns.length) groups
      (fun g hg => reads_group (hnames g hg)) hlength
      fun g hg k => by rw [boundForm_group d k (hnames g hg), hlength g hg]
  have hopen : Breaks (" (" ++ (String.intercalate ", " (columns.map Identifier.escape) ++
      (") VALUES " ++ String.intercalate ", "
        (groups.map fun keys => "(" ++ (placeholderList keys ++ ")"))))) :=
    breaks_of_blank rfl _
  have hclose : Breaks (") VALUES " ++ String.intercalate ", "
      (groups.map fun keys => "(" ++ (placeholderList keys ++ ")"))) :=
    Breaks.append_right (by decide) (by decide) _
  unfold insertText boundInsert
  simp only [String.append_assoc]
  constructor
  · apply Plain.reads_append (by decide)
    apply htable.append_nil _ hopen
    apply Plain.reads_append (by decide)
    apply hlist.append_nil _ hclose
    exact Plain.reads_append (by decide) hgroups
  · rw [Plain.boundForm_append d 0 (by decide), htable.boundForm_append d 0 hopen,
      htable.boundForm_eq, Plain.boundForm_append d _ (by decide),
      hlist.boundForm_append d _ hclose, hlist.boundForm_eq,
      Plain.boundForm_append d _ (by decide)]
    exact congrArg (fun s => "INSERT INTO " ++ (table ++ (" (" ++
      (String.intercalate ", " (columns.map Identifier.escape) ++ (") VALUES " ++ s))))) hform

theorem groups_pushRows (r : Registry) {all : List (List Value)}
    (hlength : ∀ values ∈ all, values.length = columns.length) :
    (r.pushRows columns all).1.length = all.length ∧
      (∀ g ∈ (r.pushRows columns all).1, g.length = columns.length) ∧
      ∀ g ∈ (r.pushRows columns all).1, ∀ k ∈ g, IsName k.toList := by
  induction all generalizing r with
  | nil => exact ⟨rfl, fun _ h => (List.not_mem_nil h).elim, fun _ h => (List.not_mem_nil h).elim⟩
  | cons values all ih =>
    obtain ⟨hcount, hsize, hnames⟩ :=
      ih (r.pushAll (columns.zip values)).2 fun v hv => hlength v (List.mem_cons_of_mem values hv)
    have hvalues := hlength values List.mem_cons_self
    refine ⟨congrArg (· + 1) hcount, ?_, ?_⟩
    · intro g hg
      rcases List.mem_cons.mp hg with rfl | hg
      · rw [fst_pushAll, length_keysFrom, List.length_map, List.length_zip, hvalues, Nat.min_self]
      · exact hsize g hg
    · intro g hg k hk
      rcases List.mem_cons.mp hg with rfl | hg
      · rw [fst_pushAll] at hk
        exact isName_of_mem_keysFrom hk
      · exact hnames g hg k hk

theorem map_snd_flatMap_zip {all : List (List Value)}
    (hlength : ∀ values ∈ all, values.length = columns.length) :
    (all.flatMap columns.zip).map (·.2) = all.flatten := by
  rw [List.map_flatMap, List.flatten_eq_flatMap]
  apply List.flatMap_congr
  intro values hvalues
  exact List.map_snd_zip (Nat.le_of_eq (hlength values hvalues))

end Query

end BoundQuery
