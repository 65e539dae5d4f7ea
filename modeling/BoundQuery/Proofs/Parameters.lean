import BoundQuery.Proofs.Placeholder
import Mathlib.Data.List.Basic
import Mathlib.Data.List.Induction

/-!
# The parameters of the two dialects

A text is bound for both dialects or for neither. PostgreSQL numbers its parameters by the order in
which their keys appear first, MySQL gives a value again at each occurrence. So the numbers that
PostgreSQL writes say where each value of MySQL's list stands in its own.
-/

namespace BoundQuery

set_option autoImplicit false

/-- A character as it is, and a placeholder in the form that its key has. -/
def Piece.write (form : String → String) : Piece → List Char
  | char c => [c]
  | key name => (form name).toList

namespace Placeholder

/-- A text with each placeholder replaced by the form of its key. -/
def written (form : String → String) (s : String) : String :=
  .ofList ((scan s).flatMap (Piece.write form))

/-- The number of a key among keys, by the order in which they appear first. -/
def ordinal (keys : List String) (key : String) : Nat := keys.eraseDups.idxOf key + 1

/-- The largest of some numbers, and zero without any. -/
def largest (numbers : List Nat) : Nat := numbers.foldl max 0

section Ordinal

variable {keys before : List String} {key : String}

theorem eraseDups_concat_of_mem (h : key ∈ before) :
    (before ++ [key]).eraseDups = before.eraseDups := by
  have hnone : [key].removeAll before = [] := by simp [List.removeAll, h]
  rw [List.eraseDups_append, hnone, List.eraseDups_nil, List.append_nil]

theorem eraseDups_concat_of_not_mem (h : key ∉ before) :
    (before ++ [key]).eraseDups = before.eraseDups ++ [key] := by
  have hfirst : [key].removeAll before = [key] := by simp [List.removeAll, h]
  rw [List.eraseDups_append, hfirst]
  rfl

theorem ordinal_append (h : key ∈ before) (after : List String) :
    ordinal (before ++ after) key = ordinal before key := by
  have hmem : key ∈ before.eraseDups := List.mem_eraseDups.mpr h
  rw [ordinal, List.eraseDups_append, List.idxOf_append_of_mem hmem]
  rfl

theorem ordinal_of_first (h : key ∉ before) (after : List String) :
    ordinal (before ++ key :: after) key = before.eraseDups.length + 1 := by
  have hnew : key ∉ before.eraseDups := fun hmem => h (List.mem_eraseDups.mp hmem)
  have hmem : key ∈ before ++ [key] := List.mem_append_right _ List.mem_cons_self
  rw [← List.singleton_append, ← List.append_assoc, ordinal_append hmem, ordinal,
    eraseDups_concat_of_not_mem h, List.idxOf_append_of_notMem hnew, List.idxOf_cons_self]

theorem ordinal_le (h : key ∈ keys) : ordinal keys key ≤ keys.eraseDups.length :=
  List.idxOf_lt_length_of_mem (List.mem_eraseDups.mpr h)

theorem ordinal_inj (h : key ∈ keys) (other : String) :
    ordinal keys key = ordinal keys other ↔ key = other := by
  have hmem : key ∈ keys.eraseDups := List.mem_eraseDups.mpr h
  rw [ordinal, ordinal, Nat.add_right_cancel_iff, List.idxOf_inj hmem]

theorem getElem?_ordinal (h : key ∈ keys) : keys.eraseDups[ordinal keys key - 1]? = some key := by
  have hlt := List.idxOf_lt_length_of_mem (List.mem_eraseDups.mpr h)
  rw [ordinal, Nat.add_sub_cancel, List.getElem?_eq_getElem hlt, List.getElem_idxOf]

theorem map_ordinal_append (before after : List String) :
    before.map (ordinal (before ++ after)) = before.map (ordinal before) :=
  List.map_congr_left fun _ hkey => ordinal_append hkey after

theorem largest_ordinals (keys : List String) :
    largest (keys.map (ordinal keys)) = keys.eraseDups.length := by
  induction keys using List.reverseRecOn with
  | nil => rfl
  | append_singleton before key ih =>
    have hstep : largest ((before ++ [key]).map (ordinal (before ++ [key]))) =
        max before.eraseDups.length (ordinal (before ++ [key]) key) := by
      rw [List.map_append, map_ordinal_append, largest, List.foldl_append, ← largest, ih]
      rfl
    rw [hstep]
    by_cases h : key ∈ before
    · rw [ordinal_append h, eraseDups_concat_of_mem h, Nat.max_eq_left (ordinal_le h)]
    · rw [ordinal_of_first h, eraseDups_concat_of_not_mem h, List.length_append,
        List.length_singleton]
      omega

/-- A key that has appeared before has its number again, and a new one gets the next number. -/
theorem ordinal_grows (before after : List String) (key : String) :
    let number := ordinal (before ++ key :: after)
    number key ∈ before.map number ∨ number key = largest (before.map number) + 1 := by
  intro number
  by_cases h : key ∈ before
  · exact .inl (List.mem_map_of_mem h)
  · right
    rw [map_ordinal_append, largest_ordinals]
    exact ordinal_of_first h after

end Ordinal

end Placeholder

open Placeholder

namespace Registry

/-- Keys with their values, without those that have none. -/
def held (lookup : String → Option Value) (keys : List String) : List (String × Value) :=
  keys.filterMap fun key => (lookup key).map (key, ·)

variable {lookup : String → Option Value} {keys : List String}

theorem held_append (a b : List String) : held lookup (a ++ b) = held lookup a ++ held lookup b :=
  List.filterMap_append

theorem held_cons {key : String} {value : Value} (h : lookup key = some value)
    (rest : List String) : held lookup (key :: rest) = (key, value) :: held lookup rest := by
  simp [held, h]

theorem map_held (h : ∀ key ∈ keys, (lookup key).isSome) :
    (held lookup keys).map (·.1) = keys ∧
      ((held lookup keys).map (·.2)).map some = keys.map lookup := by
  induction keys with
  | nil => exact ⟨rfl, rfl⟩
  | cons key rest ih =>
    obtain ⟨value, hvalue⟩ := Option.isSome_iff_exists.mp (h key List.mem_cons_self)
    obtain ⟨hkeys, hvalues⟩ := ih fun other hother => h other (List.mem_cons_of_mem key hother)
    rw [held_cons hvalue]
    simp only [List.map_cons, hkeys, hvalues, hvalue, and_self]

theorem fill_of_not_held {key : String} {ps : List Piece}
    (h : (Placeholder.keys ps).find? (fun key => (lookup key).isNone) = some key) (d : Dialect)
    (parameters : List (String × Value)) :
    fill lookup d parameters ps = .error (.unboundPlaceholder key) := by
  induction ps generalizing parameters with
  | nil => cases h
  | cons p rest ih =>
    cases p with
    | char c =>
      rw [keys_char_cons] at h
      simp only [fill, ih h]
    | key name =>
      rw [keys_key_cons, List.find?_cons] at h
      cases hvalue : lookup name with
      | none =>
        rw [hvalue] at h
        cases h
        simp only [fill, hvalue]
      | some value =>
        rw [hvalue] at h
        simp only [fill, hvalue, ih h]

/-- MySQL writes one form for all placeholders, and lists the value of each occurrence. -/
theorem fill_mysql {ps : List Piece} (h : ∀ key ∈ Placeholder.keys ps, (lookup key).isSome)
    (parameters : List (String × Value)) :
    fill lookup .mysql parameters ps =
      .ok (ps.flatMap (Piece.write fun _ => "?"),
        parameters ++ held lookup (Placeholder.keys ps)) := by
  induction ps generalizing parameters with
  | nil => simp [fill, held, Placeholder.keys]
  | cons p rest ih =>
    cases p with
    | char c =>
      rw [keys_char_cons] at h ⊢
      simp only [fill, ih h, List.flatMap_cons, Piece.write, List.singleton_append]
    | key name =>
      rw [keys_key_cons] at h ⊢
      obtain ⟨value, hvalue⟩ := Option.isSome_iff_exists.mp (h name List.mem_cons_self)
      have hrest := ih fun other hother => h other (List.mem_cons_of_mem name hother)
      simp only [fill, hvalue, Dialect.place, hrest, held_cons hvalue, List.flatMap_cons,
        List.append_assoc, List.singleton_append]
      rfl

theorem place_postgres {before : List String} {key : String} {value : Value}
    (h : ∀ other ∈ before, (lookup other).isSome) (hvalue : lookup key = some value) :
    Dialect.place .postgres (held lookup before.eraseDups) key value =
      (ordinal (before ++ [key]) key, held lookup (before ++ [key]).eraseDups) := by
  have hkeys := (map_held fun other hother => h other (List.mem_eraseDups.mp hother)).1
  have hlength := congrArg List.length hkeys
  rw [List.length_map] at hlength
  have hfind : (held lookup before.eraseDups).findIdx? (·.1 == key) =
      before.eraseDups.findIdx? (· == key) := by
    rw [← hkeys, List.findIdx?_map, hkeys]
    rfl
  rw [Dialect.place, hfind]
  by_cases hmem : key ∈ before
  · have hfound : before.eraseDups.findIdx? (· == key) = some (before.eraseDups.idxOf key) :=
      List.findIdx?_eq_some_iff_findIdx_eq.mpr
        ⟨List.idxOf_lt_length_of_mem (List.mem_eraseDups.mpr hmem), rfl⟩
    simp only [hfound]
    rw [ordinal_append hmem, eraseDups_concat_of_mem hmem]
    rfl
  · have hnone : before.eraseDups.findIdx? (· == key) = none := by
      rw [List.findIdx?_eq_none_iff]
      intro other hother
      have hne : other ≠ key := by
        rintro rfl
        exact hmem (List.mem_eraseDups.mp hother)
      simpa using hne
    simp only [hnone, hlength]
    rw [ordinal_of_first hmem, eraseDups_concat_of_not_mem hmem, held_append, held_cons hvalue]
    rfl

/-- PostgreSQL lists the value of each key once, where the key appears first. -/
theorem fill_postgres (before : List String) (ps : List Piece)
    (hbefore : ∀ key ∈ before, (lookup key).isSome)
    (h : ∀ key ∈ Placeholder.keys ps, (lookup key).isSome) :
    fill lookup .postgres (held lookup before.eraseDups) ps =
      .ok (ps.flatMap (Piece.write fun key =>
          "$" ++ (ordinal (before ++ Placeholder.keys ps) key).repr),
        held lookup (before ++ Placeholder.keys ps).eraseDups) := by
  induction ps generalizing before with
  | nil => simp [fill, Placeholder.keys]
  | cons p rest ih =>
    cases p with
    | char c =>
      rw [keys_char_cons] at h ⊢
      simp only [fill, ih before hbefore h, List.flatMap_cons, Piece.write, List.singleton_append]
    | key name =>
      rw [keys_key_cons] at h ⊢
      obtain ⟨value, hvalue⟩ := Option.isSome_iff_exists.mp (h name List.mem_cons_self)
      have hnext : ∀ key ∈ before ++ [name], (lookup key).isSome := by
        intro key hkey
        rcases List.mem_append.mp hkey with hkey | hkey
        · exact hbefore key hkey
        · exact h key (List.mem_cons.mpr (.inl (List.mem_singleton.mp hkey)))
      have hrest := ih (before ++ [name]) hnext fun other hother =>
        h other (List.mem_cons_of_mem name hother)
      -- what comes later does not change the number that the key gets here
      have hnumber : ordinal (before ++ [name]) name =
          ordinal (before ++ name :: Placeholder.keys rest) name := by
        have hlast : name ∈ before ++ [name] := List.mem_append_right _ List.mem_cons_self
        rw [← ordinal_append hlast (Placeholder.keys rest), List.append_assoc,
          List.singleton_append]
      simp only [List.append_assoc, List.singleton_append] at hrest
      simp only [fill, hvalue, place_postgres hbefore hvalue, hrest, hnumber, List.flatMap_cons,
        Piece.write]
      rfl

theorem getElem?_values_held (h : ∀ key ∈ keys, (lookup key).isSome) {key : String}
    (hkey : key ∈ keys) :
    ((held lookup keys.eraseDups).map (·.2))[ordinal keys key - 1]? = lookup key := by
  have hvalues := (map_held fun other hother => h other (List.mem_eraseDups.mp hother)).2
  obtain ⟨value, hvalue⟩ := Option.isSome_iff_exists.mp (h key hkey)
  have hat := congrArg (·[ordinal keys key - 1]?) hvalues
  simp only [List.getElem?_map, getElem?_ordinal hkey, Option.map_some, hvalue] at hat
  rw [hvalue, List.getElem?_map]
  exact Option.map_injective (fun _ _ => Option.some.inj) hat

end Registry

theorem Placeholder.largest_range' (n : Nat) : largest (List.range' 1 n) = n := by
  induction n with
  | zero => rfl
  | succ n ih =>
    rw [List.range'_concat, largest, List.foldl_append, ← largest, ih]
    simp only [List.foldl_cons, List.foldl_nil]
    omega

/--
The numbers of the parameters that placeholders become: MySQL counts them through, PostgreSQL gives
a key that has appeared its number again.
-/
def Dialect.numbers (d : Dialect) (keys : List String) : List Nat :=
  match d with
  | .mysql => List.range' 1 keys.length
  | .postgres => keys.map (ordinal keys)

theorem Dialect.largest_numbers (d : Dialect) (keys : List String) :
    largest (d.numbers keys) =
      match d with
      | .mysql => keys.length
      | .postgres => keys.eraseDups.length := by
  cases d with
  | mysql => exact largest_range' keys.length
  | postgres => exact largest_ordinals keys

namespace Registry

variable {r : Registry} {sql : String} {keys : List String}

/-- The values that binding lists, as a function of the keys of the placeholders. -/
def listed (r : Registry) (d : Dialect) (keys : List String) : List Value :=
  match d with
  | .mysql => (held r.get? keys).map (·.2)
  | .postgres => (held r.get? keys.eraseDups).map (·.2)

theorem map_held_get? (h : ∀ key ∈ keys, key ∈ r.keys) :
    (held r.get? keys).map (·.1) = keys ∧
      ((held r.get? keys).map (·.2)).map some = keys.map r.get? :=
  map_held fun key hkey => isSome_get?_iff.mpr (h key hkey)

theorem length_listed (d : Dialect) (h : ∀ key ∈ keys, key ∈ r.keys) :
    (r.listed d keys).length = largest (d.numbers keys) := by
  rw [d.largest_numbers]
  cases d with
  | mysql =>
    have hkeys := congrArg List.length (map_held_get? h).1
    simpa [listed] using hkeys
  | postgres =>
    have hkeys := congrArg List.length
      (map_held_get? fun key hkey => h key (List.mem_eraseDups.mp hkey)).1
    simpa [listed] using hkeys

theorem map_getElem?_range' {α : Type} (as : List α) :
    (List.range' 1 as.length).map (fun n => as[n - 1]?) = as.map some := by
  apply List.ext_getElem?
  intro i
  rw [List.getElem?_map, List.getElem?_map]
  by_cases hi : i < as.length
  · rw [List.getElem?_range' hi]
    simp [hi]
  · have hend : as.length ≤ i := Nat.le_of_not_lt hi
    rw [List.getElem?_eq_none (by simpa using hend), List.getElem?_eq_none hend]
    rfl

/-- The value at the number of a placeholder is the one that its key has. -/
theorem getElem?_listed (d : Dialect) (h : ∀ key ∈ keys, key ∈ r.keys) :
    (d.numbers keys).map (fun n => (r.listed d keys)[n - 1]?) = keys.map r.get? := by
  cases d with
  | mysql =>
    obtain ⟨hkeys, hvalues⟩ := map_held_get? h
    have hlength := congrArg List.length hkeys
    rw [List.length_map] at hlength
    have hcounted := map_getElem?_range' ((held r.get? keys).map (·.2))
    rwa [List.length_map, hlength, hvalues] at hcounted
  | postgres =>
    rw [Dialect.numbers, List.map_map]
    apply List.map_congr_left
    intro key hkey
    exact getElem?_values_held (fun other hother => isSome_get?_iff.mpr (h other hother)) hkey

theorem held_or_first (r : Registry) (keys : List String) :
    (∀ key ∈ keys, key ∈ r.keys) ∨
      ∃ before key after, keys = before ++ key :: after ∧
        (∀ other ∈ before, other ∈ r.keys) ∧ key ∉ r.keys := by
  cases hfind : keys.find? (fun key => decide (key ∉ r.keys)) with
  | none =>
    left
    intro key hkey
    simpa using List.find?_eq_none.mp hfind key hkey
  | some key =>
    right
    obtain ⟨hkey, before, after, hsplit, hbefore⟩ := List.find?_eq_some_iff_append.mp hfind
    exact ⟨before, key, after, hsplit, by simpa using hbefore, by simpa using hkey⟩

/-- Binding fails at the first placeholder whose key is not held. -/
theorem bind_of_first (d : Dialect) {before after : List String} {key : String}
    (hsplit : Placeholder.keys (scan sql) = before ++ key :: after)
    (hbefore : ∀ other ∈ before, other ∈ r.keys) (hkey : key ∉ r.keys) :
    r.bind d sql = .error (.unboundPlaceholder key) := by
  have hnone : r.get? key = none := get?_eq_none_iff.mpr hkey
  have hfind : (Placeholder.keys (scan sql)).find? (fun key => (r.get? key).isNone) =
      some key := by
    refine List.find?_eq_some_iff_append.mpr ⟨by simp [hnone], before, after, hsplit, ?_⟩
    intro other hother
    have hsome := isSome_get?_iff.mpr (hbefore other hother)
    simpa using hsome
  rw [bind_eq_fill, fill_of_not_held hfind]
  rfl

/-- Binding succeeds if every key is held. -/
theorem bind_of_held (d : Dialect) (hkeys : Placeholder.keys (scan sql) = keys)
    (h : ∀ key ∈ keys, key ∈ r.keys) :
    r.bind d sql =
      .ok ⟨written (fun key => d.parameter (ordinal keys key)) sql, r.listed d keys⟩ := by
  have hsome : ∀ key ∈ Placeholder.keys (scan sql), (r.get? key).isSome := by
    rw [hkeys]
    exact fun key hkey => isSome_get?_iff.mpr (h key hkey)
  rw [bind_eq_fill]
  cases d with
  | mysql =>
    rw [fill_mysql hsome [], hkeys]
    rfl
  | postgres =>
    have hfill := fill_postgres [] (scan sql) (by simp) hsome
    rw [hkeys] at hfill
    rw [show ([] : List (String × Value)) = held r.get? ([] : List String).eraseDups from rfl,
      hfill]
    rfl

end Registry

/--
Binding a text fails for both dialects at the first placeholder whose key is not held, or it
succeeds for both, and the texts differ in the placeholders only: a dollar sign and a number for
PostgreSQL, a question mark for MySQL. PostgreSQL gives a key that has appeared its number again and
a new one the next number, different keys have different numbers, there are as many values as the
largest number says, and the values that the numbers stand for are those that MySQL lists, one for
each placeholder.
-/
theorem Registry.bind_dialects (r : Registry) (sql : String) :
    let keys := Placeholder.keys (scan sql)
    (∃ before key after, keys = before ++ key :: after ∧
      (∀ other ∈ before, other ∈ r.keys) ∧ key ∉ r.keys ∧
      ∀ d, r.bind d sql = .error (.unboundPlaceholder key)) ∨
    (∀ key ∈ keys, key ∈ r.keys) ∧
    ∃ (number : String → Nat) (numbered repeated : List Value),
      r.bind .postgres sql = .ok ⟨written (fun key => "$" ++ (number key).repr) sql, numbered⟩ ∧
      r.bind .mysql sql = .ok ⟨written (fun _ => "?") sql, repeated⟩ ∧
      (∀ before key after, keys = before ++ key :: after →
        number key ∈ before.map number ∨ number key = largest (before.map number) + 1) ∧
      (∀ key ∈ keys, ∀ other ∈ keys, number key = number other ↔ key = other) ∧
      numbered.length = largest (keys.map number) ∧ repeated.length = keys.length ∧
      repeated.map some = keys.map r.get? ∧
      repeated.map some = keys.map fun key => numbered[number key - 1]? := by
  intro keys
  rcases r.held_or_first keys with hheld | ⟨before, key, after, hsplit, hbefore, hkey⟩
  · have hvalues := (map_held_get? hheld).2
    have hrepeated := length_listed .mysql hheld
    rw [Dialect.largest_numbers] at hrepeated
    refine .inr ⟨hheld, ordinal keys, r.listed .postgres keys, r.listed .mysql keys,
      bind_of_held .postgres rfl hheld, bind_of_held .mysql rfl hheld, ?_, ?_,
      length_listed .postgres hheld, hrepeated, hvalues, ?_⟩
    · intro before key after hsplit
      rw [hsplit]
      exact ordinal_grows before after key
    · exact fun key hkey other _ => ordinal_inj hkey other
    · have hnumbered := getElem?_listed .postgres hheld
      rw [Dialect.numbers, List.map_map] at hnumbered
      exact hvalues.trans hnumbered.symm
  · exact .inl ⟨before, key, after, hsplit, hbefore, hkey, fun d =>
      bind_of_first d hsplit hbefore hkey⟩

/-- Two keys that appear twice, one of them next to a cast and behind a quoted colon. -/
theorem Registry.bind_dialects_twice :
    let r := (({} : Registry).register "a" (.int 1)).register "b" (.text "x")
    let sql := "SELECT ':b', a::text FROM t WHERE b = :b OR a = :a::int OR a > :a OR c = :b"
    let text := "SELECT ':b', a::text FROM t WHERE b = $1 OR a = $2::int OR a > $2 OR c = $1"
    r.bind .postgres sql = .ok ⟨text, [.text "x", .int 1]⟩ ∧
      r.bind .mysql sql =
        .ok ⟨"SELECT ':b', a::text FROM t WHERE b = ? OR a = ?::int OR a > ? OR c = ?",
          [.text "x", .int 1, .int 1, .text "x"]⟩ ∧
      ∃ number : String → Nat, number "b" = 1 ∧ number "a" = 2 ∧
        written (fun key => "$" ++ (number key).repr) sql = text := by
  intro r sql text
  have hkeys : Placeholder.keys (scan sql) = ["b", "a", "a", "b"] := by decide +kernel
  have hbind (d : Dialect) := bind_of_held (r := r) d hkeys (by decide)
  have hpostgres : r.bind .postgres sql = .ok ⟨text, [.text "x", .int 1]⟩ := by
    have htext : written (fun key => Dialect.parameter .postgres (ordinal ["b", "a", "a", "b"] key))
        sql = text := by decide +kernel
    rw [hbind, htext]
    rfl
  have hmysql : r.bind .mysql sql =
      .ok ⟨"SELECT ':b', a::text FROM t WHERE b = ? OR a = ?::int OR a > ? OR c = ?",
        [.text "x", .int 1, .int 1, .text "x"]⟩ := by
    have htext : written (fun key => Dialect.parameter .mysql (ordinal ["b", "a", "a", "b"] key))
        sql = "SELECT ':b', a::text FROM t WHERE b = ? OR a = ?::int OR a > ? OR c = ?" := by
      decide +kernel
    rw [hbind, htext]
    rfl
  refine ⟨hpostgres, hmysql, ?_⟩
  rcases r.bind_dialects sql with ⟨_, _, _, _, _, _, hfails⟩ |
    ⟨_, number, _, _, hnumbered, _, hgrows, hdiffer, _⟩
  · rw [hfails] at hmysql
    cases hmysql
  · rw [hpostgres] at hnumbered
    have hfirst : number "b" = 1 := by simpa [largest] using hgrows [] "b" _ hkeys
    have hother : number "a" ≠ number "b" := fun heq =>
      absurd ((hdiffer "a" (by simp [hkeys]) "b" (by simp [hkeys])).mp heq) (by decide)
    have hsecond := (hgrows ["b"] "a" _ hkeys).resolve_left (by simpa using hother)
    refine ⟨number, hfirst, by simpa [largest, hfirst] using hsecond, ?_⟩
    exact (congrArg (·.sql) (Except.ok.inj hnumbered)).symm

end BoundQuery
