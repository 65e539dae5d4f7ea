import BoundQuery.Registry

/-!
# Generated keys and registered values

A generated key is the stem of a column, an underscore and a number. The digits behind the last
underscore are the number, so keys with different numbers differ whatever their columns are. A
registry gives numbers in ascending order and never one twice; so what it registers under new keys
leaves the values of the keys made before as they were. None of this asks how the registry came
about or what it already holds.
-/

namespace BoundQuery

set_option autoImplicit false

/-- The characters of a placeholder's name: one that may begin it, then any that may go on. -/
def Placeholder.IsName (cs : List Char) : Prop :=
  ∃ c rest, cs = c :: rest ∧ Identifier.isKeyStart c = true ∧
    ∀ d ∈ rest, Identifier.isKeyChar d = true

namespace Identifier

theorem isKeyChar_of_isKeyStart {c : Char} (h : isKeyStart c = true) : isKeyChar c = true := by
  simp only [isKeyStart, isKeyChar, Char.isAlphanum, Bool.or_eq_true] at h ⊢
  exact h.imp_right Or.inl

theorem ne_colon_of_isKeyStart {c : Char} (h : isKeyStart c = true) : c ≠ ':' := by
  rintro rfl
  exact absurd h (by decide)

theorem isKeyChar_of_isDigit {c : Char} (h : c.isDigit = true) : isKeyChar c = true := by
  simp [isKeyChar, Char.isAlphanum, h]

theorem isKeyChar_stemChar (c : Char) : isKeyChar (stemChar c) = true := by
  unfold stemChar
  split
  next h => simp [isKeyChar, h]
  next => decide

theorem isKeyStart_stemChar {c : Char} (h : (stemChar c).isDigit = false) :
    isKeyStart (stemChar c) = true := by
  have hc := isKeyChar_stemChar c
  simpa only [isKeyChar, isKeyStart, Char.isAlphanum, h, Bool.or_false] using hc

theorem isName_stemChars (cs : List Char) : Placeholder.IsName (stemChars cs) := by
  unfold stemChars
  cases cs with
  | nil => exact ⟨'p', "aram".toList, rfl, by decide, List.all_eq_true.mp (by decide)⟩
  | cons c rest =>
    have hrest : ∀ d ∈ rest.map stemChar, isKeyChar d = true := by
      intro d hd
      obtain ⟨e, _, rfl⟩ := List.mem_map.mp hd
      exact isKeyChar_stemChar e
    simp only [List.map_cons]
    split
    · refine ⟨'_', _, rfl, by decide, ?_⟩
      intro d hd
      rcases List.mem_cons.mp hd with rfl | hd
      · exact isKeyChar_stemChar c
      · exact hrest d hd
    next h =>
      exact ⟨_, _, rfl, isKeyStart_stemChar (by simpa using h), hrest⟩

end Identifier

namespace Registry

theorem toList_keyOf (column : String) (n : Nat) :
    (keyOf column n).toList =
      Identifier.stemChars column.toList ++ '_' :: Nat.toDigits 10 n := by
  simp [keyOf]

theorem isName_keyOf (column : String) (n : Nat) : Placeholder.IsName (keyOf column n).toList := by
  obtain ⟨c, rest, hstem, hc, hrest⟩ := Identifier.isName_stemChars column.toList
  rw [toList_keyOf, hstem]
  refine ⟨c, _, rfl, hc, ?_⟩
  intro d hd
  rcases List.mem_append.mp hd with hd | hd
  · exact hrest d hd
  · rcases List.mem_cons.mp hd with rfl | hd
    · decide
    · exact Identifier.isKeyChar_of_isDigit
        (Nat.isDigit_of_mem_toDigits (by decide) (by decide) hd)

def numberChars (cs : List Char) : List Char := (cs.reverse.takeWhile (· != '_')).reverse

theorem numberChars_keyOf (column : String) (n : Nat) :
    numberChars (keyOf column n).toList = Nat.toDigits 10 n := by
  have hdigits : ∀ c ∈ (Nat.toDigits 10 n).reverse, (c != '_') = true := by
    intro c hc
    have hne : c ≠ '_' := by
      rintro rfl
      exact Nat.underscore_not_in_toDigits (List.mem_reverse.mp hc)
    simpa using hne
  rw [numberChars, toList_keyOf, List.reverse_append, List.reverse_cons, List.append_assoc,
    List.takeWhile_append_of_pos hdigits]
  simp

/-- The number of a key is read off its text. -/
theorem number_eq_of_keyOf_eq {a b : String} {m n : Nat} (h : keyOf a m = keyOf b n) : m = n := by
  have hdigits : Nat.toDigits 10 m = Nat.toDigits 10 n := by
    rw [← numberChars_keyOf a m, ← numberChars_keyOf b n, h]
  have hvalue := congrArg (fun cs => Nat.ofDigitChars 10 cs 0) hdigits
  simpa only [Nat.ofDigitChars_ten_toDigits] using hvalue

/-- The keys that columns get in order, behind `n` keys made before. -/
def keysFrom (n : Nat) : List String → List String
  | [] => []
  | column :: rest => keyOf column (n + 1) :: keysFrom (n + 1) rest

@[simp] theorem length_keysFrom (n : Nat) (columns : List String) :
    (keysFrom n columns).length = columns.length := by
  induction columns generalizing n with
  | nil => rfl
  | cons column rest ih => simp [keysFrom, ih]

theorem getElem?_keysFrom (n : Nat) (columns : List String) (i : Nat) :
    (keysFrom n columns)[i]? = columns[i]?.map fun column => keyOf column (n + i + 1) := by
  induction columns generalizing n i with
  | nil => rfl
  | cons column rest ih =>
    cases i with
    | zero => rfl
    | succ i =>
      rw [keysFrom, List.getElem?_cons_succ, List.getElem?_cons_succ, ih]
      simp only [Nat.add_assoc, Nat.add_comm 1]

/-- A key that was made with a number up to `n`. -/
def IssuedBy (n : Nat) (key : String) : Prop := ∃ column i, i ≤ n ∧ key = keyOf column i

theorem IssuedBy.mono {m n : Nat} {key : String} (hmn : m ≤ n) (h : IssuedBy m key) :
    IssuedBy n key := by
  obtain ⟨column, i, hi, rfl⟩ := h
  exact ⟨column, i, Nat.le_trans hi hmn, rfl⟩

theorem mem_keysFrom {n : Nat} {columns : List String} {key : String}
    (h : key ∈ keysFrom n columns) :
    ∃ column i, n < i ∧ i ≤ n + columns.length ∧ key = keyOf column i := by
  induction columns generalizing n with
  | nil => simp [keysFrom] at h
  | cons column rest ih =>
    rcases List.mem_cons.mp h with rfl | h
    · exact ⟨column, n + 1, by omega, by simp, rfl⟩
    · obtain ⟨other, i, hlow, hhigh, hkey⟩ := ih h
      exact ⟨other, i, by omega, by simp only [List.length_cons]; omega, hkey⟩

theorem issuedBy_of_mem_keysFrom {n : Nat} {columns : List String} {key : String}
    (h : key ∈ keysFrom n columns) : IssuedBy (n + columns.length) key := by
  obtain ⟨column, i, _, hi, rfl⟩ := mem_keysFrom h
  exact ⟨column, i, hi, rfl⟩

theorem not_mem_keysFrom {n : Nat} {columns : List String} {key : String}
    (h : IssuedBy n key) : key ∉ keysFrom n columns := by
  intro hmem
  obtain ⟨column, i, hi, rfl⟩ := h
  obtain ⟨other, j, hlow, _, hkey⟩ := mem_keysFrom hmem
  have hnumber := number_eq_of_keyOf_eq hkey
  omega

theorem nodup_keysFrom (n : Nat) (columns : List String) : (keysFrom n columns).Nodup := by
  induction columns generalizing n with
  | nil => exact List.nodup_nil
  | cons column rest ih =>
    exact List.nodup_cons.mpr ⟨not_mem_keysFrom ⟨column, n + 1, Nat.le_refl _, rfl⟩, ih (n + 1)⟩

theorem isName_of_mem_keysFrom {n : Nat} {columns : List String} {key : String}
    (h : key ∈ keysFrom n columns) : Placeholder.IsName key.toList := by
  obtain ⟨column, i, _, _, rfl⟩ := mem_keysFrom h
  exact isName_keyOf column i

theorem lookup_cons_eq (key other : String) (value : Value) (rest : List (String × Value)) :
    ((key, value) :: rest).lookup other =
      if other = key then some value else rest.lookup other := by
  by_cases h : other = key
  · simp [h]
  · simp [List.lookup_cons, beq_eq_false_iff_ne.mpr h, h]

theorem lookup_assign (key other : String) (value : Value) (entries : List (String × Value)) :
    (assign key value entries).lookup other =
      if other = key then some value else entries.lookup other := by
  induction entries with
  | nil => exact lookup_cons_eq key other value []
  | cons entry rest ih =>
    obtain ⟨k, v⟩ := entry
    by_cases hk : k = key
    · subst hk
      simp only [assign, if_pos, lookup_cons_eq]
      split <;> rfl
    · simp only [assign, if_neg hk, lookup_cons_eq, ih]
      by_cases h : other = k
      · have hne : other ≠ key := by rw [h]; exact hk
        simp only [if_pos h, if_neg hne]
      · simp only [if_neg h]

theorem lookup_eq_some_iff {entries : List (String × Value)} (h : (entries.map (·.1)).Nodup)
    (key : String) (value : Value) :
    entries.lookup key = some value ↔ (key, value) ∈ entries := by
  induction entries with
  | nil => simp
  | cons entry rest ih =>
    obtain ⟨hfresh, hrest⟩ := List.nodup_cons.mp h
    rw [lookup_cons_eq, List.mem_cons]
    by_cases hkey : key = entry.1
    · subst hkey
      have habsent : (entry.1, value) ∉ rest := fun hmem =>
        hfresh (List.mem_map.mpr ⟨_, hmem, rfl⟩)
      simp [habsent, Prod.ext_iff, eq_comm]
    · rw [if_neg hkey, ih hrest]
      simp [Prod.ext_iff, hkey]

/-- A value is held under a key if and only if it is an entry. -/
theorem get?_eq_some_iff {r : Registry} {key : String} {value : Value} :
    r.get? key = some value ↔ (key, value) ∈ r.entries :=
  lookup_eq_some_iff r.distinct key value

theorem isSome_get?_iff {r : Registry} {key : String} : (r.get? key).isSome ↔ key ∈ r.keys := by
  rw [Option.isSome_iff_exists, keys, List.mem_map]
  simp only [get?_eq_some_iff]
  constructor
  · rintro ⟨value, hmem⟩
    exact ⟨(key, value), hmem, rfl⟩
  · rintro ⟨entry, hmem, rfl⟩
    exact ⟨entry.2, hmem⟩

theorem get?_eq_none_iff {r : Registry} {key : String} : r.get? key = none ↔ key ∉ r.keys := by
  rw [← isSome_get?_iff, Bool.not_eq_true, Option.isSome_eq_false_iff, Option.isNone_iff_eq_none]

theorem foldl_collect {entries : List (String × Value)} (h : (entries.map (·.1)).Nodup)
    (map : String → Option Value) (key : String) :
    entries.foldl (fun map entry key => if key = entry.1 then some entry.2 else map key) map key =
      (entries.lookup key).or (map key) := by
  induction entries generalizing map with
  | nil => rfl
  | cons entry rest ih =>
    obtain ⟨hfresh, hrest⟩ := List.nodup_cons.mp h
    rw [List.foldl_cons, ih hrest, lookup_cons_eq]
    by_cases hkey : key = entry.1
    · subst hkey
      have habsent : rest.lookup entry.1 = none := by
        rw [Option.eq_none_iff_forall_ne_some]
        intro value hvalue
        have hmem := (lookup_eq_some_iff hrest _ value).mp hvalue
        exact hfresh (List.mem_map.mpr ⟨_, hmem, rfl⟩)
      rw [habsent, if_pos rfl, if_pos rfl]
      rfl
    · rw [if_neg hkey, if_neg hkey]

/-- The map of the entries gives what a search for the first entry gives, as no key has two. -/
theorem collect_entries (r : Registry) : collect r.entries = r.get? := by
  funext key
  rw [collect, foldl_collect r.distinct, Option.or_none]
  rfl

theorem get?_register (r : Registry) (key other : String) (value : Value) :
    (r.register key value).get? other = if other = key then some value else r.get? other :=
  lookup_assign key other value r.entries

theorem pushAll_cons (r : Registry) (cell : String × Value) (rest : List (String × Value)) :
    r.pushAll (cell :: rest) =
      ((r.push cell.1 cell.2).1 :: ((r.push cell.1 cell.2).2.pushAll rest).1,
        ((r.push cell.1 cell.2).2.pushAll rest).2) := rfl

theorem fst_pushAll (r : Registry) (cells : List (String × Value)) :
    (r.pushAll cells).1 = keysFrom r.counter (cells.map (·.1)) := by
  induction cells generalizing r with
  | nil => rfl
  | cons cell rest ih =>
    obtain ⟨column, value⟩ := cell
    simp only [pushAll, push, generate, List.map_cons, keysFrom]
    rw [ih]
    rfl

theorem counter_pushAll (r : Registry) (cells : List (String × Value)) :
    (r.pushAll cells).2.counter = r.counter + cells.length := by
  induction cells generalizing r with
  | nil => rfl
  | cons cell rest ih =>
    rw [pushAll_cons, ih, List.length_cons]
    change r.counter + 1 + rest.length = _
    omega

theorem pushAll_append (r : Registry) (a b : List (String × Value)) :
    r.pushAll (a ++ b) =
      ((r.pushAll a).1 ++ ((r.pushAll a).2.pushAll b).1, ((r.pushAll a).2.pushAll b).2) := by
  induction a generalizing r with
  | nil => rfl
  | cons cell rest ih =>
    obtain ⟨column, value⟩ := cell
    simp only [List.cons_append, pushAll, ih]

theorem get?_pushAll_of_not_mem (r : Registry) (cells : List (String × Value)) {key : String}
    (h : key ∉ keysFrom r.counter (cells.map (·.1))) :
    (r.pushAll cells).2.get? key = r.get? key := by
  induction cells generalizing r with
  | nil => rfl
  | cons cell rest ih =>
    obtain ⟨column, value⟩ := cell
    simp only [List.map_cons, keysFrom, List.mem_cons, not_or] at h
    simp only [pushAll, push, generate]
    rw [ih _ h.2, get?_register, if_neg h.1]
    rfl

theorem get?_pushAll_of_issuedBy (r : Registry) (cells : List (String × Value)) {key : String}
    (h : IssuedBy r.counter key) : (r.pushAll cells).2.get? key = r.get? key :=
  get?_pushAll_of_not_mem r cells (not_mem_keysFrom h)

theorem held_pushAll {r : Registry} {keys : List String} {values : List Value}
    (hissued : ∀ key ∈ keys, IssuedBy r.counter key) (hheld : keys.map r.get? = values.map some)
    (cells : List (String × Value)) :
    keys.map (r.pushAll cells).2.get? = values.map some := by
  rw [← hheld]
  apply List.map_congr_left
  intro key hkey
  exact get?_pushAll_of_issuedBy r cells (hissued key hkey)

theorem get?_pushAll (r : Registry) (cells : List (String × Value)) :
    (keysFrom r.counter (cells.map (·.1))).map (r.pushAll cells).2.get? =
      cells.map fun cell => some cell.2 := by
  induction cells generalizing r with
  | nil => rfl
  | cons cell rest ih =>
    obtain ⟨column, value⟩ := cell
    simp only [List.map_cons, keysFrom, pushAll, push, generate, List.cons.injEq]
    constructor
    · rw [get?_pushAll_of_issuedBy _ _ ⟨column, r.counter + 1, Nat.le_refl _, rfl⟩,
        get?_register, if_pos rfl]
    · exact ih (({ r with counter := r.counter + 1 } : Registry).register
        (keyOf column (r.counter + 1)) value)

/-- The key that is made next has a number of its own. -/
theorem not_issuedBy_next (r : Registry) (column : String) :
    ¬ IssuedBy r.counter (r.generate column).1 := by
  rintro ⟨other, i, hi, hkey⟩
  have hnumber := number_eq_of_keyOf_eq hkey
  omega

/-- Every key was made by this registry, so the next one is new. -/
def IsIssued (r : Registry) : Prop := ∀ key ∈ r.keys, IssuedBy r.counter key

theorem IsIssued.push {r : Registry} (h : r.IsIssued) (column : String) (value : Value) :
    (r.push column value).2.entries = r.entries ++ [(keyOf column (r.counter + 1), value)] ∧
      (r.push column value).2.IsIssued := by
  have hfresh : keyOf column (r.counter + 1) ∉ r.entries.map (·.1) :=
    fun hmem => r.not_issuedBy_next column (h _ hmem)
  have hentries := assign_of_not_mem value hfresh
  refine ⟨hentries, ?_⟩
  intro key hkey
  have hmem : key ∈ (assign (keyOf column (r.counter + 1)) value r.entries).map (·.1) := hkey
  rw [hentries, List.map_append] at hmem
  rcases List.mem_append.mp hmem with hold | hnew
  · exact (h key hold).mono (Nat.le_succ _)
  · exact ⟨column, r.counter + 1, Nat.le_refl _, List.mem_singleton.mp hnew⟩

theorem IsIssued.pushAll {r : Registry} (h : r.IsIssued) (cells : List (String × Value)) :
    (r.pushAll cells).2.entries =
        r.entries ++ (keysFrom r.counter (cells.map (·.1))).zip (cells.map (·.2)) ∧
      (r.pushAll cells).2.IsIssued := by
  induction cells generalizing r with
  | nil => exact ⟨(List.append_nil _).symm, h⟩
  | cons cell rest ih =>
    obtain ⟨hentries, hissued⟩ := h.push cell.1 cell.2
    obtain ⟨hrest, hend⟩ := ih hissued
    rw [pushAll_cons]
    refine ⟨?_, hend⟩
    rw [hrest, hentries, List.append_assoc]
    rfl

theorem isIssued_empty : ({} : Registry).IsIssued := fun _ h => absurd h List.not_mem_nil

end Registry

end BoundQuery
