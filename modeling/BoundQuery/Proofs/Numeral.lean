import BoundQuery.Text.Blank
import BoundQuery.Text.Numeral

/-!
# What a numeral spells

A numeral is at least one digit behind an optional sign. Reading takes exactly the numerals of the
numbers in range, with the number that they spell, and what writing gives is a numeral of its
number. No character of a numeral is a blank, so blanks around it can be put and taken away.
-/

namespace BoundQuery.Text

set_option autoImplicit false

/-- Digits, at least one, and the natural number that they spell. -/
structure Digits (cs : List Char) (n : Nat) : Prop where
  ne_nil : cs ≠ []
  isDigit : ∀ c ∈ cs, c.isDigit
  value : Nat.ofDigitChars 10 cs 0 = n

/-- A numeral and the integer that it spells. -/
inductive Spells : List Char → Int → Prop where
  | bare {cs : List Char} {n : Nat} (h : Digits cs n) : Spells cs n
  | plus {cs : List Char} {n : Nat} (h : Digits cs n) : Spells ('+' :: cs) n
  | minus {cs : List Char} {n : Nat} (h : Digits cs n) : Spells ('-' :: cs) (-n)

variable {cs : List Char} {limit n : Nat} {excess : NumeralError}

theorem digits_toDigits (n : Nat) : Digits (Nat.toDigits 10 n) n where
  ne_nil := Nat.toDigits_ne_nil
  isDigit _ hc := Nat.isDigit_of_mem_toDigits (by decide) (by decide) hc
  value := Nat.ofDigitChars_ten_toDigits

/-- The digits of a number above zero do not begin with zero. -/
theorem toDigits_ne_zero_cons (hn : 0 < n) (rest : List Char) :
    Nat.toDigits 10 n ≠ '0' :: rest := by
  induction n using Nat.strongRecOn generalizing rest with
  | ind n ih =>
    by_cases hsmall : n < 10
    · rw [Nat.toDigits_of_lt_base hsmall]
      intro h
      have hzero := Nat.digitChar_eq_zero.mp (List.cons.inj h).1
      omega
    · have hdigits := Nat.toDigits_of_base_le (b := 10) (n := n) (by decide) (by omega)
      rw [hdigits]
      intro h
      cases hfront : Nat.toDigits 10 (n / 10) with
      | nil => exact Nat.toDigits_ne_nil hfront
      | cons c front =>
        rw [hfront] at h
        cases h
        exact ih (n / 10) (by omega) (by omega) front hfront

theorem le_ofDigitChars (sum : Nat) (cs : List Char) : sum ≤ Nat.ofDigitChars 10 cs sum := by
  rw [Nat.ofDigitChars_eq_ofDigitChars_zero]
  have hle : 1 * sum ≤ 10 ^ cs.length * sum :=
    Nat.mul_le_mul_right sum (Nat.pow_pos (by decide))
  omega

theorem ofDigitChars_step (c : Char) (cs : List Char) (sum : Nat) :
    Nat.ofDigitChars 10 (c :: cs) sum = Nat.ofDigitChars 10 cs (sum * 10 + digitValue c) := by
  rw [Nat.ofDigitChars_cons, digitValue, Nat.mul_comm]

theorem readDigits_eq_ok_iff {sum : Nat} (hsum : sum ≤ limit) :
    readDigits limit excess sum cs = .ok n ↔
      (∀ c ∈ cs, c.isDigit) ∧ Nat.ofDigitChars 10 cs sum = n ∧ n ≤ limit := by
  induction cs generalizing sum with
  | nil =>
    rw [readDigits, Except.ok.injEq, Nat.ofDigitChars_nil]
    constructor
    · rintro rfl
      exact ⟨by simp, rfl, hsum⟩
    · exact fun h => h.2.1
  | cons c rest ih =>
    rw [readDigits, ofDigitChars_step, List.forall_mem_cons]
    by_cases hdigit : c.isDigit = true
    · by_cases hnext : sum * 10 + digitValue c ≤ limit
      · simp only [hdigit, hnext, ↓reduceIte, ih hnext, true_and]
      · have hgrown := le_ofDigitChars (sum * 10 + digitValue c) rest
        simp only [hdigit, hnext, ↓reduceIte, reduceCtorEq, false_iff]
        omega
    · simp [hdigit]

theorem readUnsigned_eq_ok_iff :
    readUnsigned limit excess cs = .ok n ↔ Digits cs n ∧ n ≤ limit := by
  cases cs with
  | nil =>
    constructor
    · intro h
      cases h
    · exact fun h => absurd rfl h.1.ne_nil
  | cons c rest =>
    rw [readUnsigned, readDigits_eq_ok_iff (Nat.zero_le limit)]
    · exact ⟨fun ⟨hdigit, hvalue, hn⟩ => ⟨⟨List.cons_ne_nil c rest, hdigit, hvalue⟩, hn⟩,
        fun ⟨h, hn⟩ => ⟨h.isDigit, h.value, hn⟩⟩
    · exact List.cons_ne_nil c rest

theorem ne_sign_of_isDigit {c : Char} (h : c.isDigit = true) : c ≠ '+' ∧ c ≠ '-' := by
  constructor <;> rintro rfl <;> cases h

theorem Digits.unique {m : Nat} (h : Digits cs n) (h' : Digits cs m) : n = m :=
  h.value.symm.trans h'.value

theorem spells_plus_iff {i : Int} : Spells ('+' :: cs) i ↔ ∃ n : Nat, Digits cs n ∧ n = i := by
  constructor
  · intro h
    cases h with
    | bare h => exact absurd rfl (ne_sign_of_isDigit (h.isDigit _ List.mem_cons_self)).1
    | plus h => exact ⟨_, h, rfl⟩
  · rintro ⟨n, h, rfl⟩
    exact .plus h

theorem spells_minus_iff {i : Int} : Spells ('-' :: cs) i ↔ ∃ n : Nat, Digits cs n ∧ -n = i := by
  constructor
  · intro h
    cases h with
    | bare h => exact absurd rfl (ne_sign_of_isDigit (h.isDigit _ List.mem_cons_self)).2
    | minus h => exact ⟨_, h, rfl⟩
  · rintro ⟨n, h, rfl⟩
    exact .minus h

theorem spells_bare_iff {i : Int} (hplus : ∀ rest, cs ≠ '+' :: rest)
    (hminus : ∀ rest, cs ≠ '-' :: rest) : Spells cs i ↔ ∃ n : Nat, Digits cs n ∧ n = i := by
  constructor
  · intro h
    cases h with
    | bare h => exact ⟨_, h, rfl⟩
    | plus => exact absurd rfl (hplus _)
    | minus => exact absurd rfl (hminus _)
  · rintro ⟨n, h, rfl⟩
    exact .bare h

theorem Digits.ne_sign (h : Digits cs n) :
    (∀ rest, cs ≠ '+' :: rest) ∧ ∀ rest, cs ≠ '-' :: rest := by
  constructor <;> rintro rest rfl
  · exact absurd rfl (ne_sign_of_isDigit (h.isDigit _ List.mem_cons_self)).1
  · exact absurd rfl (ne_sign_of_isDigit (h.isDigit _ List.mem_cons_self)).2

theorem Spells.unique {i j : Int} (h : Spells cs i) (h' : Spells cs j) : i = j := by
  cases h with
  | bare h =>
    obtain ⟨m, hm, rfl⟩ := (spells_bare_iff h.ne_sign.1 h.ne_sign.2).mp h'
    rw [h.unique hm]
  | plus h =>
    obtain ⟨m, hm, rfl⟩ := spells_plus_iff.mp h'
    rw [h.unique hm]
  | minus h =>
    obtain ⟨m, hm, rfl⟩ := spells_minus_iff.mp h'
    rw [h.unique hm]

theorem map_readUnsigned_eq_ok_iff {f : Nat → Int} {i : Int} :
    (readUnsigned limit excess cs).map f = .ok i ↔ ∃ n, Digits cs n ∧ n ≤ limit ∧ f n = i := by
  cases hread : readUnsigned limit excess cs with
  | error e =>
    constructor
    · intro h
      cases h
    · rintro ⟨n, hdigits, hn, -⟩
      rw [readUnsigned_eq_ok_iff.mpr ⟨hdigits, hn⟩] at hread
      cases hread
  | ok m =>
    obtain ⟨hdigits, hm⟩ := readUnsigned_eq_ok_iff.mp hread
    constructor
    · intro h
      exact ⟨m, hdigits, hm, Except.ok.inj h⟩
    · rintro ⟨n, hdigits', -, rfl⟩
      rw [hdigits.unique hdigits']
      rfl

/-- Reading takes the numerals of the numbers in range. -/
theorem readInteger_eq_ok_iff {s : String} {i : Int} :
    readInteger limit s = .ok i ↔ Spells s.toList i ∧ -(limit : Int) - 1 ≤ i ∧ i ≤ limit := by
  unfold readInteger
  generalize s.toList = cs
  split
  next =>
    simp only [reduceCtorEq, false_iff]
    rintro ⟨⟨h⟩, -⟩
    exact h.ne_nil rfl
  next rest =>
    rw [map_readUnsigned_eq_ok_iff, spells_plus_iff]
    constructor
    · rintro ⟨n, hdigits, hn, rfl⟩
      exact ⟨⟨n, hdigits, rfl⟩, by simp only [Int.ofNat_eq_natCast]; omega⟩
    · rintro ⟨⟨n, hdigits, rfl⟩, -, hle⟩
      exact ⟨n, hdigits, by omega, rfl⟩
  next rest =>
    rw [map_readUnsigned_eq_ok_iff, spells_minus_iff]
    constructor
    · rintro ⟨n, hdigits, hn, rfl⟩
      exact ⟨⟨n, hdigits, rfl⟩, by simp only [Int.ofNat_eq_natCast]; omega⟩
    · rintro ⟨⟨n, hdigits, rfl⟩, hge, -⟩
      exact ⟨n, hdigits, by omega, rfl⟩
  next hplus hminus =>
    rw [map_readUnsigned_eq_ok_iff, spells_bare_iff hplus hminus]
    constructor
    · rintro ⟨n, hdigits, hn, rfl⟩
      exact ⟨⟨n, hdigits, rfl⟩, by simp only [Int.ofNat_eq_natCast]; omega⟩
    · rintro ⟨⟨n, hdigits, rfl⟩, -, hle⟩
      exact ⟨n, hdigits, by omega, rfl⟩

/-- A natural number is read from digits, or from digits behind a `+`. -/
theorem readNatural_eq_ok_iff {s : String} :
    readNatural limit s = .ok n ↔
      (Digits s.toList n ∨ ∃ rest, s.toList = '+' :: rest ∧ Digits rest n) ∧ n ≤ limit := by
  unfold readNatural
  generalize s.toList = cs
  split
  next =>
    constructor
    · intro h
      cases h
    · rintro ⟨h | ⟨rest, h, -⟩, -⟩
      · exact absurd rfl h.ne_nil
      · cases h
  next rest =>
    rw [readUnsigned_eq_ok_iff]
    constructor
    · intro h
      exact ⟨.inr ⟨rest, rfl, h.1⟩, h.2⟩
    · rintro ⟨h | ⟨rest', hrest, h⟩, hn⟩
      · exact absurd rfl (h.ne_sign.1 rest)
      · cases hrest
        exact ⟨h, hn⟩
  next hplus =>
    rw [readUnsigned_eq_ok_iff]
    constructor
    · intro h
      exact ⟨.inl h.1, h.2⟩
    · rintro ⟨h | ⟨rest, hrest, -⟩, hn⟩
      · exact ⟨h, hn⟩
      · exact absurd hrest (hplus rest)

/--
The numeral of an integer is read as a natural number, or else the integer is below one or beyond
the limit.
-/
theorem Spells.readNatural_outcomes {s : String} {i : Int} (h : Spells s.toList i)
    (limit : Nat) :
    (∃ m : Nat, readNatural limit s = .ok m ∧ (m : Int) = i ∧ m ≤ limit) ∨
      (∃ e, readNatural limit s = .error e) ∧ (i < 1 ∨ (limit : Int) < i) := by
  cases hread : readNatural limit s with
  | ok m =>
    obtain ⟨hdigits, hm⟩ := readNatural_eq_ok_iff.mp hread
    left
    refine ⟨m, rfl, ?_, hm⟩
    rcases hdigits with hdigits | ⟨rest, hrest, hdigits⟩
    · exact (Spells.bare hdigits).unique h
    · rw [hrest] at h
      exact (Spells.plus hdigits).unique h
  | error e =>
    right
    refine ⟨⟨e, rfl⟩, ?_⟩
    have hout {m : Nat}
        (hdigits : Digits s.toList m ∨ ∃ rest, s.toList = '+' :: rest ∧ Digits rest m) :
        limit < m := by
      apply Nat.lt_of_not_le
      intro hm
      rw [readNatural_eq_ok_iff.mpr ⟨hdigits, hm⟩] at hread
      cases hread
    generalize hcs : s.toList = cs at h hout
    cases h with
    | bare hdigits =>
      have := hout (.inl hdigits)
      omega
    | plus hdigits =>
      have := hout (.inr ⟨_, rfl, hdigits⟩)
      omega
    | minus hdigits => omega

theorem isInt64_toInt (n : Int64) : IsInt64 n.toInt := by
  have hlow := n.le_toInt
  have hhigh := n.toInt_lt
  unfold IsInt64 int64Max
  omega

theorem toInt_ofInt_of_isInt64 {i : Int} (h : IsInt64 i) : (Int64.ofInt i).toInt = i := by
  unfold IsInt64 int64Max at h
  exact Int64.toInt_ofInt_of_le (by omega) (by omega)

theorem readInt64_eq_ok_iff {s : String} {n : Int64} :
    readInt64 s = .ok n ↔ Spells s.toList n.toInt := by
  rw [readInt64]
  constructor
  · intro h
    cases hread : readInteger int64Max s with
    | error e =>
      rw [hread] at h
      cases h
    | ok i =>
      rw [hread] at h
      obtain ⟨hspells, hrange⟩ := readInteger_eq_ok_iff.mp hread
      rw [← Except.ok.inj h, toInt_ofInt_of_isInt64 hrange]
      exact hspells
  · intro h
    rw [readInteger_eq_ok_iff.mpr ⟨h, isInt64_toInt n⟩]
    exact congrArg Except.ok n.ofInt_toInt

theorem spells_integerText (i : Int) : Spells (integerText i).toList i := by
  cases i with
  | ofNat n =>
    rw [integerText, toList_naturalText]
    exact .bare (digits_toDigits n)
  | negSucc n =>
    rw [integerText, String.toList_append, toList_naturalText]
    exact .minus (digits_toDigits (n + 1))

section Blanks

variable {before after : List Char}

theorem isBlank_eq_false_of_mem {c : Char} (h : c.isDigit = true ∨ c = '+' ∨ c = '-') :
    isBlank c = false := by
  rcases h with h | rfl | rfl
  · have hrange : 48 ≤ c.toNat ∧ c.toNat ≤ 57 := Char.isDigit_iff_toNat.mp h
    simp [isBlank, blankRanges]
    omega
  · decide
  · decide

theorem Spells.plain {i : Int} (h : Spells cs i) : ∀ c ∈ cs, isBlank c = false := by
  intro c hc
  apply isBlank_eq_false_of_mem
  cases h with
  | bare h => exact .inl (h.isDigit c hc)
  | plus h => exact (List.mem_cons.mp hc).elim (fun hc => .inr (.inl hc)) (.inl <| h.isDigit c ·)
  | minus h => exact (List.mem_cons.mp hc).elim (fun hc => .inr (.inr hc)) (.inl <| h.isDigit c ·)

theorem trimLeft_of_plain (h : ∀ c ∈ cs, isBlank c = false) (hne : cs ≠ []) (rest : List Char) :
    trimLeft (cs ++ rest) = cs ++ rest := by
  cases cs with
  | nil => exact absurd rfl hne
  | cons c cs => exact List.dropWhile_cons_of_neg (by simp [h c List.mem_cons_self])

theorem trimLeft_append_blank (h : ∀ c ∈ before, isBlank c = true) (rest : List Char) :
    trimLeft (before ++ rest) = trimLeft rest := List.dropWhile_append_of_pos h

/-- Blanks around a part without any are what trimming takes away. -/
theorem trimChars_of_plain (hbefore : ∀ c ∈ before, isBlank c = true)
    (hafter : ∀ c ∈ after, isBlank c = true) (h : ∀ c ∈ cs, isBlank c = false) (hne : cs ≠ []) :
    trimChars (before ++ cs ++ after) = cs := by
  have hreverse : ∀ c ∈ cs.reverse, isBlank c = false := fun c hc => h c (List.mem_reverse.mp hc)
  have hbehind : ∀ c ∈ after.reverse, isBlank c = true :=
    fun c hc => hafter c (List.mem_reverse.mp hc)
  have hend := trimLeft_of_plain hreverse (by simpa using hne) []
  rw [trimChars, List.append_assoc, trimLeft_append_blank hbefore, trimLeft_of_plain h hne,
    List.reverse_append, trimLeft_append_blank hbehind]
  rw [List.append_nil] at hend
  rw [hend, List.reverse_reverse]

theorem exists_trimLeft (cs : List Char) :
    ∃ before, (∀ c ∈ before, isBlank c = true) ∧ cs = before ++ trimLeft cs :=
  ⟨cs.takeWhile isBlank, List.all_eq_true.mp List.all_takeWhile,
    List.takeWhile_append_dropWhile.symm⟩

theorem exists_trimChars (cs : List Char) :
    ∃ before after, (∀ c ∈ before, isBlank c = true) ∧ (∀ c ∈ after, isBlank c = true) ∧
      cs = before ++ trimChars cs ++ after := by
  obtain ⟨before, hbefore, hcs⟩ := exists_trimLeft cs
  obtain ⟨after, hafter, hrest⟩ := exists_trimLeft (trimLeft cs).reverse
  refine ⟨before, after.reverse, hbefore, fun c hc => hafter c (List.mem_reverse.mp hc), ?_⟩
  have hback := congrArg List.reverse hrest
  rw [List.reverse_reverse, List.reverse_append] at hback
  rw [trimChars, List.append_assoc, ← hback]
  exact hcs

/-- A text that holds the numeral of an integer between blanks, and nothing else. -/
def Shows (s : String) (i : Int) : Prop :=
  ∃ before numeral after, s.toList = before ++ numeral ++ after ∧
    (∀ c ∈ before, isBlank c = true) ∧ (∀ c ∈ after, isBlank c = true) ∧ Spells numeral i

theorem Spells.ne_nil {i : Int} (h : Spells cs i) : cs ≠ [] := by
  cases h with
  | bare h => exact h.ne_nil
  | plus => exact List.cons_ne_nil _ _
  | minus => exact List.cons_ne_nil _ _

theorem spells_trim_iff {s : String} {i : Int} : Spells (trim s).toList i ↔ Shows s i := by
  rw [toList_trim]
  constructor
  · intro h
    obtain ⟨before, after, hbefore, hafter, hcs⟩ := exists_trimChars s.toList
    exact ⟨before, _, after, hcs, hbefore, hafter, h⟩
  · rintro ⟨before, numeral, after, hcs, hbefore, hafter, h⟩
    rw [hcs, trimChars_of_plain hbefore hafter h.plain h.ne_nil]
    exact h

theorem Shows.unique {s : String} {i j : Int} (h : Shows s i) (h' : Shows s j) : i = j :=
  (spells_trim_iff.mpr h).unique (spells_trim_iff.mpr h')

theorem readInt64_trim_eq_ok_iff {s : String} {n : Int64} :
    readInt64 (trim s) = .ok n ↔ Shows s n.toInt :=
  readInt64_eq_ok_iff.trans spells_trim_iff

/-- Blanks around the text of an integer do not matter. -/
theorem trim_int64Text {before after : String} (hbefore : isBlankText before)
    (hafter : isBlankText after) (n : Int64) :
    trim (before ++ int64Text n ++ after) = int64Text n := by
  have hspells := spells_integerText n.toInt
  rw [isBlankText, List.all_eq_true] at hbefore hafter
  apply String.toList_injective
  rw [toList_trim, String.toList_append, String.toList_append]
  exact trimChars_of_plain hbefore hafter hspells.plain hspells.ne_nil

end Blanks

end BoundQuery.Text
