import BoundQuery.Json.Reader
import BoundQuery.Proofs.Numeral

/-!
# Integers in JSON text

An integer stands in a JSON text as a literal, or as the numeral of a string. A literal keeps its
digits in the document; it gets an integer for its value up to 64 bits, and a double beyond, as does
the literal `-0`. The text of an object with one member is read as that object.
-/

namespace BoundQuery

set_option autoImplicit false

open Text (Digits Spells)

namespace Spelling

variable {ds : List Char} {m sum : Nat}

/-- A spelling without fraction and exponent, and the integer that it spells. -/
inductive Literal : Spelling → Int → Prop where
  | natural {ds : List Char} {m : Nat} (h : Digits ds m) : Literal ⟨false, ds, [], none⟩ m
  | negative {ds : List Char} {m : Nat} (h : Digits ds m) : Literal ⟨true, ds, [], none⟩ (-m)

theorem accumulate_of_le (h : Nat.ofDigitChars 10 ds sum ≤ Text.uint64Max) :
    accumulate sum ds = (Nat.ofDigitChars 10 ds sum, []) := by
  induction ds generalizing sum with
  | nil => rfl
  | cons c rest ih =>
    rw [Text.ofDigitChars_step] at h ⊢
    have hgrown := Text.le_ofDigitChars (sum * 10 + Text.digitValue c) rest
    rw [accumulate, if_pos (Nat.le_trans hgrown h)]
    exact ih h

theorem left_accumulate_ne_nil (hsum : sum ≤ Text.uint64Max)
    (h : Text.uint64Max < Nat.ofDigitChars 10 ds sum) : (accumulate sum ds).2 ≠ [] := by
  induction ds generalizing sum with
  | nil => exact absurd hsum (Nat.not_le_of_lt h)
  | cons c rest ih =>
    rw [Text.ofDigitChars_step] at h
    unfold accumulate
    by_cases hnext : sum * 10 + Text.digitValue c ≤ Text.uint64Max
    · simp only [hnext, ↓reduceIte]
      exact ih hnext h
    · simp only [hnext, ↓reduceIte]
      exact List.cons_ne_nil c rest

theorem accumulate_of_digits (h : Digits ds m) (hm : m ≤ Text.uint64Max) :
    accumulate 0 ds = (m, []) := by
  rw [← h.value] at hm ⊢
  exact accumulate_of_le hm

theorem value?_natural_of_le (h : Digits ds m) (hm : m ≤ Text.uint64Max) :
    value? ⟨false, ds, [], none⟩ = some (.integer m) := by
  have hread := accumulate_of_digits h hm
  simp [value?, hread]

theorem value?_negative_of_le (h : Digits ds m) (hpos : 0 < m) (hm : m ≤ Text.int64Max + 1) :
    value? ⟨true, ds, [], none⟩ = some (.integer (-m)) := by
  have hbound : Text.int64Max + 1 ≤ Text.uint64Max := by decide
  have hread := accumulate_of_digits h (Nat.le_trans hm hbound)
  simp [value?, hread, hpos, hm]

/-- Digits beyond 64 bits are a double. -/
theorem value?_of_lt (h : Digits ds m) (hm : Text.uint64Max < m) (negative : Bool) :
    value? ⟨negative, ds, [], none⟩ = (toFloat? ⟨negative, ds, [], none⟩).map .float := by
  have hleft : (accumulate 0 ds).2 ≠ [] := by
    apply left_accumulate_ne_nil (Nat.zero_le _)
    rw [h.value]
    exact hm
  simp [value?, hleft]

theorem value?_negative_of_not (h : Digits ds m) (hm : ¬ (0 < m ∧ m ≤ Text.int64Max + 1)) :
    value? ⟨true, ds, [], none⟩ = (toFloat? ⟨true, ds, [], none⟩).map .float := by
  by_cases hle : m ≤ Text.uint64Max
  · have hread := accumulate_of_digits h hle
    simp [value?, hread, hm]
  · exact value?_of_lt h (Nat.lt_of_not_le hle) true

/-- A literal has the value of its integer, or else it is below one or beyond 64 bits. -/
theorem Literal.value?_outcomes {s : Spelling} {n : Int} (h : s.Literal n) :
    n ≤ Text.uint64Max ∧ s.value? = some (.integer n) ∨
      (n < 1 ∨ (Text.uint64Max : Int) < n) ∧ s.value? = s.toFloat?.map .float := by
  cases h with
  | @natural ds m h =>
    by_cases hm : m ≤ Text.uint64Max
    · exact .inl ⟨by omega, value?_natural_of_le h hm⟩
    · exact .inr ⟨.inr (by omega), value?_of_lt h (Nat.lt_of_not_le hm) false⟩
  | @negative ds m h =>
    by_cases hm : 0 < m ∧ m ≤ Text.int64Max + 1
    · exact .inl ⟨by omega, value?_negative_of_le h hm.1 hm.2⟩
    · exact .inr ⟨.inl (by omega), value?_negative_of_not h hm⟩

end Spelling

namespace Document

/-- A document that gives an integer: its literal, or a string with its numeral between blanks. -/
inductive Gives : Document → Int → Prop where
  | literal {s : Spelling} {n : Int} (h : s.Literal n) : Gives (.number s) n
  | numeral {s : String} {n : Int} (h : Text.Shows s n) : Gives (.string (some s)) n

section Reading

variable {cs rest : List Char}

/-- Characters that stand for themselves in a JSON string. -/
def IsBare (c : Char) : Prop := 0x20 ≤ c.toNat ∧ c ≠ '\x22' ∧ c ≠ '\\'

instance (c : Char) : Decidable (IsBare c) := inferInstanceAs (Decidable (_ ∧ _ ∧ _))

theorem readParts?_bare {c : Char} (h : IsBare c) (fuel : Nat) :
    readParts? (fuel + 1) (c :: cs) =
      (readParts? fuel cs).map fun (parts, rest) => (.char c :: parts, rest) := by
  obtain ⟨hlow, hquote, hescape⟩ := h
  have hplain : ¬ (c.toNat < 0x20 ∨ c = '\\') := by
    intro h
    rcases h with h | h
    · omega
    · exact hescape h
  rw [readParts?, if_neg hplain]
  · exact hquote
  · exact fun _ h _ => hescape h
  · exact fun _ _ h _ => hescape h

theorem readParts?_of_bare {fuel : Nat} (h : ∀ c ∈ cs, IsBare c) (hfuel : cs.length < fuel) :
    readParts? fuel (cs ++ '\x22' :: rest) = some (cs.map .char, rest) := by
  induction cs generalizing fuel with
  | nil =>
    obtain ⟨fuel, rfl⟩ := Nat.exists_eq_add_of_lt hfuel
    simp [readParts?]
  | cons c cs ih =>
    obtain ⟨hc, hcs⟩ := List.forall_mem_cons.mp h
    obtain ⟨fuel, rfl⟩ := Nat.exists_eq_add_of_lt hfuel
    rw [List.cons_append, readParts?_bare hc, ih hcs]
    · rfl
    · rw [List.length_cons]
      omega

theorem joinParts?_map_char (cs : List Char) : joinParts? (cs.map .char) = some cs := by
  induction cs with
  | nil => rfl
  | cons c cs ih => rw [List.map_cons, joinParts?, ih, Option.map_some]

theorem readString?_of_bare (h : ∀ c ∈ cs, IsBare c) :
    readString? (cs ++ '\x22' :: rest) = some (some (.ofList cs), rest) := by
  have hfuel : cs.length < (cs ++ '\x22' :: rest).length + 1 := by
    rw [List.length_append]
    omega
  rw [readString?, readParts?_of_bare h hfuel]
  simp only [Option.map_some, joinParts?_map_char]

theorem skipSpace_cons {c : Char} (h : isSpace c = false) : skipSpace (c :: cs) = c :: cs :=
  List.dropWhile_cons_of_neg (by simp [h])

/-- Characters that are read as a scalar in front of a closing bracket. -/
structure Scalar (cs : List Char) (document : Document) : Prop where
  read : ∀ rest, readScalar? (cs ++ '\x7d' :: rest) = some (document, '\x7d' :: rest)
  begins : ∃ c rest, cs = c :: rest ∧ isSpace c = false ∧ c ≠ '[' ∧ c ≠ '\x7b'

theorem Scalar.read? {document : Document} (h : Scalar cs document) (fuel depth : Nat) :
    read? (fuel + 1) depth (cs ++ '\x7d' :: rest) = some (document, '\x7d' :: rest) := by
  have hread := h.read rest
  obtain ⟨c, tail, rfl, hspace, hsquare, hcurly⟩ := h.begins
  rw [List.cons_append] at hread ⊢
  rw [Document.read?, skipSpace_cons hspace]
  split
  next heq =>
    cases heq
    exact absurd rfl hsquare
  next heq =>
    cases heq
    exact absurd rfl hcurly
  next => exact hread

theorem scalar_string (h : ∀ c ∈ cs, IsBare c) :
    Scalar ('\x22' :: (cs ++ ['\x22'])) (.string (some (.ofList cs))) where
  read rest := by
    rw [List.cons_append, List.append_assoc, List.singleton_append, readScalar?,
      readString?_of_bare h]
    rfl
  begins := ⟨_, _, rfl, rfl, by decide, by decide⟩

theorem readUnsigned?_of_digits {m : Nat} (h : Digits cs m)
    (hzero : ∀ tail, cs = '0' :: tail → tail = []) (negative : Bool) :
    readUnsigned? negative (cs ++ '\x7d' :: rest) =
      some (⟨negative, cs, [], none⟩, '\x7d' :: rest) := by
  have hdigits : (cs ++ '\x7d' :: rest).takeWhile Char.isDigit = cs := by
    rw [List.takeWhile_append_of_pos h.isDigit]
    exact List.append_nil cs
  obtain ⟨c, tail, rfl⟩ := List.exists_cons_of_ne_nil h.ne_nil
  by_cases hc : c = '0'
  · subst hc
    rw [hzero tail rfl]
    rfl
  · rw [List.cons_append] at hdigits ⊢
    simp [readUnsigned?, hc, hdigits, readExponent?]

theorem ne_of_number {c d : Char} (h : c.isDigit = true ∨ c = '-')
    (hd : (d.isDigit || d == '-') = false) : c ≠ d := by
  rintro rfl
  rcases h with h | rfl
  · rw [h] at hd
    cases hd
  · cases hd

/-- A number begins with a digit or with its sign. -/
theorem readScalar?_number {c : Char} (h : c.isDigit = true ∨ c = '-') :
    readScalar? (c :: cs) = (readNumber? (c :: cs)).map fun (n, rest) => (.number n, rest) := by
  have hnull : c ≠ 'n' := ne_of_number h rfl
  have htrue : c ≠ 't' := ne_of_number h rfl
  have hfalse : c ≠ 'f' := ne_of_number h rfl
  have hquote : c ≠ '\x22' := ne_of_number h rfl
  simp [readScalar?, hnull, htrue, hfalse, hquote]

theorem isSpace_number {c : Char} (h : c.isDigit = true ∨ c = '-') : isSpace c = false := by
  have hblank : c ≠ ' ' := ne_of_number h rfl
  have htab : c ≠ '\t' := ne_of_number h rfl
  have hline : c ≠ '\n' := ne_of_number h rfl
  have hreturn : c ≠ '\r' := ne_of_number h rfl
  simp [isSpace, hblank, htab, hline, hreturn]

theorem scalar_number {c : Char} {s : Spelling} (hc : c.isDigit = true ∨ c = '-')
    (h : ∀ rest, readNumber? (c :: (cs ++ '\x7d' :: rest)) = some (s, '\x7d' :: rest)) :
    Scalar (c :: cs) (.number s) where
  read rest := by
    rw [List.cons_append, readScalar?_number hc, h rest]
    rfl
  begins := ⟨c, cs, rfl, isSpace_number hc, ne_of_number hc rfl, ne_of_number hc rfl⟩

/-- The text of an integer is a literal of it. -/
theorem exists_scalar_integerText (n : Int) :
    ∃ s : Spelling, s.Literal n ∧ Scalar (Text.integerText n).toList (.number s) := by
  have hzero (m : Nat) (tail : List Char) (h : Nat.toDigits 10 m = '0' :: tail) : tail = [] := by
    rcases Nat.eq_zero_or_pos m with rfl | hm
    · exact (List.cons.inj h).2.symm
    · exact absurd h (Text.toDigits_ne_zero_cons hm tail)
  cases n with
  | ofNat m =>
    have hdigits := Text.digits_toDigits m
    refine ⟨_, .natural hdigits, ?_⟩
    have hread (rest : List Char) :
        readUnsigned? false (Nat.toDigits 10 m ++ '\x7d' :: rest) = _ :=
      readUnsigned?_of_digits hdigits (hzero m) false
    rw [Text.integerText, Text.toList_naturalText]
    obtain ⟨c, tail, htail⟩ := List.exists_cons_of_ne_nil hdigits.ne_nil
    rw [htail] at hdigits hread ⊢
    have hc := hdigits.isDigit c List.mem_cons_self
    apply scalar_number (.inl hc)
    intro rest
    have hplain : readNumber? (c :: (tail ++ '\x7d' :: rest)) =
        readUnsigned? false (c :: (tail ++ '\x7d' :: rest)) := by
      simp [readNumber?, (Text.ne_sign_of_isDigit hc).2]
    rw [hplain]
    exact hread rest
  | negSucc m =>
    have hdigits := Text.digits_toDigits (m + 1)
    refine ⟨_, .negative hdigits, ?_⟩
    rw [Text.integerText, String.toList_append, Text.toList_naturalText]
    apply scalar_number (.inr rfl)
    intro rest
    exact readUnsigned?_of_digits hdigits (hzero (m + 1)) true

/-- The text of an object with one member. -/
def memberText (key value : String) : String := "\x7b\x22" ++ key ++ "\x22:" ++ value ++ "\x7d"

theorem readKey?_of_bare (h : ∀ c ∈ cs, IsBare c) :
    readKey? ('\x22' :: (cs ++ '\x22' :: ':' :: rest)) = some (some (.ofList cs), rest) := by
  have hquote : isSpace '\x22' = false := rfl
  have hcolon : isSpace ':' = false := rfl
  simp only [readKey?, skipSpace_cons hquote, readString?_of_bare h, skipSpace_cons hcolon]

theorem readFields?_of_scalar {key : List Char} {document : Document} (hkey : ∀ c ∈ key, IsBare c)
    (h : Scalar cs document) (fuel depth : Nat) :
    readFields? (fuel + 2) depth
        ('\x22' :: (key ++ '\x22' :: ':' :: (cs ++ '\x7d' :: rest))) =
      some ([(some (.ofList key), document)], rest) := by
  have hclose : isSpace '\x7d' = false := rfl
  simp only [readFields?, readKey?_of_bare hkey, h.read?, skipSpace_cons hclose]

theorem read?_object (fuel depth : Nat) :
    read? (fuel + 1) (depth + 1) ('\x7b' :: '\x22' :: rest) =
      (readFields? fuel depth ('\x22' :: rest)).map fun (fields, rest) =>
        (.object fields, rest) := by
  have hopen : isSpace '\x7b' = false := rfl
  have hquote : isSpace '\x22' = false := rfl
  rw [read?, skipSpace_cons hopen]
  simp only [skipSpace_cons hquote]
  rfl

theorem ofText?_memberText {key value : String} {document : Document}
    (hkey : ∀ c ∈ key.toList, IsBare c) (h : Scalar value.toList document) :
    ofText? (memberText key value) = some (.object [(some key, document)]) := by
  have hchars : (memberText key value).toList =
      '\x7b' :: '\x22' :: (key.toList ++ '\x22' :: ':' :: (value.toList ++ ['\x7d'])) := by
    simp [memberText]
  obtain ⟨fuel, hfuel⟩ : ∃ fuel, 2 * (memberText key value).toList.length + 2 = fuel + 3 := by
    rw [hchars]
    exact ⟨_, rfl⟩
  have hread : read? (fuel + 3) maxDepth (memberText key value).toList =
      some (.object [(some key, document)], []) := by
    rw [hchars, maxDepth, read?_object, readFields?_of_scalar hkey h, String.ofList_toList]
    rfl
  simp only [ofText?, hfuel, hread]
  rfl

end Reading

section Members

variable {key : String}

theorem isBare_of_number {c : Char} (h : c.isDigit = true ∨ c = '-') : IsBare c := by
  refine ⟨?_, ne_of_number h rfl, ne_of_number h rfl⟩
  rcases h with h | rfl
  · have hrange : 48 ≤ c.toNat ∧ c.toNat ≤ 57 := Char.isDigit_iff_toNat.mp h
    omega
  · decide

theorem isBare_of_mem_integerText {n : Int} {c : Char} (h : c ∈ (Text.integerText n).toList) :
    IsBare c := by
  apply isBare_of_number
  cases n with
  | ofNat m =>
    rw [Text.integerText, Text.toList_naturalText] at h
    exact .inl ((Text.digits_toDigits m).isDigit c h)
  | negSucc m =>
    rw [Text.integerText, String.toList_append, Text.toList_naturalText] at h
    rcases List.mem_append.mp h with h | h
    · exact .inr (List.mem_singleton.mp h)
    · exact .inl ((Text.digits_toDigits (m + 1)).isDigit c h)

/-- An integer as a literal in the text of an object. -/
theorem exists_ofText?_integerText (hkey : ∀ c ∈ key.toList, IsBare c) (n : Int) :
    ∃ document : Document, document.Gives n ∧
      ofText? (memberText key (Text.integerText n)) = some (.object [(some key, document)]) := by
  obtain ⟨s, hliteral, hscalar⟩ := exists_scalar_integerText n
  exact ⟨.number s, .literal hliteral, ofText?_memberText hkey hscalar⟩

theorem ofText?_quoted (hkey : ∀ c ∈ key.toList, IsBare c) {text : String}
    (htext : ∀ c ∈ text.toList, IsBare c) :
    ofText? (memberText key ("\x22" ++ text ++ "\x22")) =
      some (.object [(some key, .string (some text))]) := by
  apply ofText?_memberText hkey
  have hscalar := scalar_string htext
  rw [String.ofList_toList] at hscalar
  simpa using hscalar

end Members

end Document

end BoundQuery
