import BoundQuery.Proofs.Postgres.Integers

/-!
# Spellings of an integer

An integer and a numeral that spells it are sent alike to the types of integers and to `numeric`,
whatever blanks stand around the numeral; to the types of text an integer goes as its own numeral. A
truth value is sent to every type as one or zero is.
-/

namespace BoundQuery

set_option autoImplicit false

namespace Decimal

open Text (Digits Spells)

/-- Digits of 64 bits are read to the end: before the last one the mantissa is never long. -/
theorem readDigits?_of_digits {ds : List Char} {mantissa : Nat} (negative seen : Bool)
    (hne : ds ≠ []) (hdigit : ∀ c ∈ ds, c.isDigit)
    (hsmall : Nat.ofDigitChars 10 ds mantissa < 10 * longBound) :
    readDigits? negative mantissa 0 false seen ds =
      some (ofParts negative (Nat.ofDigitChars 10 ds mantissa) 0) := by
  induction ds generalizing mantissa seen with
  | nil => exact absurd rfl hne
  | cons c rest ih =>
    obtain ⟨hc, hrest⟩ := List.forall_mem_cons.mp hdigit
    rw [Text.ofDigitChars_step] at hsmall ⊢
    cases rest with
    | nil => simp [readDigits?, hc]
    | cons d more =>
      have hgrown := Text.le_ofDigitChars
        ((mantissa * 10 + Text.digitValue c) * 10 + Text.digitValue d) more
      rw [← Text.ofDigitChars_step] at hgrown
      have hshort : ¬ longBound ≤ mantissa * 10 + Text.digitValue c := by omega
      rw [readDigits?]
      simp only [hc, ↓reduceIte, Bool.false_eq_true, false_and, hshort]
      exact ih true (List.cons_ne_nil d more) hrest hsmall

theorem readPlain?_of_spells {cs : List Char} {i : Int} (h : Spells cs i) (hi : Text.IsInt64 i) :
    readPlain? cs = some (ofInt i) := by
  have hbound : 10 * longBound = 18446744073709549060 := rfl
  have hread {ds : List Char} {n : Nat} (negative : Bool) (h : Digits ds n)
      (hn : n < 10 * longBound) :
      readDigits? negative 0 0 false false ds = some (ofParts negative n 0) := by
    rw [readDigits?_of_digits negative false h.ne_nil h.isDigit (h.value.symm ▸ hn), h.value]
  unfold Text.IsInt64 Text.int64Max at hi
  cases h with
  | @bare _ n h =>
    have hplain : readPlain? cs = readDigits? false 0 0 false false cs := by
      unfold readPlain?
      split
      next => exact absurd rfl h.ne_nil
      next => exact absurd rfl (h.ne_sign.2 _)
      next => exact absurd rfl (h.ne_sign.1 _)
      next => rfl
    rw [hplain, hread false h (by omega)]
    simp [ofParts, ofInt]
  | @plus _ n h =>
    rw [readPlain?, hread false h (by omega)]
    simp [ofParts, ofInt]
  | @minus _ n h =>
    rw [readPlain?, hread true h (by omega)]
    cases n <;> simp [ofParts, ofInt]
    omega

/-- A numeral of 64 bits is read as the number that it spells. -/
theorem ofText?_of_shows {s : String} {i : Int} (h : Text.Shows s i) (hi : Text.IsInt64 i) :
    ofText? (Text.trim s) = some (ofInt i) := by
  rw [ofText?, readPlain?_of_spells (Text.spells_trim_iff.mpr h) hi]
  rfl

end Decimal

namespace Postgres

variable {type : SqlType}

/-- The types that take an integer as a number that is exact. -/
def exactTypes : List SqlType := [.int2, .int4, .int8, .numeric]

theorem encodeText_of_shows (htype : type ∈ exactTypes) {s : String} {n : Int64}
    (h : Text.Shows s n.toInt) : encodeText type s = encodeInt type n := by
  have hinteger (t : IntegerType) : encodeText t.type s = encodeInt t.type n := by
    rw [encodeText_type, encodeNumeral, Text.readInt64_trim_eq_ok_iff.mpr h]
  simp only [exactTypes, List.mem_cons, List.not_mem_nil, or_false] at htype
  rcases htype with rfl | rfl | rfl | rfl
  · exact hinteger .int2
  · exact hinteger .int4
  · exact hinteger .int8
  · rw [encodeText, Decimal.ofText?_of_shows h (Text.isInt64_toInt n)]
    rfl

theorem encodeInt_outcomes (htype : type ∈ exactTypes) (n : Int64) :
    (∃ bytes, encodeInt type n = .ok bytes) ∨ encodeInt type n = .error .range := by
  have hinteger (t : IntegerType) :
      (∃ bytes, encodeInt t.type n = .ok bytes) ∨ encodeInt t.type n = .error .range := by
    rw [encodeInt_type]
    by_cases hfits : Bytes.Fits t.width n.toInt
    · exact .inl ⟨_, integerBytes_of_fits hfits⟩
    · exact .inr (integerBytes_of_not_fits hfits)
  simp only [exactTypes, List.mem_cons, List.not_mem_nil, or_false] at htype
  rcases htype with rfl | rfl | rfl | rfl
  · exact hinteger .int2
  · exact hinteger .int4
  · exact hinteger .int8
  · exact .inl ⟨_, rfl⟩

theorem encodeText_of_textForm {form : TextForm} (h : type.textForm? = some form) (s : String) :
    encodeText type s = .ok (form.encode s) := by
  have hbytes (kind : ValueKind) : textBytes type kind s = .ok (form.encode s) := by
    rw [textBytes, h]
  cases type
  case text | varchar | bpchar | name | unknown | other => exact hbytes .text
  all_goals cases h

theorem encodeInt_of_textForm {form : TextForm} (h : type.textForm? = some form) (n : Int64) :
    encodeInt type n = .ok (form.encode (Text.int64Text n)) := by
  have hbytes : textBytes type .integer (Text.int64Text n) =
      .ok (form.encode (Text.int64Text n)) := by
    rw [textBytes, h]
  cases type
  case text | varchar | bpchar | name | unknown | other => exact hbytes
  all_goals cases h

theorem encodeBool_eq (type : SqlType) (b : Bool) :
    encodeBool type b = encodeInt type (if b then 1 else 0) := by
  cases type
  case bool => cases b <;> rfl
  all_goals rfl

/--
Which of the spellings of an integer is bound makes no difference. To the exact types its numeral
is sent as the integer is, whatever blanks are around it, and both fail only if the integer is out
of range; to a type of text both go as the numeral. A truth value goes to every type as one or zero
does.
-/
theorem encode_spelling (n : Int64) :
    (∀ type ∈ exactTypes, ∀ before after : String,
      Text.isBlankText before → Text.isBlankText after →
      encode type (.text (before ++ Text.int64Text n ++ after)) = encode type (.int n) ∧
      ((∃ bytes, encode type (.int n) = .ok (some bytes)) ∨
        encode type (.int n) = .error .range)) ∧
    (∀ type form, SqlType.textForm? type = some form →
      encode type (.int n) = .ok (some (form.encode (Text.int64Text n))) ∧
      encode type (.text (Text.int64Text n)) = encode type (.int n)) ∧
    ∀ type b, encode type (.bool b) = encode type (.int (if b then 1 else 0)) := by
  refine ⟨?_, ?_, ?_⟩
  · intro type htype before after hbefore hafter
    have hshows : Text.Shows (before ++ Text.int64Text n ++ after) n.toInt := by
      rw [← Text.spells_trim_iff, Text.trim_int64Text hbefore hafter]
      exact Text.spells_integerText n.toInt
    rw [encode, encode, encodeText_of_shows htype hshows]
    refine ⟨rfl, ?_⟩
    rcases encodeInt_outcomes htype n with ⟨bytes, hbytes⟩ | hrange
    · rw [hbytes]
      exact .inl ⟨bytes, rfl⟩
    · rw [hrange]
      exact .inr rfl
  · intro type form hform
    rw [encode, encode, encodeText_of_textForm hform, encodeInt_of_textForm hform]
    exact ⟨rfl, rfl⟩
  · intro type b
    rw [encode, encode, encodeBool_eq]

/-- The least integer between blanks for `numeric` and for two bytes, as text, and a truth value. -/
theorem encode_spelling_least :
    let text := "\u00a0\t" ++ "-9223372036854775808" ++ "\n"
    let least := Value.int Int64.minValue
    encode .numeric (.text text) = encode .numeric least ∧
      (encode .numeric least).isOk ∧
      encode .int2 (.text text) = encode .int2 least ∧ encode .int2 least = .error .range ∧
      encode .name (.text "-9223372036854775808") = encode .name least ∧
      encode .uuid (.bool true) = encode .uuid (.int 1) ∧
      encode .uuid (.int 1) = .error (.mismatch .integer .uuid) := by
  intro text least
  obtain ⟨hexact, htext, hbool⟩ := encode_spelling Int64.minValue
  have hnumeric := hexact .numeric (by decide) "\u00a0\t" "\n" (by decide) (by decide)
  have hnarrow := hexact .int2 (by decide) "\u00a0\t" "\n" (by decide) (by decide)
  exact ⟨hnumeric.1, rfl, hnarrow.1, rfl, (htext .name .plain rfl).2,
    hbool .uuid true, rfl⟩

end Postgres

end BoundQuery
