import BoundQuery.Postgres.Encode
import BoundQuery.Proofs.Bytes
import BoundQuery.Proofs.Denotation

/-!
# Values for integer parameters

For a parameter of integers a value is taken as one integer, and sent as the form of that integer in
the width of the type; without such a form it is refused. The integer is the number that the value
stands for, and no type takes another value than its siblings, with two exceptions: a whole float
beyond 64 bits is taken as the end of the range, and the type of two bytes takes no float.
-/

namespace BoundQuery.Postgres

set_option autoImplicit false

open Bytes (Fits Encodes bigEndianInt)

/-- The types of integers. -/
inductive IntegerType where
  | int2
  | int4
  | int8
  deriving DecidableEq, Repr

namespace IntegerType

def width : IntegerType → Nat
  | int2 => 2
  | int4 => 4
  | int8 => 8

def type : IntegerType → SqlType
  | int2 => .int2
  | int4 => .int4
  | int8 => .int8

/-- A value that a type takes, and the integer that it is taken as. -/
inductive Takes (t : IntegerType) : Value → Int → Prop where
  | bool (b : Bool) : Takes t (.bool b) (if b then 1 else 0)
  | int (n : Int64) : Takes t (.int n) n.toInt
  | float {x : Binary64} {i : Int} (ht : t ≠ int2) (h : x.toRat? = some (i : ℚ)) :
      Takes t (.float x) (Value.saturate i).toInt
  | text {s : String} {n : Int64} (h : Text.Shows s n.toInt) : Takes t (.text s) n.toInt

end IntegerType

section Width

variable {width : Nat} {i : Int} {bytes : Bytes}

theorem integerBytes_of_fits (h : Fits width i) :
    integerBytes width i = .ok (bigEndianInt width i) := if_pos h

theorem integerBytes_of_not_fits (h : ¬ Fits width i) : integerBytes width i = .error .range :=
  if_neg h

theorem integerBytes_eq_ok_iff : integerBytes width i = .ok bytes ↔ Encodes width bytes i := by
  rw [Bytes.encodes_iff]
  by_cases h : Fits width i
  · rw [integerBytes_of_fits h]
    exact ⟨fun heq => ⟨h, (Except.ok.inj heq).symm⟩, fun heq => congrArg Except.ok heq.2.symm⟩
  · rw [integerBytes_of_not_fits h]
    simp [h]

end Width

section Encode

variable {t : IntegerType} {v : Value} {i : Int} {bytes : Bytes}

theorem encodeInt_type (t : IntegerType) (n : Int64) :
    encodeInt t.type n = integerBytes t.width n.toInt := by
  cases t <;> rfl

theorem encodeBool_type (t : IntegerType) (b : Bool) :
    encodeBool t.type b = integerBytes t.width (if b then 1 else 0) := by
  cases t <;> cases b <;> rfl

theorem encodeText_type (t : IntegerType) (s : String) :
    encodeText t.type s = encodeNumeral t.type (Text.trim s) := by
  cases t <;> rfl

theorem encodeFloat_type (ht : t ≠ .int2) (x : Binary64) :
    encodeFloat t.type x = encodeWhole t.type x := by
  cases t with
  | int2 => exact absurd rfl ht
  | int4 => rfl
  | int8 => rfl

theorem map_some_eq_ok_iff {r : Except EncodeError Bytes} :
    r.map some = .ok (some bytes) ↔ r = .ok bytes := by
  cases r <;> simp [Except.map]

theorem encodeWhole_eq_ok_iff {x : Binary64} :
    encodeWhole t.type x = .ok bytes ↔
      ∃ i : Int, x.toRat? = some (i : ℚ) ∧ Encodes t.width bytes (Value.saturate i).toInt := by
  unfold encodeWhole
  split
  next i hi =>
    rw [encodeInt_type, integerBytes_eq_ok_iff]
    constructor
    · exact fun h => ⟨i, Binary64.toInt?_eq_some_iff.mp hi, h⟩
    · rintro ⟨j, hj, h⟩
      rw [Option.some.inj (hi.symm.trans (Binary64.toInt?_eq_some_iff.mpr hj))]
      exact h
  next hnone =>
    simp only [reduceCtorEq, false_iff]
    rintro ⟨i, hi, -⟩
    rw [Binary64.toInt?_eq_some_iff.mpr hi] at hnone
    cases hnone

theorem encodeNumeral_eq_ok_iff {s : String} :
    encodeNumeral t.type (Text.trim s) = .ok bytes ↔
      ∃ n : Int64, Text.Shows s n.toInt ∧ Encodes t.width bytes n.toInt := by
  unfold encodeNumeral
  split
  next n hn =>
    rw [encodeInt_type, integerBytes_eq_ok_iff]
    constructor
    · exact fun h => ⟨n, Text.readInt64_trim_eq_ok_iff.mp hn, h⟩
    · rintro ⟨m, hm, h⟩
      rw [Except.ok.inj (hn.symm.trans (Text.readInt64_trim_eq_ok_iff.mpr hm))]
      exact h
  next hfault =>
    simp only [reduceCtorEq, false_iff]
    rintro ⟨n, hn, -⟩
    rw [Text.readInt64_trim_eq_ok_iff.mpr hn] at hfault
    cases hfault

/-- What is sent is the form of the integer that the value is taken as. -/
theorem encode_eq_ok_iff :
    encode t.type v = .ok (some bytes) ↔ ∃ i, t.Takes v i ∧ Encodes t.width bytes i := by
  cases v with
  | null =>
    constructor
    · intro h
      cases h
    · rintro ⟨i, ⟨⟩, -⟩
  | bool b =>
    rw [encode, map_some_eq_ok_iff, encodeBool_type, integerBytes_eq_ok_iff]
    constructor
    · exact fun h => ⟨_, .bool b, h⟩
    · rintro ⟨i, ⟨⟩, h⟩
      exact h
  | int n =>
    rw [encode, map_some_eq_ok_iff, encodeInt_type, integerBytes_eq_ok_iff]
    constructor
    · exact fun h => ⟨_, .int n, h⟩
    · rintro ⟨i, ⟨⟩, h⟩
      exact h
  | float x =>
    rw [encode, map_some_eq_ok_iff]
    by_cases ht : t = .int2
    · subst ht
      constructor
      · intro h
        cases h
      · rintro ⟨i, ⟨⟩, -⟩
        contradiction
    · rw [encodeFloat_type ht, encodeWhole_eq_ok_iff]
      constructor
      · rintro ⟨i, hi, h⟩
        exact ⟨_, .float ht hi, h⟩
      · rintro ⟨_, ⟨⟩, h⟩
        exact ⟨_, ‹_›, h⟩
  | text s =>
    rw [encode, map_some_eq_ok_iff, encodeText_type, encodeNumeral_eq_ok_iff]
    constructor
    · rintro ⟨n, hn, h⟩
      exact ⟨_, .text hn, h⟩
    · rintro ⟨_, ⟨⟩, h⟩
      exact ⟨_, ‹_›, h⟩
  | list items =>
    constructor
    · intro h
      cases h
    · rintro ⟨i, ⟨⟩, -⟩

theorem eq_null_of_encode {type : SqlType} (h : encode type v = .ok none) : v = .null := by
  have hmap {r : Except EncodeError Bytes} : r.map some ≠ .ok none := by
    cases r <;> simp [Except.map]
  cases v with
  | null => rfl
  | list items => cases h
  | bool b => exact absurd h hmap
  | int n => exact absurd h hmap
  | float x => exact absurd h hmap
  | text s => exact absurd h hmap

end Encode

namespace IntegerType

variable {t : IntegerType} {v : Value} {i : Int}

theorem fits_int8_iff : Fits int8.width i ↔ Text.IsInt64 i := by
  have hbound : (256 ^ int8.width : Nat) = 2 * (Text.int64Max + 1) := by decide
  rw [Fits, hbound, Text.IsInt64]
  omega

theorem fits_int8 (h : Fits t.width i) : Fits int8.width i := by
  have hle : 256 ^ t.width ≤ 256 ^ int8.width := by cases t <;> decide
  obtain ⟨hlow, hhigh⟩ := h
  exact ⟨by omega, by omega⟩

/-- A whole float that has no form in the type of eight bytes, and is sent to it. -/
def Overshoots (t : IntegerType) (v : Value) : Prop :=
  t = int8 ∧ ∃ (x : Binary64) (i : Int),
    v = .float x ∧ x.toRat? = some (i : ℚ) ∧ ¬ Fits int8.width i

/-- A whole float for the type of two bytes that has the form of its number. -/
def Neglects (t : IntegerType) (v : Value) : Prop :=
  t = int2 ∧ ∃ (x : Binary64) (i : Int),
    v = .float x ∧ x.toRat? = some (i : ℚ) ∧ Fits int2.width i

/-- The ends of the range of eight bytes have no form in fewer. -/
theorem isInt64_of_fits_saturate (ht : t ≠ int8) (h : Fits t.width (Value.saturate i).toInt) :
    Text.IsInt64 i := by
  have hle : 256 ^ t.width ≤ 256 ^ int4.width := by
    cases t with
    | int8 => exact absurd rfl ht
    | int2 => decide
    | int4 => exact Nat.le_refl _
  have hbound : (256 ^ int4.width : Nat) ≤ Text.int64Max := by decide
  obtain ⟨hlow, hhigh⟩ := h
  rw [Value.toInt_saturate] at hlow hhigh
  unfold Text.IsInt64
  omega

/-- A type takes a value as the number that the value stands for, if it has a form of it. -/
theorem Takes.denotes (h : t.Takes v i) (hfits : Fits t.width i) (hv : ¬ t.Overshoots v) :
    v.Denotes i := by
  cases h with
  | bool b =>
    have hcast : ((if b then 1 else 0 : Int) : ℚ) = if b then 1 else 0 := by cases b <;> simp
    rw [hcast]
    exact .bool b
  | int n => exact .int n
  | text h => exact .text h
  | @float x j ht h =>
    have hj : Text.IsInt64 j := by
      by_cases hint8 : t = int8
      · by_contra hout
        exact hv ⟨hint8, x, j, rfl, h, fun hfits => hout (fits_int8_iff.mp hfits)⟩
      · exact isInt64_of_fits_saturate hint8 hfits
    rw [Value.toInt_saturate_of_isInt64 hj]
    exact .float h

/--
What is sent for a value to a type of integers is the form of the number that the value stands for;
a value other than NULL that stands for no number with such a form is refused.
-/
structure Faithful (t : IntegerType) (v : Value) : Prop where
  sent : ∀ bytes, encode t.type v = .ok (some bytes) →
    ∃ i : Int, v.Denotes i ∧ Encodes t.width bytes i
  refused : v ≠ .null → (∀ i : Int, v.Denotes i → ¬ Fits t.width i) →
    ∃ e, encode t.type v = .error e

theorem faithful_of_not_overshoots (hv : ¬ t.Overshoots v) : t.Faithful v := by
  have hsent {bytes : Bytes} (h : encode t.type v = .ok (some bytes)) :
      ∃ i : Int, v.Denotes i ∧ Encodes t.width bytes i := by
    obtain ⟨i, htakes, hbytes⟩ := encode_eq_ok_iff.mp h
    exact ⟨i, htakes.denotes hbytes.fits hv, hbytes⟩
  refine ⟨fun _ => hsent, ?_⟩
  intro hnull hnone
  cases hencode : encode t.type v with
  | error e => exact ⟨e, rfl⟩
  | ok sent =>
    cases sent with
    | none => exact absurd (eq_null_of_encode hencode) hnull
    | some bytes =>
      obtain ⟨i, hi, hbytes⟩ := hsent hencode
      exact absurd hbytes.fits (hnone i hi)

theorem not_faithful_of_overshoots (hv : t.Overshoots v) : ¬ t.Faithful v := by
  obtain ⟨rfl, x, i, rfl, hi, hout⟩ := hv
  intro h
  have hfits : Fits int8.width (Value.saturate i).toInt :=
    fits_int8_iff.mpr (Text.isInt64_toInt _)
  have hsent : encode int8.type (.float x) = .ok (some (bigEndianInt int8.width _)) :=
    encode_eq_ok_iff.mpr ⟨_, .float (by decide) hi, Bytes.encodes_bigEndianInt hfits⟩
  have hnone (j : Int) (hj : Value.Denotes (.float x) j) : ¬ Fits int8.width j := by
    rw [Int.cast_inj.mp (hj.unique (.float hi))]
    exact hout
  obtain ⟨e, he⟩ := h.refused (by rintro ⟨⟩) hnone
  rw [hsent] at he
  cases he

/--
Binding a value to a type of integers never changes the number, except that a whole float beyond
64 bits is sent to the type of eight bytes as the end of its range.
-/
theorem faithful_iff (t : IntegerType) (v : Value) : t.Faithful v ↔ ¬ t.Overshoots v :=
  ⟨fun h hv => not_faithful_of_overshoots hv h, faithful_of_not_overshoots⟩

/-- The double `2 ^ 63` is sent as the largest integer of eight bytes, one less. -/
theorem not_faithful_power :
    let v : Value := .float ⟨0x43e0000000000000⟩
    let bytes : Bytes := [0x7f, 0xff, 0xff, 0xff, 0xff, 0xff, 0xff, 0xff]
    v.Denotes 9223372036854775808 ∧ encode int8.type v = .ok (some bytes) ∧
      Encodes int8.width bytes 9223372036854775807 ∧ ¬ int8.Faithful v := by
  intro v bytes
  have hint : Binary64.toInt? ⟨0x43e0000000000000⟩ = some 9223372036854775808 := by decide +kernel
  have hrat := Binary64.toInt?_eq_some_iff.mp hint
  have hout : ¬ Fits int8.width 9223372036854775808 := by decide
  refine ⟨.float hrat, by decide +kernel, ⟨rfl, by decide⟩, ?_⟩
  exact not_faithful_of_overshoots ⟨rfl, _, _, rfl, hrat, hout⟩

/-- A value is sent to a type as the form of an integer. -/
def Binds (t : IntegerType) (v : Value) (i : Int) : Prop :=
  ∃ bytes, encode t.type v = .ok (some bytes) ∧ Encodes t.width bytes i

theorem binds_iff : t.Binds v i ↔ t.Takes v i ∧ Fits t.width i := by
  constructor
  · rintro ⟨bytes, hsent, hbytes⟩
    obtain ⟨j, htakes, hbytes'⟩ := encode_eq_ok_iff.mp hsent
    rw [← hbytes.value, hbytes'.value]
    exact ⟨htakes, hbytes'.fits⟩
  · rintro ⟨htakes, hfits⟩
    have hbytes := Bytes.encodes_bigEndianInt hfits
    exact ⟨_, encode_eq_ok_iff.mpr ⟨i, htakes, hbytes⟩, hbytes⟩

theorem Takes.widen (h : t.Takes v i) : int8.Takes v i := by
  cases h with
  | bool b => exact .bool b
  | int n => exact .int n
  | float ht h => exact .float (by decide) h
  | text h => exact .text h

/-- What the type of eight bytes takes is taken by its siblings, but for floats and two bytes. -/
theorem Takes.narrow (h : int8.Takes v i) (hfits : Fits t.width i) (hv : ¬ t.Neglects v) :
    t.Takes v i := by
  cases h with
  | bool b => exact .bool b
  | int n => exact .int n
  | text h => exact .text h
  | @float x j _ h =>
    refine .float ?_ h
    rintro rfl
    have hj := Value.toInt_saturate_of_isInt64 (isInt64_of_fits_saturate (by decide) hfits)
    rw [hj] at hfits
    exact hv ⟨rfl, x, j, rfl, h, hfits⟩

/-- For a value, a type differs from the type of eight bytes by the range of its numbers only. -/
structure Uniform (t : IntegerType) (v : Value) : Prop where
  narrow : ∀ i, int8.Binds v i → Fits t.width i → t.Binds v i
  widen : ∀ i, t.Binds v i → int8.Binds v i

theorem uniform_of_not_neglects (hv : ¬ t.Neglects v) : t.Uniform v where
  narrow _ h hfits := binds_iff.mpr ⟨(binds_iff.mp h).1.narrow hfits hv, hfits⟩
  widen _ h := binds_iff.mpr ⟨(binds_iff.mp h).1.widen, fits_int8 (binds_iff.mp h).2⟩

theorem not_uniform_of_neglects (hv : t.Neglects v) : ¬ t.Uniform v := by
  obtain ⟨rfl, x, i, rfl, hi, hfits⟩ := hv
  intro h
  have hwide := fits_int8 hfits
  have htakes : int8.Takes (.float x) i := by
    rw [← Value.toInt_saturate_of_isInt64 (fits_int8_iff.mp hwide)]
    exact .float (by decide) hi
  obtain ⟨bytes, hsent, -⟩ := h.narrow i (binds_iff.mpr ⟨htakes, hwide⟩) hfits
  cases hsent

/--
Whether a value of any kind can be bound to a type of integers depends on the width through the
range only, except that the type of two bytes refuses a whole float of its range.
-/
theorem uniform_iff (t : IntegerType) (v : Value) : t.Uniform v ↔ ¬ t.Neglects v :=
  ⟨fun h hv => not_uniform_of_neglects hv h, uniform_of_not_neglects⟩

/-- The double five is sent to the type of eight bytes and refused by the one of two. -/
theorem not_uniform_five :
    let v : Value := .float ⟨0x4014000000000000⟩
    v.Denotes 5 ∧ encode int8.type v = .ok (some [0, 0, 0, 0, 0, 0, 0, 5]) ∧
      Fits int2.width 5 ∧ encode int2.type v = .error (.mismatch .float .int2) ∧
      ¬ int2.Uniform v := by
  intro v
  have hint : Binary64.toInt? ⟨0x4014000000000000⟩ = some 5 := by decide +kernel
  have hrat := Binary64.toInt?_eq_some_iff.mp hint
  have hfits : Fits int2.width 5 := by decide
  refine ⟨.float hrat, by decide +kernel, hfits, rfl, ?_⟩
  exact not_uniform_of_neglects ⟨rfl, _, _, rfl, hrat, hfits⟩

end IntegerType

end BoundQuery.Postgres
