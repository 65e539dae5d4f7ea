import BoundQuery.Proofs.Numeral
import BoundQuery.Value
import Mathlib.Data.Rat.Cast.Defs

/-!
# The number that a value stands for

A truth value stands for one or zero, an integer for itself, a finite double for its exact value and
a text for the integer whose numeral it holds between blanks. Nothing stands for two numbers.
-/

namespace BoundQuery

set_option autoImplicit false

namespace Unpacked

/-- The exact value of a finite number. -/
def toRat? : Unpacked → Option ℚ
  | .finite negative significand exponent =>
    some ((if negative then -1 else 1) * (significand * 2 ^ exponent))
  | _ => none

theorem ratio_spec (significand : Nat) (exponent : Int) :
    let r := ratio significand exponent
    (r.1 : ℚ) = significand * 2 ^ exponent * r.2 ∧ 0 < r.2 := by
  unfold ratio
  split
  next h =>
    obtain ⟨k, rfl⟩ := Int.eq_ofNat_of_zero_le h
    simp
  next h =>
    obtain ⟨k, hk⟩ := Int.eq_ofNat_of_zero_le (a := -exponent) (by omega)
    obtain rfl : exponent = -(k : Int) := by omega
    refine ⟨?_, Nat.pow_pos (by decide)⟩
    simp

/-- A number is whole if its denominator divides its numerator. -/
theorem toInt?_eq_some_iff {u : Unpacked} {i : Int} :
    u.toInt? = some i ↔ u.toRat? = some (i : ℚ) := by
  cases u with
  | nan => simp [toInt?, toRat?]
  | infinite => simp [toInt?, toRat?]
  | finite negative significand exponent =>
    obtain ⟨hvalue, hpos⟩ := ratio_spec significand exponent
    rw [toInt?, toRat?, Option.some.injEq]
    generalize (significand * 2 ^ exponent : ℚ) = magnitude at *
    generalize ratio significand exponent = r at *
    obtain ⟨num, den⟩ := r
    have hden : (den : ℚ) ≠ 0 := by exact_mod_cast hpos.ne'
    by_cases hdvd : den ∣ num
    · obtain ⟨k, rfl⟩ := hdvd
      have hmagnitude : magnitude = k := by
        rw [Nat.cast_mul, mul_comm] at hvalue
        exact (mul_right_cancel₀ hden hvalue).symm
      have hsigned : ((if negative then -(k : Int) else k : Int) : ℚ) =
          (if negative then -1 else 1) * k := by
        cases negative <;> simp
      simp only [Nat.mul_mod_right, ↓reduceIte, Nat.mul_div_cancel_left k hpos, Option.some.injEq]
      rw [hmagnitude, ← hsigned, Int.cast_inj]
    · have hmod : num % den ≠ 0 := fun h => hdvd (Nat.dvd_of_mod_eq_zero h)
      simp only [hmod, ↓reduceIte, reduceCtorEq, false_iff]
      intro hi
      apply hdvd
      have hnum : (num : ℤ) = (if negative then -1 else 1) * i * den := by
        have hnum' : (num : ℚ) = (if negative then -1 else 1) * i * den := by
          rw [hvalue, ← hi]
          cases negative <;> simp
        cases negative <;> simp only [Bool.false_eq_true, ↓reduceIte] at hnum' ⊢ <;>
          exact_mod_cast hnum'
      exact Int.natCast_dvd_natCast.mp ⟨_, hnum.trans (mul_comm _ _)⟩

end Unpacked

def Binary64.toRat? (x : Binary64) : Option ℚ := x.unpack.toRat?

theorem Binary64.toInt?_eq_some_iff {x : Binary64} {i : Int} :
    x.toInt? = some i ↔ x.toRat? = some (i : ℚ) := Unpacked.toInt?_eq_some_iff

namespace Value

/-- The number that a value stands for. -/
inductive Denotes : Value → ℚ → Prop where
  | bool (b : Bool) : Denotes (.bool b) (if b then 1 else 0)
  | int (n : Int64) : Denotes (.int n) n.toInt
  | float {x : Binary64} {q : ℚ} (h : x.toRat? = some q) : Denotes (.float x) q
  | text {s : String} {i : Int} (h : Text.Shows s i) : Denotes (.text s) i

theorem Denotes.unique {v : Value} {q q' : ℚ} (h : v.Denotes q) (h' : v.Denotes q') : q = q' := by
  cases h with
  | bool b =>
    cases h'
    rfl
  | int n =>
    cases h'
    rfl
  | float h =>
    cases h' with
    | float h' => exact Option.some.inj (h.symm.trans h')
  | text h =>
    cases h' with
    | text h' => rw [h.unique h']

theorem toInt_saturate (i : Int) :
    (saturate i).toInt = max (-(Text.int64Max : Int) - 1) (min i Text.int64Max) := by
  apply Text.toInt_ofInt_of_isInt64
  unfold Text.IsInt64
  omega

theorem toInt_saturate_of_isInt64 {i : Int} (h : Text.IsInt64 i) : (saturate i).toInt = i := by
  obtain ⟨hlow, hhigh⟩ := h
  rw [toInt_saturate]
  omega

end Value

end BoundQuery
