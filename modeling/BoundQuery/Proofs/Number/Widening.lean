import BoundQuery.Proofs.Denotation
import Mathlib.Algebra.Order.Field.Power
import Mathlib.Tactic.NormNum
import Mathlib.Tactic.Positivity
import Mathlib.Tactic.Ring

/-!
# Widening is exact

A number whose significand fits a format, and which lies in the range of its normal numbers, is
rounded to itself. So a single and the double that it becomes stand for the same number, or neither
of them stands for a number.
-/

namespace BoundQuery

set_option autoImplicit false

theorem nearestEven_mul_right (n : Nat) {den : Nat} (hden : 0 < den) :
    nearestEven (n * den) den = n := by
  simp [nearestEven, hden]

theorem two_zpow_log2 {n : Nat} (hn : 0 < n) :
    (2 : ℚ) ^ (n.log2 : Int) ≤ n ∧ (n : ℚ) < 2 ^ ((n.log2 : Int) + 1) := by
  have hlow := Nat.log2_self_le hn.ne'
  have hhigh := Nat.lt_log2_self (n := n)
  constructor <;> exact_mod_cast ‹_›

/-- A power of two is at most a quotient, in naturals and in rationals. -/
theorem two_zpow_mul_le_iff {num den : Nat} (k : Int) :
    (if 0 ≤ k then den * Nat.pow 2 k.toNat ≤ num else den ≤ num * Nat.pow 2 (-k).toNat) ↔
      (2 : ℚ) ^ k * den ≤ num := by
  split
  next hk =>
    obtain ⟨n, rfl⟩ := Int.eq_ofNat_of_zero_le hk
    rw [zpow_natCast, mul_comm, Int.toNat_natCast, Nat.pow_eq]
    norm_cast
  next hk =>
    obtain ⟨n, hn⟩ := Int.eq_ofNat_of_zero_le (a := -k) (by omega)
    obtain rfl : k = -(n : Int) := by omega
    rw [zpow_neg, zpow_natCast, inv_mul_le_iff₀ (by positivity), mul_comm, neg_neg,
      Int.toNat_natCast, Nat.pow_eq]
    norm_cast

/-- The powers of two on either side of a quotient. -/
theorem floorLog2_spec {num den : Nat} (hnum : 0 < num) (hden : 0 < den) :
    (2 : ℚ) ^ floorLog2 num den * den ≤ num ∧ (num : ℚ) < 2 ^ (floorLog2 num den + 1) * den := by
  obtain ⟨hnumLow, hnumHigh⟩ := two_zpow_log2 hnum
  obtain ⟨hdenLow, hdenHigh⟩ := two_zpow_log2 hden
  have hshift : (num.log2 : Int) = (num.log2 : Int) - den.log2 + den.log2 := by ring
  rw [floorLog2]
  generalize (num.log2 : Int) - den.log2 = guess at *
  simp only [two_zpow_mul_le_iff]
  rw [hshift] at hnumLow hnumHigh
  split
  next hreached =>
    refine ⟨hreached, ?_⟩
    calc (num : ℚ) < 2 ^ (guess + den.log2 + 1) := hnumHigh
      _ = 2 ^ (guess + 1) * 2 ^ (den.log2 : Int) := by
        rw [← zpow_add₀ two_ne_zero, add_right_comm]
      _ ≤ 2 ^ (guess + 1) * den := by gcongr
  next hreached =>
    constructor
    · calc (2 : ℚ) ^ (guess - 1) * den ≤ 2 ^ (guess - 1) * 2 ^ ((den.log2 : Int) + 1) := by gcongr
        _ = 2 ^ (guess + den.log2) := by
          rw [← zpow_add₀ two_ne_zero, sub_add_add_cancel]
        _ ≤ num := hnumLow
    · rw [sub_add_cancel]
      exact not_le.mp hreached

theorem floorLog2_eq {num den : Nat} (hnum : 0 < num) (hden : 0 < den) {k : Int}
    (hlow : (2 : ℚ) ^ k * den ≤ num) (hhigh : (num : ℚ) < 2 ^ (k + 1) * den) :
    floorLog2 num den = k := by
  have hden' : (0 : ℚ) < den := by exact_mod_cast hden
  obtain ⟨hlow', hhigh'⟩ := floorLog2_spec hnum hden
  have hle : floorLog2 num den < k + 1 :=
    (zpow_lt_zpow_iff_right₀ one_lt_two).mp (lt_of_mul_lt_mul_right (hlow'.trans_lt hhigh) hden'.le)
  have hge : k < floorLog2 num den + 1 :=
    (zpow_lt_zpow_iff_right₀ one_lt_two).mp (lt_of_mul_lt_mul_right (hlow.trans_lt hhigh') hden'.le)
  omega

theorem Unpacked.ratio_pos {significand : Nat} (hs : 0 < significand) (exponent : Int) :
    0 < (ratio significand exponent).1 := by
  unfold ratio
  split
  · exact Nat.mul_pos hs (Nat.pow_pos (by decide))
  · exact hs

theorem floorLog2_ratio {significand : Nat} (hs : 0 < significand) (exponent : Int) :
    floorLog2 (Unpacked.ratio significand exponent).1 (Unpacked.ratio significand exponent).2 =
      significand.log2 + exponent := by
  obtain ⟨hvalue, hden⟩ := Unpacked.ratio_spec significand exponent
  obtain ⟨hlow, hhigh⟩ := two_zpow_log2 hs
  apply floorLog2_eq (Unpacked.ratio_pos hs exponent) hden
  · rw [hvalue, zpow_add₀ two_ne_zero]
    gcongr
  · rw [hvalue, add_right_comm, zpow_add₀ two_ne_zero]
    gcongr

/-- The count of a unit in a whole multiple of it. -/
theorem nearestEven_of_eq {num den count : Nat} {exponent : Int} (hden : 0 < den)
    (h : (num : ℚ) = count * 2 ^ exponent * den) :
    (if 0 ≤ exponent then nearestEven num (den * Nat.pow 2 exponent.toNat)
      else nearestEven (num * Nat.pow 2 (-exponent).toNat) den) = count := by
  split
  next hexponent =>
    obtain ⟨n, rfl⟩ := Int.eq_ofNat_of_zero_le hexponent
    have hnum : num = count * (den * Nat.pow 2 n) := by
      rw [zpow_natCast] at h
      rw [Nat.pow_eq, mul_comm den, ← mul_assoc]
      exact_mod_cast h
    rw [hnum]
    exact nearestEven_mul_right count (Nat.mul_pos hden (Nat.pow_pos (by decide)))
  next hexponent =>
    obtain ⟨n, hn⟩ := Int.eq_ofNat_of_zero_le (a := -exponent) (by omega)
    obtain rfl : exponent = -(n : Int) := by omega
    have hnum : num * Nat.pow 2 n = count * den := by
      have h' : (num : ℚ) * 2 ^ (n : Int) = count * den := by
        rw [h, mul_right_comm, mul_assoc (count : ℚ), ← zpow_add₀ two_ne_zero, neg_add_cancel,
          zpow_zero, mul_one]
      rw [zpow_natCast] at h'
      exact_mod_cast h'
    rw [hn, Int.toNat_natCast, hnum]
    exact nearestEven_mul_right count hden

/-- A significand may move up by places that its exponent gives up. -/
theorem shifted_value (significand shift : Nat) (exponent : Int) :
    ((significand * 2 ^ shift : Nat) : ℚ) * 2 ^ (exponent - shift) =
      significand * 2 ^ exponent := by
  rw [Nat.cast_mul, Nat.cast_pow, Nat.cast_ofNat, ← zpow_natCast, mul_assoc,
    ← zpow_add₀ two_ne_zero, add_sub_cancel]

namespace Format

variable {f : Format} {negative : Bool} {field fraction significand : Nat} {exponent : Int}

theorem hiddenBit_pos (f : Format) : 0 < f.hiddenBit := Nat.pow_pos (by decide)

theorem fieldBound_pos (f : Format) : 0 < f.fieldBound := Nat.pow_pos (by decide)

/-- The three parts of a bit pattern, side by side. -/
theorem unpack_parts (hfield : field < f.fieldBound) (hfraction : fraction < f.hiddenBit) :
    f.unpack (f.sign negative + (field * f.hiddenBit + fraction)) =
      if field = f.fieldBound - 1 then if fraction = 0 then .infinite negative else .nan
      else if field = 0 then .finite negative fraction f.leastExponent
      else .finite negative (f.hiddenBit + fraction) (f.leastExponent + field - 1) := by
  have hbits : fraction + f.hiddenBit * (field + f.fieldBound * negative.toNat) =
      f.sign negative + (field * f.hiddenBit + fraction) := by
    cases negative <;> simp [sign] <;> ring
  obtain ⟨hhigh, hlow⟩ := (Nat.div_mod_unique f.hiddenBit_pos).mpr ⟨hbits, hfraction⟩
  obtain ⟨hdiv, hmod⟩ := (Nat.div_mod_unique f.fieldBound_pos).mpr
    ⟨(rfl : field + f.fieldBound * negative.toNat = _), hfield⟩
  have hsign : (negative.toNat % 2 == 1) = negative := by cases negative <;> rfl
  rw [unpack, hlow, hhigh, hmod, hdiv, hsign]

/-- A number in the normal range of a format is rounded to itself. -/
theorem toRat?_round_ratio (hs : 0 < significand) (hfits : significand.log2 ≤ f.precision - 1)
    (hlow : f.leastExponent ≤ significand.log2 + exponent - (f.precision - 1 : Nat))
    (hhigh : significand.log2 + exponent - (f.precision - 1 : Nat) - f.leastExponent + 2 <
      f.fieldBound) :
    (f.unpack (f.round negative (Unpacked.ratio significand exponent).1
        (Unpacked.ratio significand exponent).2)).toRat? =
      (Unpacked.finite negative significand exponent).toRat? := by
  obtain ⟨hvalue, hden⟩ := Unpacked.ratio_spec significand exponent
  obtain ⟨shift, hshift⟩ := Nat.exists_eq_add_of_le hfits
  have hunit : (significand.log2 : Int) + exponent - (significand.log2 + shift : Nat) =
      exponent - shift := by
    omega
  rw [hshift, hunit] at hlow hhigh
  rw [← shifted_value significand shift] at hvalue
  have hcount := nearestEven_of_eq hden hvalue
  have hnormal : f.hiddenBit ≤ significand * 2 ^ shift ∧
      significand * 2 ^ shift < 2 * f.hiddenBit := by
    rw [hiddenBit, hshift, Nat.pow_eq, Nat.pow_add, ← Nat.mul_assoc, ← Nat.pow_succ']
    exact ⟨Nat.mul_le_mul_right _ (Nat.log2_self_le hs.ne'),
      Nat.mul_lt_mul_of_pos_right Nat.lt_log2_self (Nat.pow_pos (by decide))⟩
  obtain ⟨field, hfield⟩ := Int.eq_ofNat_of_zero_le (a := exponent - shift - f.leastExponent + 1)
    (by omega)
  simp only [round, floorLog2_ratio hs, hshift, hunit, max_eq_right hlow, hcount,
    if_neg (not_lt.mpr hnormal.1), hfield, Int.toNat_natCast]
  have hmagnitude : field * f.hiddenBit + (significand * 2 ^ shift - f.hiddenBit) ≤ f.infinity := by
    have hle : (field + 1) * f.hiddenBit ≤ f.infinity :=
      Nat.mul_le_mul_right f.hiddenBit (by omega)
    rw [Nat.succ_mul] at hle
    omega
  rw [min_eq_left hmagnitude, unpack_parts (by omega) (by omega), if_neg (by omega),
    if_neg (by omega)]
  have hsignificand : f.hiddenBit + (significand * 2 ^ shift - f.hiddenBit) =
      significand * 2 ^ shift := by
    omega
  have hexponent : f.leastExponent + (field : Int) - 1 = exponent - shift := by omega
  rw [hsignificand, hexponent, Unpacked.toRat?, Unpacked.toRat?, shifted_value]

theorem round_zero (f : Format) (negative : Bool) {den : Nat} (hden : 0 < den) :
    f.round negative 0 den = f.sign negative := by
  have hcount (den : Nat) (hden : 0 < den) : nearestEven 0 den = 0 := by
    simpa using nearestEven_mul_right 0 hden
  simp [round, hcount, hden, f.hiddenBit_pos]

theorem round_lt (f : Format) (negative : Bool) (num den : Nat) :
    f.round negative num den < 2 * (f.fieldBound * f.hiddenBit) := by
  have hinfinity : f.infinity + f.hiddenBit = f.fieldBound * f.hiddenBit := by
    rw [infinity, ← Nat.succ_mul, Nat.succ_eq_add_one, Nat.sub_add_cancel f.fieldBound_pos]
  have hpos := f.hiddenBit_pos
  have hsign : f.sign negative ≤ f.fieldBound * f.hiddenBit := by
    unfold sign
    split <;> omega
  simp only [round]
  omega

/-- A pattern whose exponent field is full stands for no number. -/
theorem toRat?_unpack_of_full {bits : Nat}
    (h : bits / f.hiddenBit % f.fieldBound = f.fieldBound - 1) : (f.unpack bits).toRat? = none := by
  simp only [unpack, h, ↓reduceIte]
  split <;> rfl

/-- The numbers of a format, by significand and exponent. -/
theorem unpack_finite {bits : Nat} (h : f.unpack bits = .finite negative significand exponent) :
    significand < 2 * f.hiddenBit ∧ f.leastExponent ≤ exponent ∧
      exponent ≤ f.leastExponent + max 0 (f.fieldBound - 3 : Int) := by
  have hfraction := Nat.mod_lt bits f.hiddenBit_pos
  have hfield := Nat.mod_lt (bits / f.hiddenBit) f.fieldBound_pos
  simp only [unpack] at h
  split at h
  · split at h <;> cases h
  · split at h
    · cases h
      omega
    · cases h
      omega

end Format

/-- The exact value of a single, if it has one. -/
def Binary32.toRat? (x : Binary32) : Option ℚ := x.unpack.toRat?

namespace Binary64

theorem unpack_ofRatio (negative : Bool) (num den : Nat) :
    (ofRatio negative num den).unpack =
      doubleFormat.unpack (doubleFormat.round negative num den) := by
  have hlt : doubleFormat.round negative num den < 2 ^ 64 :=
    doubleFormat.round_lt negative num den
  rw [unpack, ofRatio, UInt64.toNat_ofNat', Nat.mod_eq_of_lt hlt]

theorem unpack_zero (negative : Bool) : (zero negative).unpack = .finite negative 0 (-1074) := by
  cases negative <;> decide +kernel

theorem unpack_infinite (negative : Bool) : (infinite negative).unpack = .infinite negative := by
  cases negative <;> decide +kernel

theorem toRat?_widen_of_nan {x : Binary32} (h : x.unpack = .nan) : (widen x).toRat? = none := by
  have hfull (n : Nat) : n % 2 ^ 11 ||| 2047 = 2047 := by
    apply Nat.eq_of_testBit_eq
    intro i
    rw [Nat.testBit_or, Nat.testBit_mod_two_pow, show 2047 = 2 ^ 11 - 1 from rfl,
      Nat.testBit_two_pow_sub_one]
    cases decide (i < 11) <;> simp
  rw [widen, h]
  apply Format.toRat?_unpack_of_full
  simp only [UInt64.toNat_or]
  generalize UInt64.toNat _ ||| UInt64.toNat _ = n
  change (n ||| 0x7ff8000000000000) / 2 ^ 52 % 2 ^ 11 = 2047
  rw [Nat.or_div_two_pow, Nat.or_mod_two_pow]
  exact hfull _

theorem ofRatio_zero (negative : Bool) (exponent : Int) :
    ofRatio negative (Unpacked.ratio 0 exponent).1 (Unpacked.ratio 0 exponent).2 =
      zero negative := by
  have hnum : (Unpacked.ratio 0 exponent).1 = 0 := by
    unfold Unpacked.ratio
    split <;> simp
  rw [hnum, ofRatio, Format.round_zero _ _ (Unpacked.ratio_spec 0 exponent).2, zero]

/-- A single and the double that it becomes stand for the same number, or both for none. -/
theorem toRat?_widen (x : Binary32) : (widen x).toRat? = x.toRat? := by
  rw [Binary32.toRat?]
  cases hx : x.unpack with
  | nan => exact toRat?_widen_of_nan hx
  | infinite negative => simp only [widen, hx, toRat?, unpack_infinite]
  | finite negative significand exponent =>
    have hsingle : singleFormat.leastExponent = -149 ∧ singleFormat.fieldBound = 256 ∧
        singleFormat.hiddenBit = 2 ^ 23 := by
      decide
    have hdouble : doubleFormat.leastExponent = -1074 ∧ doubleFormat.fieldBound = 2048 ∧
        doubleFormat.precision = 53 := by
      decide
    obtain ⟨hsignificand, hlow, hhigh⟩ := Format.unpack_finite hx
    simp only [widen, hx]
    rcases Nat.eq_zero_or_pos significand with rfl | hs
    · rw [ofRatio_zero, toRat?, unpack_zero]
      simp [Unpacked.toRat?]
    · have hlog : significand.log2 < 24 := (Nat.log2_lt hs.ne').mpr (by omega)
      rw [toRat?, unpack_ofRatio]
      apply Format.toRat?_round_ratio hs <;> omega

theorem isFinite_eq_isSome_toRat? (x : Binary64) : x.isFinite = x.toRat?.isSome := by
  rw [isFinite, toRat?]
  cases x.unpack <;> rfl

end Binary64

end BoundQuery
