import BoundQuery.Bytes
import Mathlib.Data.List.Induction
import Mathlib.Tactic.Ring

/-!
# Integers in bytes

A width in bytes holds the integers of half its patterns on either side of zero. Writing such an
integer in two's complement and reading it, most significant byte first, are inverse to each other:
bytes of a width have one reading, and an integer has one form in the width.
-/

namespace BoundQuery.Bytes

set_option autoImplicit false

/-- The integers that have a form in so many bytes. -/
def Fits (width : Nat) (i : Int) : Prop :=
  -((256 ^ width : Nat) : Int) ≤ 2 * i ∧ 2 * i < ((256 ^ width : Nat) : Int)

instance (width : Nat) (i : Int) : Decidable (Fits width i) := inferInstanceAs (Decidable (_ ∧ _))

/-- So many bytes that are read as an integer. -/
structure Encodes (width : Nat) (bytes : Bytes) (i : Int) : Prop where
  length : bytes.length = width
  value : toInteger bytes = i

variable {width : Nat} {i : Int}

theorem length_bigEndian (width n : Nat) : (bigEndian width n).length = width := by
  induction width with
  | zero => rfl
  | succ width ih => rw [bigEndian, List.length_cons, ih]

theorem toNatural_append_singleton (bytes : Bytes) (b : UInt8) :
    toNatural (bytes ++ [b]) = toNatural bytes * 256 + b.toNat := by
  rw [toNatural, List.foldl_append]
  rfl

theorem toNatural_cons (b : UInt8) (bytes : Bytes) :
    toNatural (b :: bytes) = b.toNat * 256 ^ bytes.length + toNatural bytes := by
  induction bytes using List.reverseRecOn with
  | nil => simp [toNatural]
  | append_singleton bytes c ih =>
    rw [← List.cons_append, toNatural_append_singleton, toNatural_append_singleton, ih,
      List.length_append, List.length_singleton, Nat.pow_succ]
    ring

theorem toNatural_lt (bytes : Bytes) : toNatural bytes < 256 ^ bytes.length := by
  induction bytes with
  | nil => decide
  | cons b bytes ih =>
    have hb : b.toNat < 256 := b.toNat_lt
    have hmul : b.toNat * 256 ^ bytes.length ≤ 255 * 256 ^ bytes.length :=
      Nat.mul_le_mul_right _ (by omega)
    rw [toNatural_cons, List.length_cons, Nat.pow_succ]
    omega

theorem toNatural_bigEndian (width n : Nat) : toNatural (bigEndian width n) = n % 256 ^ width := by
  induction width with
  | zero => simp [bigEndian, toNatural, Nat.mod_one]
  | succ width ih =>
    have hbyte : (2 : Nat) ^ 8 = 256 := rfl
    rw [bigEndian, toNatural_cons, length_bigEndian, ih, Nat.pow_eq, UInt8.toNat_ofNat',
      hbyte, Nat.mod_pow_succ]
    ring

/-- Bytes of one length are told apart by the number that they are read as. -/
theorem eq_of_toNatural_eq {a b : Bytes} (hlength : a.length = b.length)
    (h : toNatural a = toNatural b) : a = b := by
  induction a generalizing b with
  | nil => exact (List.length_eq_zero_iff.mp hlength.symm).symm
  | cons x a ih =>
    cases b with
    | nil => cases hlength
    | cons y b =>
      have hlength : a.length = b.length := Nat.succ.inj hlength
      have ha : toNatural a < 256 ^ b.length := hlength ▸ toNatural_lt a
      have hb := toNatural_lt b
      rw [toNatural_cons, toNatural_cons, hlength] at h
      have hhead : x.toNat = y.toNat := by
        have hdiv := congrArg (· / 256 ^ b.length) h
        have hpos : 0 < 256 ^ b.length := Nat.pow_pos (by decide)
        simpa [Nat.mul_comm _ (256 ^ b.length), Nat.mul_add_div hpos, Nat.div_eq_of_lt ha,
          Nat.div_eq_of_lt hb] using hdiv
      rw [hhead] at h
      rw [UInt8.toNat_inj.mp hhead, ih hlength (Nat.add_left_cancel h)]

theorem toNatural_bigEndianInt (h : Fits width i) :
    (toNatural (bigEndianInt width i) : Int) =
      if 0 ≤ i then i else i + ((256 ^ width : Nat) : Int) := by
  obtain ⟨hlow, hhigh⟩ := h
  have hpos : 0 < 256 ^ width := Nat.pow_pos (by decide)
  rw [bigEndianInt, toNatural_bigEndian, complement, Nat.pow_eq]
  generalize 256 ^ width = bound at *
  have hmod : i % (bound : Int) = if 0 ≤ i then i else i + bound := by
    split
    next hi => exact Int.emod_eq_of_lt hi (by omega)
    next hi =>
      rw [← Int.add_emod_right]
      exact Int.emod_eq_of_lt (by omega) (by omega)
  rw [hmod, Nat.mod_eq_of_lt]
  · split <;> omega
  · split <;> omega

theorem encodes_bigEndianInt (h : Fits width i) : Encodes width (bigEndianInt width i) i where
  length := length_bigEndian width _
  value := by
    have hvalue := toNatural_bigEndianInt h
    obtain ⟨hlow, hhigh⟩ := h
    have hlength : (bigEndianInt width i).length = width := length_bigEndian width _
    rw [toInteger, hlength, Nat.pow_eq]
    generalize 256 ^ width = bound at *
    split at hvalue <;> split <;> omega

theorem Encodes.fits {bytes : Bytes} (h : Encodes width bytes i) : Fits width i := by
  obtain ⟨rfl, rfl⟩ := h
  have hlt := toNatural_lt bytes
  simp only [Fits, toInteger, Nat.pow_eq]
  generalize 256 ^ bytes.length = bound at *
  split <;> omega

theorem toInteger_inj {a b : Bytes} (hlength : a.length = b.length)
    (h : toInteger a = toInteger b) : a = b := by
  apply eq_of_toNatural_eq hlength
  have ha := toNatural_lt a
  have hb := toNatural_lt b
  simp only [toInteger, hlength, Nat.pow_eq] at h ha
  generalize 256 ^ b.length = bound at *
  split at h <;> split at h <;> omega

/-- An integer of a width has one form there, and no other bytes are read as it. -/
theorem encodes_iff {bytes : Bytes} :
    Encodes width bytes i ↔ Fits width i ∧ bytes = bigEndianInt width i := by
  constructor
  · intro h
    have hform := encodes_bigEndianInt h.fits
    exact ⟨h.fits, toInteger_inj (h.length.trans hform.length.symm)
      (h.value.trans hform.value.symm)⟩
  · rintro ⟨hfits, rfl⟩
    exact encodes_bigEndianInt hfits

end BoundQuery.Bytes
