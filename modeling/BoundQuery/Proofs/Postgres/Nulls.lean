import BoundQuery.Postgres.Decode
import BoundQuery.Proofs.Number.Widening

/-!
# Which columns read as null

A column that is NULL reads as null. Of the payloads of a type, the two types of JSON texts apart,
those of floats that stand for no number read as null too; every other payload reads as something
else or not at all.
-/

namespace BoundQuery

set_option autoImplicit false

theorem Json.ofFloat_eq_null_iff (x : Binary64) : Json.ofFloat x = .null ↔ x.toRat? = none := by
  rw [Json.ofFloat, Binary64.isFinite_eq_isSome_toRat?]
  cases x.toRat? <;> simp

namespace Postgres

variable {type : SqlType} {read : Bytes → Option Json} {bytes : Bytes} {payload : Option Bytes}

/-- A column reads as null exactly if it is NULL. -/
def TellsNull (type : SqlType) (payload : Option Bytes) : Prop :=
  decodeColumn type payload = .ok .null ↔ payload = none

def single (bytes : Bytes) : Binary32 := ⟨UInt32.ofNat (Bytes.toNatural bytes)⟩

def double (bytes : Bytes) : Binary64 := ⟨UInt64.ofNat (Bytes.toNatural bytes)⟩

/-- The payload of a float that is infinite or not a number. -/
def SpecialFloat : SqlType → Bytes → Prop
  | .float4, bytes => bytes.length = 4 ∧ (single bytes).toRat? = none
  | .float8, bytes => bytes.length = 8 ∧ (double bytes).toRat? = none
  | _, _ => False

theorem map_ne_null {α : Type} {f : α → Json} (hf : ∀ a, f a ≠ .null) (o : Option α) :
    o.map f ≠ some .null := by
  cases o with
  | none => exact nofun
  | some a => simpa using hf a

theorem map_exactly?_eq_some_iff {width : Nat} {f : Bytes → Json} {value : Json} :
    (Bytes.exactly? width bytes).map f = some value ↔ bytes.length = width ∧ f bytes = value := by
  unfold Bytes.exactly?
  split
  next h => simp [h]
  next h => simp [h]

theorem read_eq_null_iff (hread : reader? type = some read) (hjson : type ≠ .json)
    (hjsonb : type ≠ .jsonb) : read bytes = some .null ↔ SpecialFloat type bytes := by
  cases type with
  | json => exact absurd rfl hjson
  | jsonb => exact absurd rfl hjsonb
  | float4 =>
    obtain rfl := Option.some.inj hread
    rw [map_exactly?_eq_some_iff, Json.ofFloat_eq_null_iff, Binary64.toRat?_widen]
    rfl
  | float8 =>
    obtain rfl := Option.some.inj hread
    rw [map_exactly?_eq_some_iff, Json.ofFloat_eq_null_iff]
    rfl
  -- These end in a constructor of JSON values other than null.
  | bool | int2 | int4 | int8 | oid | numeric | timestamp | timestamptz | date | time | uuid
  | text | varchar | bpchar | name | unknown =>
    obtain rfl := Option.some.inj hread
    exact iff_of_false (map_ne_null nofun _) nofun
  | bytea =>
    obtain rfl := Option.some.inj hread
    exact iff_of_false nofun nofun
  | other =>
    obtain ⟨form, -, rfl⟩ := Option.map_eq_some_iff.mp hread
    exact iff_of_false (map_ne_null nofun _) nofun

theorem decodeColumn_some_eq_null_iff (hread : reader? type = some read) :
    decodeColumn type (some bytes) = .ok .null ↔ read bytes = some .null := by
  unfold decodeColumn
  rw [hread]
  cases h : read bytes <;> simp [h]

theorem decodeColumn_none (hread : reader? type = some read) :
    decodeColumn type none = .ok .null := by
  unfold decodeColumn
  rw [hread]

/-- Null is told from every payload of a type but those of floats that stand for no number. -/
theorem tellsNull_iff (hreader : (reader? type).isSome) (hjson : type ≠ .json)
    (hjsonb : type ≠ .jsonb) :
    TellsNull type payload ↔ ∀ bytes, payload = some bytes → ¬ SpecialFloat type bytes := by
  obtain ⟨read, hread⟩ := Option.isSome_iff_exists.mp hreader
  cases payload with
  | none => simp [TellsNull, decodeColumn_none hread]
  | some bytes =>
    simp [TellsNull, decodeColumn_some_eq_null_iff hread, read_eq_null_iff hread hjson hjsonb]

/-- The largest number of single precision. -/
theorem tellsNull_iff_largest :
    let bytes : Bytes := [0x7f, 0x7f, 0xff, 0xff]
    (reader? .float4).isSome ∧ ¬ SpecialFloat .float4 bytes ∧ TellsNull .float4 (some bytes) := by
  intro bytes
  have hvalue : (single bytes).unpack = .finite false 0xffffff 104 := by decide +kernel
  have hspecial : ¬ SpecialFloat .float4 bytes := by
    rw [SpecialFloat, Binary32.toRat?, hvalue]
    simp [Unpacked.toRat?]
  have htells : TellsNull .float4 (some bytes) := by
    have htells : TellsNull .float4 (some bytes) ↔ _ :=
      tellsNull_iff rfl (by decide) (by decide)
    refine htells.mpr fun found hfound => ?_
    rwa [← Option.some.inj hfound]
  exact ⟨rfl, hspecial, htells⟩

/-- A double that is not a number reads as null. -/
theorem not_tellsNull_nan : ¬ TellsNull .float8 (some [0x7f, 0xf8, 0, 0, 0, 0, 0, 0]) := by
  intro h
  cases h.mp rfl

end Postgres

end BoundQuery
