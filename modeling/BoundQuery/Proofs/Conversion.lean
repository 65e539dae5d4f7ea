import BoundQuery.Proofs.Numeral
import BoundQuery.Value

/-!
# Values and JSON

A value is written as JSON of its own shape, and JSON is read as the value of its shape. Two kinds
of JSON have no value of their own: an object becomes text, and an integer beyond the signed range
becomes a double, although the same integer keeps its digits if a program holds it as an unsigned
one. Without them writing and reading undo each other, but for the doubles that JSON cannot write.
-/

namespace BoundQuery

set_option autoImplicit false

namespace Value

theorem ofJson_integer {n : Int} (h : Text.IsInt64 n) :
    ofJson (.integer n) = .int (Int64.ofInt n) := by
  rw [ofJson, Json.toInt64?, if_pos h]

theorem ofJson_integer_of_not {n : Int} (h : ¬ Text.IsInt64 n) :
    ofJson (.integer n) = .float (Binary64.ofInt n) := by
  rw [ofJson, Json.toInt64?, if_neg h]

end Value

/-- Integers of 64 bits as a program holds them, with or without sign, in lists of any nesting. -/
inductive Integers where
  | signed (n : Int64)
  | unsigned (n : UInt64)
  | list (items : List Integers)

namespace Integers

mutual

def toJson : Integers → Json
  | signed n => .integer n.toInt
  | unsigned n => .integer n.toNat
  | list items => .array (allToJson items)

def allToJson : List Integers → List Json
  | [] => []
  | item :: rest => item.toJson :: allToJson rest

end

mutual

/-- The value of integers, each by the conversion of its own type. -/
def toValue : Integers → Value
  | signed n => .ofInt64 n
  | unsigned n => .ofUInt64 n
  | list items => .list (allToValue items)

def allToValue : List Integers → List Value
  | [] => []
  | item :: rest => item.toValue :: allToValue rest

end

mutual

/-- All integers are in the signed range, also those without sign. -/
def AreSigned : Integers → Prop
  | signed _ => True
  | unsigned n => n.toNat ≤ Text.int64Max
  | list items => AllAreSigned items

def AllAreSigned : List Integers → Prop
  | [] => True
  | item :: rest => item.AreSigned ∧ AllAreSigned rest

end

theorem ofJson_signed (n : Int64) : Value.ofJson (signed n).toJson = (signed n).toValue := by
  rw [toJson, Value.ofJson_integer (Text.isInt64_toInt n), Int64.ofInt_toInt, toValue,
    Value.ofInt64]

theorem ofJson_unsigned_outcomes (n : UInt64) :
    n.toNat ≤ Text.int64Max ∧ Value.ofJson (.integer n.toNat) = .ofUInt64 n ∨
      Text.int64Max < n.toNat ∧
        Value.ofJson (.integer n.toNat) = .float (Binary64.ofInt n.toNat) ∧
        Value.ofUInt64 n = .text (Text.naturalText n.toNat) := by
  have hrange : Text.IsInt64 n.toNat ↔ n.toNat ≤ Text.int64Max := by
    unfold Text.IsInt64
    omega
  by_cases h : n.toNat ≤ Text.int64Max
  · left
    rw [Value.ofJson_integer (hrange.mpr h), Value.ofUInt64, if_pos h]
    exact ⟨h, rfl⟩
  · right
    have hjson := Value.ofJson_integer_of_not (fun hn => h (hrange.mp hn))
    exact ⟨Nat.lt_of_not_le h, hjson, if_neg h⟩

mutual

theorem ofJson_toJson_of_areSigned (t : Integers) (h : t.AreSigned) :
    Value.ofJson t.toJson = t.toValue := by
  cases t with
  | signed n => exact ofJson_signed n
  | unsigned n =>
    rcases ofJson_unsigned_outcomes n with ⟨-, heq⟩ | ⟨hlarge, -⟩
    · exact heq
    · exact absurd h (Nat.not_le_of_lt hlarge)
  | list items =>
    rw [toJson, Value.ofJson, toValue]
    exact congrArg Value.list (ofItems_allToJson_of_areSigned items h)

theorem ofItems_allToJson_of_areSigned (items : List Integers) (h : AllAreSigned items) :
    Value.ofItems (allToJson items) = allToValue items := by
  cases items with
  | nil => rfl
  | cons item rest =>
    rw [allToJson, Value.ofItems, allToValue, ofJson_toJson_of_areSigned item h.1,
      ofItems_allToJson_of_areSigned rest h.2]

end

mutual

theorem areSigned_of_ofJson_toJson (t : Integers) (h : Value.ofJson t.toJson = t.toValue) :
    t.AreSigned := by
  cases t with
  | signed n => trivial
  | unsigned n =>
    rcases ofJson_unsigned_outcomes n with ⟨hsmall, -⟩ | ⟨-, hjson, hvalue⟩
    · exact hsmall
    · rw [toJson, toValue, hjson, hvalue] at h
      cases h
  | list items =>
    rw [toJson, Value.ofJson, toValue] at h
    exact areSigned_of_ofItems_allToJson items (Value.list.inj h)

theorem areSigned_of_ofItems_allToJson (items : List Integers)
    (h : Value.ofItems (allToJson items) = allToValue items) : AllAreSigned items := by
  cases items with
  | nil => trivial
  | cons item rest =>
    rw [allToJson, Value.ofItems, allToValue] at h
    obtain ⟨hitem, hrest⟩ := List.cons.inj h
    exact ⟨areSigned_of_ofJson_toJson item hitem, areSigned_of_ofItems_allToJson rest hrest⟩

end

/--
Integers from JSON, in lists of any nesting, become the same value as the same integers of 64 bits
that a program holds, if and only if none of them is beyond the signed range: such an integer
becomes the nearest double from JSON, and keeps its digits as an unsigned one.
-/
theorem ofJson_agrees_iff (t : Integers) : Value.ofJson t.toJson = t.toValue ↔ t.AreSigned :=
  ⟨areSigned_of_ofJson_toJson t, ofJson_toJson_of_areSigned t⟩

/-- The largest unsigned integer: from JSON it is rounded to a power of two. -/
theorem ofJson_disagrees_largest :
    let t : Integers := .unsigned 18446744073709551615
    t.toJson = .integer 18446744073709551615 ∧
      Value.ofJson t.toJson = .float (Binary64.ofInt 18446744073709551616) ∧
      t.toValue = .text "18446744073709551615" ∧ Value.ofJson t.toJson ≠ t.toValue := by
  intro t
  have hrounded : Binary64.ofInt 18446744073709551615 = Binary64.ofInt 18446744073709551616 := by
    decide +kernel
  have hjson : Value.ofJson t.toJson = .float (Binary64.ofInt 18446744073709551616) := by
    rw [← hrounded]
    exact Value.ofJson_integer_of_not (by decide)
  have hvalue : t.toValue = .text "18446744073709551615" := rfl
  refine ⟨rfl, hjson, hvalue, ?_⟩
  rw [hjson, hvalue]
  exact Value.noConfusion

end Integers

namespace Value

mutual

/-- No double in a value is infinite or not a number. -/
def isFinite : Value → Bool
  | .float x => x.isFinite
  | .list items => areFinite items
  | _ => true

def areFinite : List Value → Bool
  | [] => true
  | item :: rest => item.isFinite && areFinite rest

end

end Value

namespace Json

mutual

/-- JSON without objects whose integers are in the signed range and whose doubles are finite. -/
def isPlain : Json → Bool
  | .integer n => decide (Text.IsInt64 n)
  | .float x => x.isFinite
  | .array items => arePlain items
  | .object _ => false
  | _ => true

def arePlain : List Json → Bool
  | [] => true
  | item :: rest => item.isPlain && arePlain rest

end

theorem ofFloat_outcomes (x : Binary64) :
    x.isFinite = true ∧ ofFloat x = .float x ∨ x.isFinite = false ∧ ofFloat x = .null := by
  unfold ofFloat
  cases x.isFinite with
  | true => exact .inl ⟨rfl, rfl⟩
  | false => exact .inr ⟨rfl, rfl⟩

end Json

namespace Value

theorem ofJson_ofFloat_iff (x : Binary64) : ofJson (Json.ofFloat x) = .float x ↔ x.isFinite := by
  rcases Json.ofFloat_outcomes x with ⟨hfinite, h⟩ | ⟨hfinite, h⟩
  · rw [h, hfinite]
    exact iff_of_true rfl rfl
  · rw [h, hfinite]
    exact iff_of_false Value.noConfusion Bool.false_ne_true

theorem toJson_ofJson_float_iff (x : Binary64) :
    (ofJson (.float x)).toJson = .float x ↔ x.isFinite := by
  rw [ofJson, toJson]
  rcases Json.ofFloat_outcomes x with ⟨hfinite, h⟩ | ⟨hfinite, h⟩
  · rw [h, hfinite]
    exact iff_of_true rfl rfl
  · rw [h, hfinite]
    exact iff_of_false Json.noConfusion Bool.false_ne_true

theorem toJson_ofJson_integer_iff (n : Int) :
    (ofJson (.integer n)).toJson = .integer n ↔ Text.IsInt64 n := by
  by_cases h : Text.IsInt64 n
  · rw [ofJson_integer h, toJson, Text.toInt_ofInt_of_isInt64 h]
    exact iff_of_true rfl h
  · rw [ofJson_integer_of_not h, toJson]
    apply iff_of_false _ h
    rcases Json.ofFloat_outcomes (Binary64.ofInt n) with ⟨-, hfloat⟩ | ⟨-, hfloat⟩
    · rw [hfloat]
      exact Json.noConfusion
    · rw [hfloat]
      exact Json.noConfusion

mutual

/-- A value comes back from its JSON if and only if its doubles are finite. -/
theorem ofJson_toJson_iff (v : Value) : ofJson v.toJson = v ↔ v.isFinite := by
  cases v with
  | null => exact iff_of_true rfl rfl
  | bool b => exact iff_of_true rfl rfl
  | int n =>
    rw [toJson, ofJson_integer (Text.isInt64_toInt n), Int64.ofInt_toInt]
    exact iff_of_true rfl rfl
  | float x => exact ofJson_ofFloat_iff x
  | text s => exact iff_of_true rfl rfl
  | list items =>
    rw [toJson, ofJson, Value.list.injEq, isFinite]
    exact ofItems_toItems_iff items

theorem ofItems_toItems_iff (items : List Value) :
    ofItems (toItems items) = items ↔ areFinite items := by
  cases items with
  | nil => exact iff_of_true rfl rfl
  | cons item rest =>
    rw [toItems, ofItems, List.cons.injEq, areFinite, Bool.and_eq_true, ofJson_toJson_iff item,
      ofItems_toItems_iff rest]

end

mutual

/-- JSON comes back from its value if and only if it is plain. -/
theorem toJson_ofJson_iff (j : Json) : (ofJson j).toJson = j ↔ j.isPlain := by
  cases j with
  | null => exact iff_of_true rfl rfl
  | bool b => exact iff_of_true rfl rfl
  | integer n =>
    rw [Json.isPlain, decide_eq_true_iff]
    exact toJson_ofJson_integer_iff n
  | float x => exact toJson_ofJson_float_iff x
  | string s => exact iff_of_true rfl rfl
  | array items =>
    rw [ofJson, toJson, Json.array.injEq, Json.isPlain]
    exact toItems_ofItems_iff items
  | object fields =>
    apply iff_of_false
    · exact Json.noConfusion
    · exact Bool.false_ne_true

theorem toItems_ofItems_iff (items : List Json) :
    toItems (ofItems items) = items ↔ Json.arePlain items := by
  cases items with
  | nil => exact iff_of_true rfl rfl
  | cons item rest =>
    rw [ofItems, toItems, List.cons.injEq, Json.arePlain, Bool.and_eq_true, toJson_ofJson_iff item,
      toItems_ofItems_iff rest]

end

/--
A value of whatever nesting comes back from its JSON if and only if it holds no infinite double and
none that is not a number; JSON comes back from its value if and only if it holds no object, no
integer beyond the signed range and no double that JSON cannot write.
-/
theorem json_roundTrip :
    (∀ v : Value, ofJson v.toJson = v ↔ v.isFinite) ∧
      ∀ j : Json, (ofJson j).toJson = j ↔ j.isPlain :=
  ⟨ofJson_toJson_iff, toJson_ofJson_iff⟩

end Value

end BoundQuery
