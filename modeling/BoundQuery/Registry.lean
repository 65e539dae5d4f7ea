import BoundQuery.Placeholder
import BoundQuery.QueryError
import BoundQuery.Value

/-!
# The registry of values

Values are registered under keys made from a column name and a running number, in the order of their
registration. Registering under a key that is there replaces its value, so a registry never has two
entries for one key. Binding a statement collects the entries into a map, replaces every placeholder
by a parameter of the dialect and lists the values in the order of the parameters: PostgreSQL gives
a repeated key its number again, MySQL takes the value once more.
-/

namespace BoundQuery
set_option autoImplicit false

/-- Keys with their values, each key once, and the number of keys made so far. -/
structure Registry where
  entries : List (String × Value) := []
  counter : Nat := 0
  distinct : (entries.map (·.1)).Nodup := by exact List.nodup_nil
  deriving Repr

structure BoundStatement where
  sql : String
  values : List Value
  deriving Repr

namespace Registry

/-- Gives a key its value, in its place if there is one and at the end if not. -/
def assign (key : String) (value : Value) : List (String × Value) → List (String × Value)
  | [] => [(key, value)]
  | (k, v) :: rest => if k = key then (k, value) :: rest else (k, v) :: assign key value rest

section Assign

variable {key : String} (value : Value) {entries : List (String × Value)}

theorem assign_of_not_mem (h : key ∉ entries.map (·.1)) :
    assign key value entries = entries ++ [(key, value)] := by
  induction entries with
  | nil => rfl
  | cons entry rest ih =>
    simp only [List.map_cons, List.mem_cons, not_or] at h
    rw [assign, if_neg (Ne.symm h.1), ih h.2, List.cons_append]

theorem map_fst_assign_of_mem (h : key ∈ entries.map (·.1)) :
    (assign key value entries).map (·.1) = entries.map (·.1) := by
  induction entries with
  | nil => exact absurd h List.not_mem_nil
  | cons entry rest ih =>
    rw [assign]
    split
    next heq => rw [List.map_cons, List.map_cons, heq]
    next hne =>
      have hrest : key ∈ rest.map (·.1) := (List.mem_cons.mp h).resolve_left (Ne.symm hne)
      rw [List.map_cons, List.map_cons, ih hrest]

theorem nodup_assign (h : (entries.map (·.1)).Nodup) :
    ((assign key value entries).map (·.1)).Nodup := by
  by_cases hkey : key ∈ entries.map (·.1)
  · rw [map_fst_assign_of_mem value hkey]
    exact h
  · rw [assign_of_not_mem value hkey, List.map_append]
    refine List.nodup_append.mpr ⟨h, by simp, ?_⟩
    rintro other hother _ hnew rfl
    rw [List.mem_singleton.mp hnew] at hother
    exact hkey hother

end Assign

def register (r : Registry) (key : String) (value : Value) : Registry where
  entries := assign key value r.entries
  counter := r.counter
  distinct := nodup_assign value r.distinct

def keyOf (column : String) (number : Nat) : String :=
  Identifier.stem column ++ "_" ++ Text.naturalText number

/-- Makes the next key for a column, without registering it. -/
def generate (r : Registry) (column : String) : String × Registry :=
  (keyOf column (r.counter + 1), { r with counter := r.counter + 1 })

def push (r : Registry) (column : String) (value : Value) : String × Registry :=
  let (key, r) := r.generate column
  (key, r.register key value)

def pushAll (r : Registry) : List (String × Value) → List String × Registry
  | [] => ([], r)
  | (column, value) :: rest =>
    let (key, r) := r.push column value
    let (keys, r) := r.pushAll rest
    (key :: keys, r)

def get? (r : Registry) (key : String) : Option Value := r.entries.lookup key

def keys (r : Registry) : List String := r.entries.map (·.1)

def size (r : Registry) : Nat := r.entries.length

def isEmpty (r : Registry) : Bool := r.entries.isEmpty

/-- The map that entries are collected into: a later one replaces an earlier one of its key. -/
def collect (entries : List (String × Value)) : String → Option Value :=
  entries.foldl (fun map entry key => if key = entry.1 then some entry.2 else map key) fun _ => none

end Registry

/--
The number of the parameter for a key, counted from one, and the parameters with it. They are given
as the keys and values of the parameters so far.
-/
def Dialect.place (d : Dialect) (parameters : List (String × Value)) (key : String)
    (value : Value) : Nat × List (String × Value) :=
  match d with
  | .mysql => (parameters.length + 1, parameters ++ [(key, value)])
  | .postgres =>
    match parameters.findIdx? (·.1 == key) with
    | some i => (i + 1, parameters)
    | none => (parameters.length + 1, parameters ++ [(key, value)])

namespace Registry

/-- Writes the pieces of a statement, with the parameters that come before them. -/
def fill (lookup : String → Option Value) (d : Dialect) :
    List (String × Value) → List Piece → Except QueryError (List Char × List (String × Value))
  | parameters, [] => .ok ([], parameters)
  | parameters, .char c :: rest =>
    match fill lookup d parameters rest with
    | .ok (text, all) => .ok (c :: text, all)
    | .error e => .error e
  | parameters, .key name :: rest =>
    match lookup name with
    | none => .error (.unboundPlaceholder name)
    | some value =>
      let (number, parameters) := d.place parameters name value
      match fill lookup d parameters rest with
      | .ok (text, all) => .ok ((d.parameter number).toList ++ text, all)
      | .error e => .error e

/-- Replaces the placeholders of a statement by parameters; each of them must have a value. -/
def bind (r : Registry) (d : Dialect) (sql : String) : Except QueryError BoundStatement :=
  match fill (collect r.entries) d [] (Placeholder.pieces .outside sql.toList) with
  | .ok (text, parameters) => .ok ⟨.ofList text, parameters.map (·.2)⟩
  | .error e => .error e

end Registry

end BoundQuery
