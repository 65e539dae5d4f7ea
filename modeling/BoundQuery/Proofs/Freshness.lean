import BoundQuery.Proofs.Registry

/-!
# Which keys are new

A registry numbers the keys that it makes and does not look at those that it holds. So a key that it
makes differs from all that it made before, but a caller may have registered a value under that very
text. Only then does pushing take the place of an earlier value; else it appends.
-/

namespace BoundQuery.Registry

set_option autoImplicit false

/-- A call: it makes a key, registers a value under a key of the caller's, or does both at once. -/
inductive Action where
  | generate (column : String)
  | register (key : String) (value : Value)
  | push (column : String) (value : Value)

namespace Action

/-- The column that a key is made for. -/
def column? : Action → Option String
  | generate column => some column
  | register _ _ => none
  | push column _ => some column

/-- The key that the caller chose. -/
def chosen? : Action → Option String
  | register key _ => some key
  | _ => none

/-- Performs an action, and returns the key that it makes. -/
def run (r : Registry) : Action → Option String × Registry
  | generate column => (some (r.generate column).1, (r.generate column).2)
  | register key value => (none, r.register key value)
  | push column value => (some (r.push column value).1, (r.push column value).2)

/-- Performs actions one after the other, and returns the keys that they make. -/
def runAll (r : Registry) : List Action → List String × Registry
  | [] => ([], r)
  | action :: rest =>
    let (made, r) := action.run r
    let (keys, r) := runAll r rest
    (made.toList ++ keys, r)

def chosenAll (actions : List Action) : List String := actions.filterMap chosen?

end Action

variable {r : Registry} {chosen : List String}

theorem keys_register (r : Registry) (key : String) (value : Value) :
    (r.register key value).keys = if key ∈ r.keys then r.keys else r.keys ++ [key] := by
  split
  next h => exact map_fst_assign_of_mem value h
  next h =>
    change (assign key value r.entries).map (·.1) = _
    rw [assign_of_not_mem value h, List.map_append]
    rfl

theorem mem_keys_register {key other : String} {value : Value} :
    other ∈ (r.register key value).keys ↔ other ∈ r.keys ∨ other = key := by
  rw [keys_register]
  split
  next h =>
    constructor
    · exact Or.inl
    · rintro (hother | rfl)
      · exact hother
      · exact h
  next => rw [List.mem_append, List.mem_singleton]

/-- A value is put at the end if its key is new, and in the place of another one if not. -/
theorem entries_register_iff {key : String} {value : Value} :
    (r.register key value).entries = r.entries ++ [(key, value)] ↔ key ∉ r.keys := by
  constructor
  · intro h hmem
    have hkeys := keys_register r key value
    rw [if_pos hmem] at hkeys
    have hlength := congrArg List.length hkeys
    rw [keys, keys, List.length_map, List.length_map, h, List.length_append] at hlength
    exact absurd hlength (Nat.succ_ne_self _)
  · exact assign_of_not_mem value

theorem keys_register_iff {key : String} {value : Value} :
    (r.register key value).keys = r.keys ↔ key ∈ r.keys := by
  rw [keys_register]
  by_cases h : key ∈ r.keys <;> simp [h]

/-- A key that is held was made by the registry or chosen by a caller, and no choice is lost. -/
structure Tracks (r : Registry) (chosen : List String) : Prop where
  held : ∀ key ∈ r.keys, IssuedBy r.counter key ∨ key ∈ chosen
  kept : ∀ key ∈ chosen, key ∈ r.keys

theorem tracks_empty : ({} : Registry).Tracks [] :=
  ⟨fun _ h => absurd h List.not_mem_nil, fun _ h => absurd h List.not_mem_nil⟩

theorem Tracks.mem_keys_iff (h : r.Tracks chosen) (column : String) :
    (r.generate column).1 ∈ r.keys ↔ (r.generate column).1 ∈ chosen := by
  constructor
  · intro hmem
    exact (h.held _ hmem).resolve_left (r.not_issuedBy_next column)
  · exact h.kept _

theorem Tracks.generate (h : r.Tracks chosen) (column : String) :
    (r.generate column).2.Tracks chosen where
  held key hkey := (h.held key hkey).imp_left (·.mono (Nat.le_succ _))
  kept := h.kept

theorem Tracks.register (h : r.Tracks chosen) (key : String) (value : Value) :
    (r.register key value).Tracks (chosen ++ [key]) where
  held other hother := by
    rcases mem_keys_register.mp hother with hold | rfl
    · exact (h.held other hold).imp_right (List.mem_append_left _)
    · exact .inr (List.mem_append_right _ (List.mem_singleton_self _))
  kept other hother := by
    rcases List.mem_append.mp hother with hold | hnew
    · exact mem_keys_register.mpr (.inl (h.kept other hold))
    · exact mem_keys_register.mpr (.inr (List.mem_singleton.mp hnew))

theorem Tracks.push (h : r.Tracks chosen) (column : String) (value : Value) :
    (r.push column value).2.Tracks chosen where
  held key hkey := by
    rcases mem_keys_register.mp hkey with hold | rfl
    · exact (h.generate column).held key hold
    · exact .inl ⟨column, r.counter + 1, Nat.le_refl _, rfl⟩
  kept key hkey := mem_keys_register.mpr (.inl (h.kept key hkey))

namespace Action

theorem counter_run (r : Registry) (action : Action) :
    (action.run r).2.counter = r.counter + (action.run r).1.toList.length := by
  cases action <;> rfl

theorem tracks_run (h : r.Tracks chosen) (action : Action) :
    (action.run r).2.Tracks (chosen ++ action.chosen?.toList) := by
  cases action with
  | generate column =>
    change (r.generate column).2.Tracks (chosen ++ [])
    rw [List.append_nil]
    exact h.generate column
  | register key value => exact h.register key value
  | push column value =>
    change (r.push column value).2.Tracks (chosen ++ [])
    rw [List.append_nil]
    exact h.push column value

theorem runAll_cons (r : Registry) (action : Action) (rest : List Action) :
    runAll r (action :: rest) =
      ((action.run r).1.toList ++ (runAll (action.run r).2 rest).1,
        (runAll (action.run r).2 rest).2) := rfl

theorem chosenAll_cons (action : Action) (rest : List Action) :
    chosenAll (action :: rest) = action.chosen?.toList ++ chosenAll rest := by
  cases action <;> rfl

/-- The keys that are made have running numbers, whatever is registered in between. -/
theorem fst_runAll (r : Registry) (actions : List Action) :
    (runAll r actions).1 = keysFrom r.counter (actions.filterMap column?) := by
  induction actions generalizing r with
  | nil => rfl
  | cons action rest ih =>
    rw [runAll_cons, ih]
    cases action <;> rfl

theorem counter_runAll (r : Registry) (actions : List Action) :
    (runAll r actions).2.counter = r.counter + (runAll r actions).1.length := by
  induction actions generalizing r with
  | nil => rfl
  | cons action rest ih =>
    rw [runAll_cons, ih, counter_run, List.length_append, Nat.add_assoc]

theorem tracks_runAll (h : r.Tracks chosen) (actions : List Action) :
    (runAll r actions).2.Tracks (chosen ++ chosenAll actions) := by
  induction actions generalizing r chosen with
  | nil => exact (List.append_nil chosen).symm ▸ h
  | cons action rest ih =>
    have hrest := ih (tracks_run h action)
    rw [List.append_assoc, ← chosenAll_cons] at hrest
    exact hrest

/--
After any calls on a new registry, the key that it makes next is none of those it has made, and
these differ from each other. It is held already if and only if a caller has registered a value
under that text; then pushing gives this key its new value in the place of the old one, and in all
other cases it appends. The keys made are counted, so their number is the last number given.
-/
theorem runAll_fresh (actions : List Action) (column : String) (value : Value) :
    let made := (runAll {} actions).1
    let r := (runAll {} actions).2
    let key := (r.generate column).1
    let pushed := r.push column value
    made.Nodup ∧ r.counter = made.length ∧
    key ∉ made ∧
    (key ∈ r.keys ↔ key ∈ chosenAll actions) ∧
    pushed.1 = key ∧
    (pushed.2.entries = r.entries ++ [(key, value)] ↔ key ∉ chosenAll actions) ∧
    (pushed.2.keys = r.keys ↔ key ∈ chosenAll actions) ∧
    ∀ other, pushed.2.get? other = if other = key then some value else r.get? other := by
  intro made r key pushed
  have hmade : made = keysFrom 0 (actions.filterMap column?) := fst_runAll {} actions
  have hcounter : r.counter = made.length := by
    simpa using counter_runAll {} actions
  have hheld : key ∈ r.keys ↔ key ∈ chosenAll actions :=
    (tracks_runAll tracks_empty actions).mem_keys_iff column
  refine ⟨?_, hcounter, ?_, hheld, rfl, ?_, ?_, ?_⟩
  · rw [hmade]
    exact nodup_keysFrom 0 _
  · intro hmem
    rw [hmade] at hmem
    have hissued := issuedBy_of_mem_keysFrom hmem
    rw [Nat.zero_add, ← length_keysFrom 0, ← hmade, ← hcounter] at hissued
    exact not_issuedBy_next r column hissued
  · rw [← hheld]
    exact entries_register_iff (r := (r.generate column).2)
  · rw [← hheld]
    exact keys_register_iff (r := (r.generate column).2)
  · exact fun other => get?_register (r.generate column).2 key other value

/-- A caller's key that spells the first key of a column: pushing replaces the caller's value. -/
theorem push_replaces_chosen :
    let r := (runAll {} [.register "id_1" (.int 0)]).2
    r.entries = [("id_1", .int 0)] ∧ (r.push "id" (.int 1)).2.entries = [("id_1", .int 1)] ∧
      ¬ ∀ (actions : List Action) (column : String),
        ((runAll {} actions).2.generate column).1 ∉ (runAll {} actions).2.keys := by
  intro r
  have hkey : (r.generate "id").1 = "id_1" := by decide
  refine ⟨rfl, ?_, fun h => ?_⟩
  · change assign (r.generate "id").1 (.int 1) r.entries = _
    rw [hkey]
    rfl
  · apply h [.register "id_1" (.int 0)] "id"
    decide

end Action

end BoundQuery.Registry
