import BoundQuery.Proofs.Query.Insert

/-!
# What a run registers

An accepted call registers its values behind those that are there, under new keys made with the
next numbers; a refused one registers nothing. So after every run the registry is the list of all
accepted values in order, and no later call touches what an earlier one has left in it. The keys of
the predicates stand among its keys in the order of the clauses.
-/

namespace BoundQuery

set_option autoImplicit false

open Registry

/-- How many values a predicate takes: two for `BETWEEN`, one for each element of a list. -/
def Operator.load : Operator → Value → Nat
  | isNull, _ => 0
  | between, _ => 2
  | _, .list items => items.length
  | _, _ => 1

theorem Operator.load_eq_length_items {op : Operator} (hnull : op ≠ .isNull)
    (hbetween : op ≠ .between) (value : Value) : op.load value = value.items.length := by
  unfold load Value.items
  split
  next => contradiction
  next => contradiction
  next => rfl
  next hlist =>
    split
    next items => exact (hlist items rfl).elim
    next => rfl

namespace Call

/-- The values that a call gives to a predicate. -/
def operands (d : Dialect) : Call → List Value
  | restrict _ operator value _ =>
    match Operator.ofText d operator with
    | .ok op => op.operands value
    | .error _ => []
  | _ => []

def accepted (d : Dialect) (call : Call) (outcome : Except QueryError Reply) : List Value :=
  if outcome.isOk then call.operands d else []

/-- The values that accepted calls have given to predicates, in the order of the calls. -/
def acceptedAll (d : Dialect) (calls : List Call) (outcomes : List (Except QueryError Reply)) :
    List Value :=
  (calls.zip outcomes).flatMap fun (call, outcome) => accepted d call outcome

/-- What a call registers if it is accepted: columns with values, those of an insert row by row. -/
def cells (d : Dialect) : Call → Cells
  | restrict column operator value _ =>
    match Operator.ofText d operator with
    | .ok op => (op.operands value).map fun v => (Identifier.escape column, v)
    | .error _ => []
  | stageInsert (first :: rest) =>
    match Cells.arrangeAll (first.map (·.1)) 0 (first :: rest) with
    | .ok all => all.flatMap (first.map (·.1)).zip
    | .error _ => []
  | stageUpdate cells => cells
  | _ => []

def registered (d : Dialect) (call : Call) (outcome : Except QueryError Reply) : Cells :=
  if outcome.isOk then call.cells d else []

/-- What accepted calls register, in the order of the calls. -/
def registeredAll (d : Dialect) (calls : List Call) (outcomes : List (Except QueryError Reply)) :
    Cells :=
  (calls.zip outcomes).flatMap fun (call, outcome) => registered d call outcome

/-- How many values a call registers if it is accepted: rows times columns for an insert. -/
def load (d : Dialect) : Call → Nat
  | restrict _ operator value _ =>
    match Operator.ofText d operator with
    | .ok op => op.load value
    | .error _ => 0
  | stageInsert [] => 0
  | stageInsert (first :: rest) => (rest.length + 1) * first.length
  | stageUpdate cells => cells.length
  | _ => 0

def loadAll (d : Dialect) : List Call → List (Except QueryError Reply) → Nat
  | call :: calls, outcome :: outcomes =>
    (if outcome.isOk then call.load d else 0) + loadAll d calls outcomes
  | _, _ => 0

end Call

theorem Cells.length_flatMap_zip {columns : List String} {all : List (List Value)}
    (hlength : ∀ values ∈ all, values.length = columns.length) :
    (all.flatMap columns.zip).length = all.length * columns.length := by
  rw [← List.length_map (·.2), Query.map_snd_flatMap_zip hlength, Cells.length_flatten hlength]

namespace Query

theorem length_operands_of_bindOperand {r : Registry} {column : String} {op : Operator}
    {value : Value} {operand : Operand} (h : (bindOperand r column op value).1 = .ok operand) :
    (op.operands value).length = op.load value := by
  unfold bindOperand at h
  split at h
  next => rfl
  next => rfl
  next => cases h
  next items hnull _ hbetween =>
    rw [Operator.operands, if_neg hnull, Operator.load_eq_length_items hnull hbetween]
  next hnull hbetween _ _ =>
    rw [Operator.operands, if_neg hnull, Operator.load_eq_length_items hnull hbetween]

end Query

namespace Call

variable {q q' : Query} {call : Call} {reply : Reply}

theorem cells_restrict {d : Dialect} {operator : String} {op : Operator}
    (hop : Operator.ofText d operator = .ok op) (column : String) (value : Value)
    (connector : Connector) :
    (restrict column operator value connector).cells d =
      (op.operands value).map fun v => (Identifier.escape column, v) := by
  simp only [cells, hop]

theorem operands_restrict {d : Dialect} {operator : String} {op : Operator}
    (hop : Operator.ofText d operator = .ok op) (column : String) (value : Value)
    (connector : Connector) :
    (restrict column operator value connector).operands d = op.operands value := by
  simp only [operands, hop]

theorem cells_stageInsert {d : Dialect} {first : Cells} {rest : List Cells}
    {all : List (List Value)}
    (h : Cells.arrangeAll (first.map (·.1)) 0 (first :: rest) = .ok all) :
    (stageInsert (first :: rest)).cells d = all.flatMap (first.map (·.1)).zip := by
  simp only [cells, h]

theorem Effect.registry (h : Effect q call reply q') :
    q'.registry = (q.registry.pushAll (call.cells q.dialect)).2 := by
  cases h with
  | restrict column connector hop _ _ => rw [cells_restrict hop]
  | stageInsert _ _ hall => rw [cells_stageInsert hall]
  | _ => rfl

/-- The keys of a new predicate are those that its values are registered under. -/
theorem Effect.operandKeys (h : Effect q call reply q') :
    q'.operandKeys = q.operandKeys ∧ call.operands q.dialect = [] ∨
      q'.operandKeys =
        q.operandKeys ++ keysFrom q.registry.counter ((call.cells q.dialect).map (·.1)) ∧
      call.operands q.dialect = (call.cells q.dialect).map (·.2) := by
  cases h with
  | restrict column connector hop _ hkeys =>
    right
    rw [cells_restrict hop, operands_restrict hop, List.map_map, List.map_map]
    refine ⟨?_, (List.map_id _).symm⟩
    rw [Query.operandKeys, List.flatMap_append, List.flatMap_singleton, hkeys]
    rfl
  | _ => exact .inl ⟨rfl, rfl⟩

theorem Effect.length_cells (h : Effect q call reply q') :
    (call.cells q.dialect).length = call.load q.dialect := by
  cases h with
  | restrict column connector hop hbound _ =>
    rw [cells_restrict hop, List.length_map, Query.length_operands_of_bindOperand hbound]
    simp only [load, hop]
  | @stageInsert first rest _ all _ _ hall =>
    have hcarries := Cells.forall₂_carries_of_arrangeAll hall
    rw [cells_stageInsert hall,
      Cells.length_flatMap_zip (Cells.length_of_forall₂_carries hcarries), List.length_map,
      ← hcarries.length_eq]
    rfl
  | _ => rfl

theorem registry_run (call : Call) (q : Query) :
    (call.run q).2.registry =
      (q.registry.pushAll (call.registered q.dialect (call.run q).1)).2 := by
  rcases call.run_outcomes q with ⟨e, h⟩ | ⟨reply, q', h, heffect⟩
  · rw [h]
    rfl
  · rw [h]
    exact heffect.registry

theorem length_registered (call : Call) (q : Query) :
    (call.registered q.dialect (call.run q).1).length =
      if (call.run q).1.isOk then call.load q.dialect else 0 := by
  rcases call.run_outcomes q with ⟨e, h⟩ | ⟨reply, q', h, heffect⟩
  · rw [h]
    rfl
  · rw [h]
    exact heffect.length_cells

theorem registeredAll_cons (d : Dialect) (call : Call) (calls : List Call)
    (outcome : Except QueryError Reply) (outcomes : List (Except QueryError Reply)) :
    registeredAll d (call :: calls) (outcome :: outcomes) =
      call.registered d outcome ++ registeredAll d calls outcomes := rfl

theorem registry_runAll (calls : List Call) (q : Query) :
    (runAll calls q).2.registry =
      (q.registry.pushAll (registeredAll q.dialect calls (runAll calls q).1)).2 := by
  induction calls generalizing q with
  | nil => rfl
  | cons call calls ih =>
    change (runAll calls (call.run q).2).2.registry = _
    rw [ih, registry_run, dialect_run]
    change _ = (q.registry.pushAll (registeredAll q.dialect (call :: calls)
      ((call.run q).1 :: (runAll calls (call.run q).2).1))).2
    rw [registeredAll_cons, pushAll_append]

theorem length_registeredAll (calls : List Call) (q : Query) :
    (registeredAll q.dialect calls (runAll calls q).1).length =
      loadAll q.dialect calls (runAll calls q).1 := by
  induction calls generalizing q with
  | nil => rfl
  | cons call calls ih =>
    have hrest := ih (call.run q).2
    rw [dialect_run] at hrest
    change (registeredAll q.dialect (call :: calls)
      ((call.run q).1 :: (runAll calls (call.run q).2).1)).length = _
    rw [registeredAll_cons, List.length_append, length_registered, hrest]
    rfl

theorem runAll_append (calls more : List Call) (q : Query) :
    (runAll (calls ++ more) q).2 = (runAll more (runAll calls q).2).2 := by
  induction calls generalizing q with
  | nil => rfl
  | cons call calls ih => exact ih (call.run q).2

end Call

namespace Query

/--
The state of a query that was made from nothing: what it has registered are `cells`, in order, and
its predicates were given `values`.
-/
structure Records (q : Query) (cells : Cells) (values : List Value) : Prop where
  registry : q.registry = (({} : Registry).pushAll cells).2
  operands : (q.operandKeys.zip values).Sublist q.registry.entries
  length : q.operandKeys.length = values.length

theorem records_empty (d : Dialect) : Records { dialect := d } [] [] :=
  ⟨rfl, List.Sublist.slnil, rfl⟩

variable {q : Query} {cells : Cells} {values : List Value}

theorem Records.isIssued (h : q.Records cells values) : q.registry.IsIssued := by
  rw [h.registry]
  exact (isIssued_empty.pushAll cells).2

theorem Records.entries (h : q.Records cells values) :
    q.registry.entries = (keysFrom 0 (cells.map (·.1))).zip (cells.map (·.2)) := by
  rw [h.registry, (isIssued_empty.pushAll cells).1]
  rfl

theorem Records.keys (h : q.Records cells values) :
    q.registry.keys = keysFrom 0 (cells.map (·.1)) := by
  rw [Registry.keys, h.entries, List.map_fst_zip (by simp)]

theorem Records.nodup (h : q.Records cells values) : q.registry.keys.Nodup := by
  rw [h.keys]
  exact nodup_keysFrom 0 _

theorem Records.operandKeys (h : q.Records cells values) :
    q.operandKeys.Sublist q.registry.keys := by
  have hkeys := h.operands.map (·.1)
  rwa [List.map_fst_zip (Nat.le_of_eq h.length)] at hkeys

theorem Records.issuedBy (h : q.Records cells values) :
    ∀ key ∈ q.operandKeys, IssuedBy q.registry.counter key :=
  fun key hkey => h.isIssued key (h.operandKeys.subset hkey)

theorem Records.isName (h : q.Records cells values) :
    ∀ key ∈ q.operandKeys, Placeholder.IsName key.toList := by
  intro key hkey
  obtain ⟨column, i, _, rfl⟩ := h.issuedBy key hkey
  exact isName_keyOf column i

theorem Records.held (h : q.Records cells values) :
    q.operandKeys.map q.registry.get? = values.map some := by
  have hpairs : ∀ entry ∈ q.operandKeys.zip values,
      q.registry.get? entry.1 = some entry.2 := by
    intro entry hentry
    exact get?_eq_some_iff.mpr (h.operands.subset hentry)
  calc q.operandKeys.map q.registry.get?
      = ((q.operandKeys.zip values).map (·.1)).map q.registry.get? := by
        rw [List.map_fst_zip (Nat.le_of_eq h.length)]
    _ = ((q.operandKeys.zip values).map (·.2)).map some := by
        rw [List.map_map, List.map_map]
        exact List.map_congr_left hpairs
    _ = values.map some := by rw [List.map_snd_zip (Nat.le_of_eq h.length.symm)]

theorem Records.run (h : q.Records cells values) (call : Call) :
    (call.run q).2.Records (cells ++ call.registered q.dialect (call.run q).1)
      (values ++ call.accepted q.dialect (call.run q).1) := by
  have hregistry : (call.run q).2.registry = (({} : Registry).pushAll
      (cells ++ call.registered q.dialect (call.run q).1)).2 := by
    rw [call.registry_run, pushAll_append, h.registry]
  rcases call.run_outcomes q with ⟨e, hrun⟩ | ⟨reply, q', hrun, heffect⟩
  · rw [hrun]
    simpa [Call.registered, Call.accepted, Except.isOk, Except.toBool] using h
  · rw [hrun] at hregistry ⊢
    change q'.Records (cells ++ call.cells q.dialect) (values ++ call.operands q.dialect)
    have hentries := (h.isIssued.pushAll (call.cells q.dialect)).1
    rw [← heffect.registry] at hentries
    rcases heffect.operandKeys with ⟨hkeys, hoperands⟩ | ⟨hkeys, hoperands⟩
    · refine ⟨hregistry, ?_, ?_⟩
      · rw [hkeys, hoperands, List.append_nil, hentries]
        exact h.operands.trans (List.sublist_append_left _ _)
      · rw [hkeys, hoperands, List.append_nil, h.length]
    · refine ⟨hregistry, ?_, ?_⟩
      · rw [hkeys, hoperands, hentries, List.zip_append h.length]
        exact h.operands.append (List.Sublist.refl _)
      · simp [hkeys, hoperands, h.length]

theorem Records.runAll (h : q.Records cells values) (calls : List Call) :
    (Call.runAll calls q).2.Records
      (cells ++ Call.registeredAll q.dialect calls (Call.runAll calls q).1)
      (values ++ Call.acceptedAll q.dialect calls (Call.runAll calls q).1) := by
  induction calls generalizing q cells values with
  | nil => simpa [Call.runAll, Call.registeredAll, Call.acceptedAll] using h
  | cons call calls ih =>
    have hrest := ih (h.run call)
    rw [call.dialect_run q, List.append_assoc, List.append_assoc] at hrest
    exact hrest

end Query

namespace Call

theorem entries_prefix_runAll (calls : List Call) {q : Query} (h : q.registry.IsIssued) :
    q.registry.entries <+: (runAll calls q).2.registry.entries := by
  rw [registry_runAll, (h.pushAll _).1]
  exact List.prefix_append _ _

/--
Every run of calls, accepted and refused: the keys of the registry are different, one for each value
that was accepted; the `i`-th is a placeholder name with the number `i`, and still has the value it
was made for; the keys of the predicates are among them, in the order of the clauses; and what was
registered after some of the calls is there after all of them.
-/
theorem runAll_registers (d : Dialect) (calls : List Call) :
    let run := runAll calls { dialect := d }
    let r := run.2.registry
    r.keys.Nodup ∧ r.size = loadAll d calls run.1 ∧
    (∀ (i : Nat) key, r.keys[i]? = some key → Placeholder.IsName key.toList ∧
      ∃ column value, (registeredAll d calls run.1)[i]? = some (column, value) ∧
        key = Identifier.stem column ++ "_" ++ Text.naturalText (i + 1) ∧
        r.get? key = some value) ∧
    run.2.operandKeys.Sublist r.keys ∧
    ∀ n, (runAll (calls.take n) { dialect := d }).2.registry.entries <+: r.entries := by
  intro run r
  have hrecords : run.2.Records (registeredAll d calls run.1) (acceptedAll d calls run.1) :=
    (Query.records_empty d).runAll calls
  refine ⟨hrecords.nodup, ?_, ?_, hrecords.operandKeys, ?_⟩
  · calc r.size = r.keys.length := (List.length_map _).symm
      _ = (registeredAll d calls run.1).length := by rw [hrecords.keys]; simp
      _ = loadAll d calls run.1 := length_registeredAll calls { dialect := d }
  · intro i key hkey
    rw [hrecords.keys] at hkey
    refine ⟨isName_of_mem_keysFrom (List.mem_of_getElem? hkey), ?_⟩
    have hcolumn := hkey
    rw [getElem?_keysFrom, List.getElem?_map, Option.map_map, Nat.zero_add] at hcolumn
    obtain ⟨⟨column, value⟩, hcell, hname⟩ := Option.map_eq_some_iff.mp hcolumn
    have hentry : (key, value) ∈ r.entries := by
      rw [hrecords.entries]
      refine List.mem_of_getElem? (List.getElem?_zip_eq_some.mpr ⟨hkey, ?_⟩)
      rw [List.getElem?_map, hcell]
      rfl
    exact ⟨column, value, hcell, hname.symm, get?_eq_some_iff.mpr hentry⟩
  · intro n
    have hstart := ((Query.records_empty d).runAll (calls.take n)).isIssued
    have hrun : run.2 = (runAll (calls.drop n) (runAll (calls.take n) { dialect := d }).2).2 := by
      rw [← runAll_append, List.take_append_drop]
    change _ <+: run.2.registry.entries
    rw [hrun]
    exact entries_prefix_runAll (calls.drop n) hstart

/-- A list, a refused insert, a range and an update; the first column looks like a key. -/
theorem runAll_registers_mixed :
    let calls : List Call := [.setTable "t", .restrict "a_1" "in" (.list [.bool true, .null]) .and,
      .stageInsert [[("a", .null)], [("b", .null)]],
      .restrict "1st" "between" (.list [.text "x", .text "z"]) .or, .stageUpdate [("a", .text "y")]]
    let run := runAll calls { dialect := .mysql }
    let r := run.2.registry
    r.keys = ["a_1_1", "a_1_2", "_1st_3", "_1st_4", "a_5"] ∧ r.keys.Nodup ∧
      r.size = loadAll .mysql calls run.1 ∧ loadAll .mysql calls run.1 = 5 ∧
      run.2.operandKeys = ["a_1_1", "a_1_2", "_1st_3", "_1st_4"] ∧
      run.2.operandKeys.Sublist r.keys ∧ Placeholder.IsName "_1st_3".toList ∧
      r.get? "_1st_3" = some (.text "x") := by
  intro calls run r
  have hkeys : r.keys = ["a_1_1", "a_1_2", "_1st_3", "_1st_4", "a_5"] := by decide +kernel
  have hload : loadAll .mysql calls run.1 = 5 := by decide +kernel
  have hoperands : run.2.operandKeys = ["a_1_1", "a_1_2", "_1st_3", "_1st_4"] := by decide +kernel
  have hkey : r.keys[2]? = some "_1st_3" := by rw [hkeys]; rfl
  have hcell : (registeredAll .mysql calls run.1)[2]? = some ("1st", .text "x") := by
    with_unfolding_all rfl
  obtain ⟨hnodup, hsize, hheld, hsublist, _⟩ := runAll_registers .mysql calls
  obtain ⟨hname, column, value, hregistered, _, hvalue⟩ := hheld 2 "_1st_3" hkey
  cases hcell.symm.trans hregistered
  exact ⟨hkeys, hnodup, hsize, hload, hoperands, hsublist, hname, hvalue⟩

end Call

end BoundQuery
