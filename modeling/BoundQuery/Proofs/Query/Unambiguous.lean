import BoundQuery.Proofs.Query.Calls
import BoundQuery.Proofs.Words
import Mathlib.Data.List.Forall2

/-!
# The body of a WHERE determines its predicates

A column without blanks is set off by the blank behind it, an operator by its first word, a key by
the character behind it, and a list by its parentheses. So where a predicate ends can be told from
the text alone, and with it where the next connector stands: an `AND` between the keys of `BETWEEN`,
or one that is an operator, is never taken for a connector. Only the connector of the first
predicate is not in the text.
-/

namespace BoundQuery

set_option autoImplicit false

open Placeholder Text

/-- The operand is of the kind that the operator takes. -/
structure Operand.Suits (o : Operand) (op : Operator) : Prop where
  none_iff : o = .none ↔ op = .isNull
  range_iff : (∃ low high, o = .range low high) ↔ op = .between

namespace Clause

/-- A predicate as a call records it. -/
structure Recorded (c : Clause) : Prop where
  suits : c.operand.Suits c.operator
  keys : ∀ k ∈ c.operand.keys, IsName k.toList

/-- The predicates are equal, whatever they are joined with. -/
structure SamePredicate (c d : Clause) : Prop where
  column : c.column = d.column
  operator : c.operator = d.operator
  operand : c.operand = d.operand

theorem SamePredicate.render_eq {c d : Clause} (h : c.SamePredicate d) : c.render = d.render := by
  rw [render, render, h.column, h.operator, h.operand]

end Clause

section Calls

variable {q q' : Query} {call : Call} {reply : Reply}

theorem Query.suits_of_bindOperand {r : Registry} {column : String} {op : Operator} {value : Value}
    {operand : Operand} (h : (bindOperand r column op value).1 = .ok operand) :
    operand.Suits op := by
  unfold bindOperand at h
  split at h
  next =>
    cases h
    exact ⟨by simp, by simp⟩
  next =>
    cases h
    exact ⟨by simp, by simp⟩
  next => cases h
  next hnull _ hbetween =>
    cases h
    exact ⟨by simpa using hnull, by simpa using hbetween⟩
  next hnull hbetween _ _ =>
    cases h
    exact ⟨by simpa using hnull, by simpa using hbetween⟩

theorem Call.Effect.recorded (h : Effect q call reply q') (hq : ∀ c ∈ q.clauses, c.Recorded) :
    ∀ c ∈ q'.clauses, c.Recorded := by
  cases h with
  | restrict column connector hop hbound hkeys =>
    intro c hc
    rcases List.mem_append.mp hc with hc | hc
    · exact hq c hc
    · rw [List.mem_singleton.mp hc]
      refine ⟨Query.suits_of_bindOperand hbound, ?_⟩
      intro k hk
      rw [hkeys] at hk
      exact Registry.isName_of_mem_keysFrom hk
  | _ => exact hq

theorem Call.recorded_run (call : Call) (hq : ∀ c ∈ q.clauses, c.Recorded) :
    ∀ c ∈ (call.run q).2.clauses, c.Recorded := by
  rcases call.run_outcomes q with ⟨e, h⟩ | ⟨reply, q', h, heffect⟩
  · rw [h]
    exact hq
  · rw [h]
    exact heffect.recorded hq

/-- Every predicate of a run has an operand that suits its operator. -/
theorem Call.recorded_runAll (calls : List Call) (hq : ∀ c ∈ q.clauses, c.Recorded) :
    ∀ c ∈ (runAll calls q).2.clauses, c.Recorded := by
  induction calls generalizing q with
  | nil => exact hq
  | cons call calls ih => exact ih (call.recorded_run hq)

end Calls

section Runs

variable {a b s t : List Char} {k l : String} {ks ls : List String}

/-- Nothing, or a blank before whatever comes next. -/
def Text.Ends (s : List Char) : Prop := ∀ c ∈ s.head?, c = ' '

theorem Text.ends_cons (s : List Char) : Ends (' ' :: s) := by
  intro c hc
  cases hc
  rfl

theorem Text.Ends.append (ha : Ends a) (hs : Ends s) : Ends (a ++ s) := by
  cases a with
  | nil => exact hs
  | cons c a => exact ha

theorem Text.Ends.isKeyChar (hs : Ends s) : ∀ c ∈ s.head?, Identifier.isKeyChar c = false := by
  intro c hc
  rw [hs c hc]
  decide

theorem append_inj_of_blank (ha : ' ' ∉ a) (hb : ' ' ∉ b) (hs : Ends s) (ht : Ends t)
    (h : a ++ s = b ++ t) : a = b ∧ s = t := by
  have hplain {r : List Char} (hr : ' ' ∉ r) : ∀ c ∈ r, (c != ' ') = true := by
    intro c hc
    rw [bne_iff_ne]
    rintro rfl
    exact hr hc
  exact append_inj_of_run (hplain ha) (hplain hb) (fun c hc => by simp [hs c hc])
    (fun c hc => by simp [ht c hc]) h

/-- A key ends where a character stands that no key has. -/
theorem key_append_inj (hk : IsName k.toList) (hl : IsName l.toList)
    (hs : ∀ c ∈ s.head?, Identifier.isKeyChar c = false)
    (ht : ∀ c ∈ t.head?, Identifier.isKeyChar c = false)
    (h : k.toList ++ s = l.toList ++ t) : k = l ∧ s = t := by
  have hkey {r : List Char} (hr : IsName r) : ∀ c ∈ r, Identifier.isKeyChar c = true := by
    obtain ⟨c, rest, rfl, hc, hrest⟩ := hr
    exact List.forall_mem_cons.mpr ⟨Identifier.isKeyChar_of_isKeyStart hc, hrest⟩
  obtain ⟨hkl, hst⟩ := append_inj_of_run (hkey hk) (hkey hl) hs ht h
  exact ⟨String.toList_injective hkl, hst⟩

/-- What stands behind the first key of a list: the others, and the parenthesis. -/
def Operand.closing : List String → List Char
  | [] => [')']
  | k :: ks => ',' :: ' ' :: ':' :: (k.toList ++ closing ks)

theorem Operand.isKeyChar_closing (ks : List String) (s : List Char) :
    ∀ c ∈ (closing ks ++ s).head?, Identifier.isKeyChar c = false := by
  intro c hc
  cases ks with
  | nil =>
    cases hc
    decide
  | cons k ks =>
    cases hc
    decide

theorem Operand.closing_append_inj (hks : ∀ k ∈ ks, IsName k.toList)
    (hls : ∀ l ∈ ls, IsName l.toList) (h : closing ks ++ s = closing ls ++ t) :
    ks = ls ∧ s = t := by
  induction ks generalizing ls with
  | nil =>
    cases ls with
    | nil => exact ⟨rfl, (List.cons.inj h).2⟩
    | cons l ls => simp [closing] at h
  | cons k ks ih =>
    cases ls with
    | nil => simp [closing] at h
    | cons l ls =>
      simp only [closing, List.cons_append, List.append_assoc, List.cons.injEq, true_and] at h
      obtain ⟨rfl, hrest⟩ := key_append_inj (hks k List.mem_cons_self) (hls l List.mem_cons_self)
        (isKeyChar_closing ks s) (isKeyChar_closing ls t) h
      obtain ⟨rfl, hst⟩ := ih (fun x hx => hks x (List.mem_cons_of_mem k hx))
        (fun x hx => hls x (List.mem_cons_of_mem _ hx)) hrest
      exact ⟨rfl, hst⟩

end Runs

namespace Clause

variable {c d : Clause} {s t : List Char}

theorem toList_operandText_cons (k : String) (ks : List String) :
    (operandText (.list (k :: ks))).toList =
      ' ' :: '(' :: ':' :: (k.toList ++ Operand.closing ks) := by
  have hlist : (String.intercalate ", " ((k :: ks).map (":" ++ ·))).toList ++ [')'] =
      ':' :: (k.toList ++ Operand.closing ks) := by
    induction ks generalizing k with
    | nil => simp [Operand.closing]
    | cons l ks ih =>
      have hne : (l :: ks).map (":" ++ ·) ≠ [] := by simp
      rw [List.map_cons, String.intercalate_cons_of_ne_nil hne]
      simp only [String.toList_append, List.append_assoc, ih, Operand.closing]
      rfl
  simpa [operandText] using hlist

theorem ends_operandText (o : Operand) : Ends (operandText o).toList := by
  cases o with
  | none => exact nofun
  | list ks =>
    cases ks with
    | nil => exact ends_cons _
    | cons k ks =>
      rw [toList_operandText_cons]
      exact ends_cons _
  | _ =>
    simp only [operandText, String.toList_append]
    exact ends_cons _

theorem list_append_inj {ks ls : List String} (hks : ∀ k ∈ ks, IsName k.toList)
    (hls : ∀ l ∈ ls, IsName l.toList)
    (h : (operandText (.list ks)).toList ++ s = (operandText (.list ls)).toList ++ t) :
    ks = ls ∧ s = t := by
  cases ks with
  | nil =>
    cases ls with
    | nil => exact ⟨rfl, List.append_cancel_left h⟩
    | cons l ls =>
      rw [toList_operandText_cons] at h
      simp [operandText] at h
  | cons k ks =>
    cases ls with
    | nil =>
      rw [toList_operandText_cons] at h
      simp [operandText] at h
    | cons l ls =>
      rw [toList_operandText_cons, toList_operandText_cons] at h
      simp only [List.cons_append, List.append_assoc, List.cons.injEq, true_and] at h
      obtain ⟨rfl, hrest⟩ := key_append_inj (hks k List.mem_cons_self) (hls l List.mem_cons_self)
        (Operand.isKeyChar_closing ks s) (Operand.isKeyChar_closing ls t) h
      obtain ⟨rfl, hst⟩ := Operand.closing_append_inj
        (fun x hx => hks x (List.mem_cons_of_mem k hx))
        (fun x hx => hls x (List.mem_cons_of_mem k hx)) hrest
      exact ⟨rfl, hst⟩

theorem key_ne_list {k : String} {ks : List String} :
    (operandText (.key k)).toList ++ s ≠ (operandText (.list ks)).toList ++ t := by
  intro h
  cases ks with
  | nil => simp [operandText] at h
  | cons l ls =>
    rw [toList_operandText_cons] at h
    simp [operandText] at h

theorem operandText_append_inj {op : Operator} {o o' : Operand} (ho : o.Suits op)
    (ho' : o'.Suits op) (hkeys : ∀ k ∈ o.keys, IsName k.toList)
    (hkeys' : ∀ k ∈ o'.keys, IsName k.toList) (hs : Ends s) (ht : Ends t)
    (h : (operandText o).toList ++ s = (operandText o').toList ++ t) : o = o' ∧ s = t := by
  have hnone := ho.none_iff.trans ho'.none_iff.symm
  have hrange := ho.range_iff.trans ho'.range_iff.symm
  cases o with
  | none =>
    obtain rfl := hnone.mp rfl
    exact ⟨rfl, h⟩
  | range low high =>
    obtain ⟨low', high', rfl⟩ := hrange.mp ⟨low, high, rfl⟩
    have hand : (" AND :" : String).toList = ' ' :: "AND :".toList := rfl
    simp only [operandText, String.toList_append, List.append_assoc, hand, List.cons_append] at h
    simp only [Operand.keys, List.forall_mem_cons] at hkeys hkeys'
    obtain ⟨rfl, hhigh⟩ := key_append_inj hkeys.1 hkeys'.1 (ends_cons _).isKeyChar
      (ends_cons _).isKeyChar (List.append_cancel_left h)
    have hrest := List.append_cancel_left (List.cons.inj hhigh).2
    obtain ⟨rfl, hst⟩ := key_append_inj hkeys.2.1 hkeys'.2.1 hs.isKeyChar ht.isKeyChar hrest
    exact ⟨rfl, hst⟩
  | key k =>
    cases o' with
    | none => cases hnone.mpr rfl
    | range low high =>
      obtain ⟨_, _, hkey⟩ := hrange.mpr ⟨low, high, rfl⟩
      cases hkey
    | list ls => exact absurd h key_ne_list
    | key l =>
      simp only [operandText, String.toList_append, List.append_assoc] at h
      obtain ⟨rfl, hst⟩ := key_append_inj (hkeys k List.mem_cons_self) (hkeys' l List.mem_cons_self)
        hs.isKeyChar ht.isKeyChar (List.append_cancel_left h)
      exact ⟨rfl, hst⟩
  | list ks =>
    cases o' with
    | none => cases hnone.mpr rfl
    | range low high =>
      obtain ⟨_, _, hlist⟩ := hrange.mpr ⟨low, high, rfl⟩
      cases hlist
    | key l => exact absurd h.symm key_ne_list
    | list ls =>
      obtain ⟨rfl, hst⟩ := list_append_inj hkeys hkeys' h
      exact ⟨rfl, hst⟩

end Clause

namespace Operator

variable {op op' : Operator} {s t : List Char}

def firstWord (op : Operator) : List Char := op.keyword.toList.takeWhile (· != ' ')

theorem find?_firstWord (op : Operator) :
    Dialect.postgres.operators.find? (·.firstWord == op.firstWord) = some op := by
  cases op <;> rfl

/-- Operators differ in their first words, so what stands behind a keyword can be told too. -/
theorem keyword_append_inj (hs : Ends s) (ht : Ends t)
    (h : op.keyword.toList ++ s = op'.keyword.toList ++ t) : op = op' ∧ s = t := by
  have hword (o : Operator) : ' ' ∉ o.firstWord := fun hmem => by
    simpa using List.mem_takeWhile_imp hmem
  have hmore (o : Operator) : Ends (o.keyword.toList.dropWhile (· != ' ')) := by
    intro c hc
    have hnot := List.head?_dropWhile_not (· != ' ') o.keyword.toList
    rw [Option.mem_def.mp hc] at hnot
    simpa using hnot
  have hsplit (o : Operator) (u : List Char) : o.keyword.toList ++ u =
      o.firstWord ++ (o.keyword.toList.dropWhile (· != ' ') ++ u) := by
    rw [firstWord, ← List.append_assoc, List.takeWhile_append_dropWhile]
  have hfirst : op.firstWord = op'.firstWord := by
    rw [hsplit, hsplit] at h
    exact (append_inj_of_blank (hword op) (hword op') ((hmore op).append hs)
      ((hmore op').append ht) h).1
  have hop : op = op' := by
    have hfind := find?_firstWord op
    rw [hfirst, find?_firstWord] at hfind
    exact (Option.some.inj hfind).symm
  subst hop
  exact ⟨rfl, List.append_cancel_left h⟩

end Operator

namespace Clause

variable {c d : Clause} {cs ds : List Clause} {s t : List Char}

/-- A predicate as a call records it, of a column without blanks. -/
def IsLegible (c : Clause) : Prop := c.Recorded ∧ ' ' ∉ c.column.toList

theorem render_append_inj (hc : c.IsLegible) (hd : d.IsLegible) (hs : Ends s) (ht : Ends t)
    (h : c.render.toList ++ s = d.render.toList ++ t) : c.SamePredicate d ∧ s = t := by
  have hparts (e : Clause) (u : List Char) : e.render.toList ++ u =
      e.column.toList ++ (' ' :: (e.operator.keyword.toList ++
        ((operandText e.operand).toList ++ u))) := by
    simp [render]
  rw [hparts, hparts] at h
  obtain ⟨hcolumn, h⟩ := append_inj_of_blank hc.2 hd.2 (ends_cons _) (ends_cons _) h
  obtain ⟨hoperator, h⟩ := Operator.keyword_append_inj ((ends_operandText _).append hs)
    ((ends_operandText _).append ht) (List.cons.inj h).2
  have hsuits := hd.1.suits
  rw [← hoperator] at hsuits
  obtain ⟨hoperand, hst⟩ :=
    operandText_append_inj hc.1.suits hsuits hc.1.keys hd.1.keys hs ht h
  exact ⟨⟨String.toList_injective hcolumn, hoperator, hoperand⟩, hst⟩

theorem ends_renderRest (cs : List Clause) : Ends (renderRest cs).toList := by
  cases cs with
  | nil => exact nofun
  | cons c cs =>
    simp only [renderRest, String.toList_append, List.append_assoc]
    exact ends_cons _

theorem Connector.keyword_append_inj {k l : Connector}
    (h : k.keyword.toList ++ ' ' :: s = l.keyword.toList ++ ' ' :: t) : k = l ∧ s = t := by
  cases k <;> cases l <;> simp_all [Connector.keyword]

theorem renderRest_inj (hcs : ∀ c ∈ cs, c.IsLegible) (hds : ∀ d ∈ ds, d.IsLegible)
    (h : (renderRest cs).toList = (renderRest ds).toList) :
    List.Forall₂ SamePredicate cs ds ∧ cs.map (·.connector) = ds.map (·.connector) := by
  have hparts (c : Clause) (cs : List Clause) : (renderRest (c :: cs)).toList =
      ' ' :: (c.connector.keyword.toList ++
        ' ' :: (c.render.toList ++ (renderRest cs).toList)) := by
    simp [renderRest]
  induction cs generalizing ds with
  | nil =>
    cases ds with
    | nil => exact ⟨.nil, rfl⟩
    | cons d ds =>
      rw [hparts] at h
      cases h
  | cons c cs ih =>
    cases ds with
    | nil =>
      rw [hparts] at h
      cases h
    | cons d ds =>
      rw [hparts, hparts] at h
      obtain ⟨hconnector, h⟩ := Connector.keyword_append_inj (List.cons.inj h).2
      obtain ⟨hpredicate, h⟩ := render_append_inj (hcs c List.mem_cons_self)
        (hds d List.mem_cons_self) (ends_renderRest cs) (ends_renderRest ds) h
      obtain ⟨hpredicates, hconnectors⟩ := ih (fun e he => hcs e (List.mem_cons_of_mem c he))
        (fun e he => hds e (List.mem_cons_of_mem d he)) h
      refine ⟨.cons hpredicate hpredicates, ?_⟩
      rw [List.map_cons, List.map_cons, hconnector, hconnectors]

theorem renderRest_congr (h : List.Forall₂ SamePredicate cs ds)
    (hconnectors : cs.map (·.connector) = ds.map (·.connector)) :
    renderRest cs = renderRest ds := by
  induction h with
  | nil => rfl
  | cons hcd _ ih =>
    rw [List.map_cons, List.map_cons] at hconnectors
    obtain ⟨hconnector, hrest⟩ := List.cons.inj hconnectors
    rw [renderRest, renderRest, hcd.render_eq, ih hrest, hconnector]

theorem renderAll_ne_empty (c : Clause) (cs : List Clause) : renderAll (c :: cs) ≠ "" := by
  intro h
  have hlength := congrArg (·.toList.length) h
  simp [renderAll, render] at hlength

/--
Two lists of predicates as calls record them, of columns without blanks, give the same body if and
only if they are equal predicate by predicate and in the connectors from the second predicate on.
-/
theorem renderAll_eq_iff (hcs : ∀ c ∈ cs, c.Recorded ∧ ' ' ∉ c.column.toList)
    (hds : ∀ d ∈ ds, d.Recorded ∧ ' ' ∉ d.column.toList) :
    renderAll cs = renderAll ds ↔ List.Forall₂ SamePredicate cs ds ∧
      cs.tail.map (·.connector) = ds.tail.map (·.connector) := by
  constructor
  · intro h
    cases cs with
    | nil =>
      cases ds with
      | nil => exact ⟨.nil, rfl⟩
      | cons d ds => exact absurd h.symm (renderAll_ne_empty d ds)
    | cons c cs =>
      cases ds with
      | nil => exact absurd h (renderAll_ne_empty c cs)
      | cons d ds =>
        have htext := congrArg String.toList h
        rw [renderAll, renderAll, String.toList_append, String.toList_append] at htext
        obtain ⟨hpredicate, hrest⟩ := render_append_inj (hcs c List.mem_cons_self)
          (hds d List.mem_cons_self) (ends_renderRest cs) (ends_renderRest ds) htext
        obtain ⟨hpredicates, hconnectors⟩ := renderRest_inj
          (fun e he => hcs e (List.mem_cons_of_mem c he))
          (fun e he => hds e (List.mem_cons_of_mem d he)) hrest
        exact ⟨.cons hpredicate hpredicates, hconnectors⟩
  · rintro ⟨hpredicates, hconnectors⟩
    cases hpredicates with
    | nil => rfl
    | cons hcd hrest =>
      rw [renderAll, renderAll, hcd.render_eq, renderRest_congr hrest hconnectors]

/-- An `AND` of every kind in one body, a list without elements, and two first connectors. -/
theorem renderAll_eq_iff_and :
    let calls (first : Connector) : List Call :=
      [.restrict "AND" "between" (.list [.int 1, .int 2]) first,
        .restrict "NOT" "and" (.int 3) .and, .restrictIn "" (.list []) .or,
        .restrict "x" "is null" .null .and]
    let cs := (Call.runAll (calls .and) { dialect := .mysql }).2.clauses
    let ds := (Call.runAll (calls .or) { dialect := .mysql }).2.clauses
    (∀ c ∈ cs, c.Recorded ∧ ' ' ∉ c.column.toList) ∧
      (∀ d ∈ ds, d.Recorded ∧ ' ' ∉ d.column.toList) ∧
      renderAll cs =
        "AND BETWEEN :AND_1 AND :AND_2 AND NOT AND :NOT_3 OR  IN (NULL) AND x IS NULL" ∧
      renderAll cs = renderAll ds ∧ List.Forall₂ SamePredicate cs ds ∧ cs ≠ ds := by
  intro calls cs ds
  have hcolumns : ∀ es ∈ [cs, ds], ∀ e ∈ es, e.column.toList.contains ' ' = false := by
    decide +kernel
  have hblank {es : List Clause} (hes : es ∈ [cs, ds]) {e : Clause} (he : e ∈ es) :
      ' ' ∉ e.column.toList := by
    simpa using hcolumns es hes e he
  have hcs : ∀ c ∈ cs, c.Recorded ∧ ' ' ∉ c.column.toList := fun c hc =>
    ⟨Call.recorded_runAll (calls .and) (by simp) c hc, hblank (by simp) hc⟩
  have hds : ∀ d ∈ ds, d.Recorded ∧ ' ' ∉ d.column.toList := fun d hd =>
    ⟨Call.recorded_runAll (calls .or) (by simp) d hd, hblank (by simp) hd⟩
  have hbody : renderAll cs = renderAll ds := by decide +kernel
  exact ⟨hcs, hds, by decide +kernel, hbody, ((renderAll_eq_iff hcs hds).mp hbody).1,
    by decide +kernel⟩

end Clause

end BoundQuery
