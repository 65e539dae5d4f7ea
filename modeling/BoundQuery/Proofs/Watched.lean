import BoundQuery.Recorder

/-!
# Watching an executor

An executor can be watched: whatever it is asked to run is written down before it runs. Watching
changes neither a result nor the executor underneath.
-/

namespace BoundQuery

set_option autoImplicit false

structure Asked where
  demand : Demand
  text : String
  registry : Registry

/-- An executor and the statements that were asked of it, the last one at the end. -/
structure Watched (σ : Type) where
  conn : σ
  asked : List Asked := []

namespace Watched

variable {σ : Type} [Executor σ]

instance : Executor (Watched σ) where
  dialect w := Executor.dialect w.conn
  fetchAll w text registry :=
    let (result, conn) := Executor.fetchAll w.conn text registry
    (result, ⟨conn, w.asked ++ [⟨.fetch, text, registry⟩]⟩)
  execute w text registry :=
    let (result, conn) := Executor.execute w.conn text registry
    (result, ⟨conn, w.asked ++ [⟨.execute, text, registry⟩]⟩)
  transact w t :=
    let (result, conn) := Executor.transact w.conn t
    (result, ⟨conn, w.asked⟩)
  note w event := ⟨Executor.note w.conn event, w.asked⟩

end Watched

namespace Query

variable {σ : Type} [Executor σ] (q : Query)

/-- The rows that an executor of the same dialect gives for one text of a query. -/
def read (text? : Except QueryError String) (conn : σ) : Except QueryError (List Row) × σ :=
  match q.mismatch? conn with
  | some e => (.error e, conn)
  | none =>
    match text? with
    | .error e => (.error e, conn)
    | .ok text => Executor.fetchAll conn text q.registry

theorem get_eq_read (conn : σ) : q.get conn = q.read q.selectText conn := rfl

theorem count_eq_read (conn : σ) :
    q.count conn =
      ((q.read q.countText conn).1.bind countOf, (q.read q.countText conn).2) := by
  unfold count read
  cases q.mismatch? conn with
  | some e => rfl
  | none => cases q.countText <;> rfl

theorem asked_read (text? : Except QueryError String) (w : Watched σ) :
    (q.read text? w).2.asked = w.asked ∨ ∃ text, text? = .ok text ∧
      (q.read text? w).2.asked = w.asked ++ [⟨.fetch, text, q.registry⟩] := by
  unfold read
  split
  next => exact .inl rfl
  next =>
    cases text? with
    | error e => exact .inl rfl
    | ok text => exact .inr ⟨text, rfl, rfl⟩

theorem read_watched (text? : Except QueryError String) (w : Watched σ) :
    (q.read text? w).1 = (q.read text? w.conn).1 ∧
      (q.read text? w).2.conn = (q.read text? w.conn).2 := by
  unfold read mismatch?
  rw [show Executor.dialect w = Executor.dialect w.conn from rfl]
  split
  next => exact ⟨rfl, rfl⟩
  next => cases text? <;> exact ⟨rfl, rfl⟩

end Query

end BoundQuery
