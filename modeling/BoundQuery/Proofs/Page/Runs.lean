import BoundQuery.Page.Paginate
import BoundQuery.Proofs.Watched
import Mathlib.Data.List.Forall2

/-!
# Runs that answer a page request

Answering a page request is a run of steps on a query and an executor. A property that every step
keeps holds after the run, where it ends with an error too. A relation that every two steps keep
holds after two runs; so a run on a watched executor goes as the run on the executor itself.
-/

namespace BoundQuery

set_option autoImplicit false

namespace Paging

variable {σ α β : Type}

def runOn (m : Paging σ α) (s : Query × σ) : Except QueryError α × Query × σ := m.run s

theorem runOn_shape (call : Query → Attempt α) (q : Query) (conn : σ) :
    (shape call).runOn (q, conn) = ((call q).1, (call q).2, conn) := rfl

theorem runOn_bind (m : Paging σ α) (f : α → Paging σ β) (s : Query × σ) :
    (m >>= f).runOn s =
      match m.runOn s with
      | (.ok a, s) => (f a).runOn s
      | (.error e, s) => (.error e, s) := by
  change (match m.runOn s with
    | (outcome, s) => ExceptT.bindCont (m := StateM (Query × σ)) f outcome s) = _
  rcases m.runOn s with ⟨_ | _, _⟩ <;> rfl

/-- A run, failed or not, leaves behind what a property holds of. -/
def Keeps (I : Query × σ → Prop) (m : Paging σ α) : Prop := ∀ s, I s → I (m.runOn s).2

variable {I : Query × σ → Prop}

theorem Keeps.pure (a : α) : Keeps I (Pure.pure a : Paging σ α) := fun _ h => h

theorem Keeps.bind {m : Paging σ α} {f : α → Paging σ β} (hm : Keeps I m)
    (hf : ∀ a, Keeps I (f a)) : Keeps I (m >>= f) := by
  intro s hs
  have hstep := hm s hs
  rw [runOn_bind]
  revert hstep
  rcases m.runOn s with ⟨e | a, s⟩
  · exact id
  · exact hf a s

theorem Keeps.forM {ι : Type} {f : ι → Paging σ Unit} (items : List ι)
    (hf : ∀ i ∈ items, Keeps I (f i)) : Keeps I (items.forM f) := by
  induction items with
  | nil => exact Keeps.pure ()
  | cons i items ih =>
    exact (hf i List.mem_cons_self).bind fun _ =>
      ih fun j hj => hf j (List.mem_cons_of_mem i hj)

theorem Keeps.shape {call : Query → Attempt α}
    (hcall : ∀ q conn, I (q, conn) → I ((call q).2, conn)) : Keeps I (Paging.shape call) :=
  fun (q, conn) h => hcall q conn h

theorem Keeps.dispatch {run : Query → σ → Except QueryError α × σ}
    (hrun : ∀ q conn, I (q, conn) → I (q, (run q conn).2)) : Keeps I (Paging.dispatch run) :=
  fun (q, conn) h => hrun q conn h

/-- Two runs on related states give the same answer and lead to related states. -/
def Agree {τ : Type} (R : Query × σ → Query × τ → Prop) (m : Paging σ α) (m' : Paging τ α) :
    Prop :=
  ∀ s s', R s s' → (m.runOn s).1 = (m'.runOn s').1 ∧ R (m.runOn s).2 (m'.runOn s').2

section Agree

variable {τ : Type} {R : Query × σ → Query × τ → Prop}

theorem Agree.pure (a : α) :
    Agree R (Pure.pure a : Paging σ α) (Pure.pure a : Paging τ α) := fun _ _ h => ⟨rfl, h⟩

theorem Agree.bind {m : Paging σ α} {m' : Paging τ α} {f : α → Paging σ β} {f' : α → Paging τ β}
    (hm : Agree R m m') (hf : ∀ a, Agree R (f a) (f' a)) : Agree R (m >>= f) (m' >>= f') := by
  intro s s' h
  obtain ⟨hanswer, hend⟩ := hm s s' h
  rw [runOn_bind, runOn_bind]
  revert hanswer hend
  rcases m.runOn s with ⟨answer, t⟩
  rcases m'.runOn s' with ⟨answer', t'⟩
  rintro rfl hend
  cases answer with
  | error e => exact ⟨rfl, hend⟩
  | ok a => exact hf a t t' hend

theorem Agree.forM {ι κ : Type} {f : ι → Paging σ Unit} {f' : κ → Paging τ Unit} {items : List ι}
    {others : List κ} (h : List.Forall₂ (fun i k => Agree R (f i) (f' k)) items others) :
    Agree R (items.forM f) (others.forM f') := by
  induction h with
  | nil => exact Agree.pure ()
  | cons hitem _ ih => exact hitem.bind fun _ => ih

theorem Agree.shape {call call' : Query → Attempt α}
    (hcall : ∀ q q' conn conn', R (q, conn) (q', conn') →
      (call q).1 = (call' q').1 ∧ R ((call q).2, conn) ((call' q').2, conn')) :
    Agree R (Paging.shape call) (Paging.shape call') :=
  fun (q, conn) (q', conn') h => hcall q q' conn conn' h

theorem Agree.dispatch {run : Query → σ → Except QueryError α × σ}
    {run' : Query → τ → Except QueryError α × τ}
    (hrun : ∀ q q' conn conn', R (q, conn) (q', conn') →
      (run q conn).1 = (run' q' conn').1 ∧ R (q, (run q conn).2) (q', (run' q' conn').2)) :
    Agree R (Paging.dispatch run) (Paging.dispatch run') :=
  fun (q, conn) (q', conn') h => hrun q q' conn conn' h

end Agree

/-- A run on a watched executor answers and goes on as another one without the watch. -/
def Follows (m : Paging (Watched σ) α) (m' : Paging σ α) : Prop :=
  ∀ q w, (m.runOn (q, w)).1 = (m'.runOn (q, w.conn)).1 ∧
    (m.runOn (q, w)).2.1 = (m'.runOn (q, w.conn)).2.1 ∧
    (m.runOn (q, w)).2.2.conn = (m'.runOn (q, w.conn)).2.2

theorem Follows.runOn_eq {m : Paging (Watched σ) α} {m' : Paging σ α} (h : Follows m m')
    (q : Query) (conn : σ) :
    let run := m.runOn (q, ({ conn } : Watched σ))
    (run.1, run.2.1, run.2.2.conn) = m'.runOn (q, conn) := by
  obtain ⟨hanswer, hquery, hconn⟩ := h q { conn }
  intro run
  rw [hanswer, hquery, hconn]

/-- One query on a watched executor and on the executor underneath. -/
def Unwatched (s : Query × Watched σ) (s' : Query × σ) : Prop := s.1 = s'.1 ∧ s.2.conn = s'.2

theorem Agree.follows {m : Paging (Watched σ) α} {m' : Paging σ α} (h : Agree Unwatched m m') :
    Follows m m' := fun q w => h (q, w) (q, w.conn) ⟨rfl, rfl⟩

theorem agree_shape_unwatched (call : Query → Attempt α) :
    Agree (Unwatched (σ := σ)) (shape call) (shape call) := by
  apply Agree.shape
  rintro q _ w _ ⟨rfl, rfl⟩
  exact ⟨rfl, rfl, rfl⟩

theorem agree_forM_unwatched {ι : Type} (call : ι → Query → Attempt Unit) (items : List ι) :
    Agree (Unwatched (σ := σ)) (items.forM fun i => shape (call i))
      (items.forM fun i => shape (call i)) :=
  Agree.forM (List.forall₂_same.mpr fun i _ => agree_shape_unwatched (call i))

theorem agree_dispatch_unwatched {run : Query → Watched σ → Except QueryError α × Watched σ}
    {run' : Query → σ → Except QueryError α × σ}
    (hrun : ∀ q w, (run q w).1 = (run' q w.conn).1 ∧ (run q w).2.conn = (run' q w.conn).2) :
    Agree Unwatched (dispatch run) (dispatch run') := by
  apply Agree.dispatch
  rintro q _ w _ ⟨rfl, rfl⟩
  exact ⟨(hrun q w).1, rfl, (hrun q w).2⟩

theorem agree_search_unwatched (columns : List Column) (term : Option String) :
    Agree (Unwatched (σ := σ)) (search columns term) (search columns term) := by
  unfold search
  split
  next => exact Agree.pure ()
  next => exact Agree.pure ()
  next => exact agree_forM_unwatched _ _

theorem agree_count_unwatched [Executor σ] :
    Agree (Unwatched (σ := σ)) (dispatch Query.count) (dispatch Query.count) := by
  apply agree_dispatch_unwatched
  intro q w
  obtain ⟨hrows, hconn⟩ := q.read_watched q.countText w
  rw [q.count_eq_read w, q.count_eq_read w.conn, hrows]
  exact ⟨rfl, hconn⟩

/-- Being watched makes no difference to answering a page request. -/
theorem follows_paginate [Executor σ] (request : PageRequest) (columns : List Column) :
    Follows (paginate request columns : Paging (Watched σ) Page) (paginate request columns) := by
  apply Agree.follows
  unfold paginate
  refine Agree.bind (agree_search_unwatched columns _) fun _ => ?_
  refine Agree.bind (agree_forM_unwatched _ _) fun _ => ?_
  refine Agree.bind agree_count_unwatched fun total => ?_
  refine Agree.bind (agree_dispatch_unwatched fun _ _ => ⟨rfl, rfl⟩) fun _ => ?_
  refine Agree.bind (agree_shape_unwatched _) fun _ => ?_
  refine Agree.bind (agree_shape_unwatched _) fun _ => ?_
  refine Agree.bind (agree_forM_unwatched _ _) fun _ => ?_
  exact Agree.bind (agree_dispatch_unwatched fun q w => q.read_watched q.selectText w)
    fun rows => Agree.pure _

end Paging

end BoundQuery
