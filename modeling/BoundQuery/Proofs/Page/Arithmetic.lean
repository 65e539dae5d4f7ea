import BoundQuery.Proofs.Page.Counting
import BoundQuery.Proofs.Session

/-!
# The rows of a page

Page, size and offset are numbers of 64 bits that never leave the signed range, and up to its end
they are what the unbounded numbers say. So the pages of one size follow each other without a gap
or an overlap, and setting the page of a request never fails.
-/

namespace BoundQuery

set_option autoImplicit false

namespace PageRequest

theorem effective_bounds (asked : Option UInt64) {default : UInt64} (h : 1 ≤ default.toNat) :
    1 ≤ (effective asked default).toNat ∧ (effective asked default).toNat ≤ Text.int64Max := by
  have hmax : maxRows.toNat = Text.int64Max := rfl
  have hchosen : 1 ≤ ((asked.filter (1 ≤ ·)).getD default).toNat := by
    cases hasked : asked.filter (1 ≤ ·) with
    | none => exact h
    | some n =>
      have hn := (Option.filter_eq_some_iff.mp hasked).2
      exact UInt64.le_iff_toNat_le.mp (of_decide_eq_true hn)
  rw [effective, UInt64.toNat_min, hmax]
  unfold Text.int64Max
  omega

theorem pageNumber_bounds (r : PageRequest) :
    1 ≤ r.pageNumber.toNat ∧ r.pageNumber.toNat ≤ Text.int64Max :=
  effective_bounds r.page (by decide)

theorem pageSize_bounds (r : PageRequest) :
    1 ≤ r.pageSize.toNat ∧ r.pageSize.toNat ≤ Text.int64Max :=
  effective_bounds r.limit (by decide)

theorem toNat_saturatingMul (a b : UInt64) :
    (saturatingMul a b).toNat = min (a.toNat * b.toNat) Text.uint64Max := by
  unfold saturatingMul
  split
  next h =>
    have hlt : a.toNat * b.toNat < 2 ^ 64 := by
      unfold Text.uint64Max at h
      omega
    rw [UInt64.toNat_mul, Nat.mod_eq_of_lt hlt, Nat.min_eq_left h]
  next h =>
    rw [Nat.min_eq_right (Nat.le_of_not_le h)]
    rfl

/-- The cap of a product at 64 bits does not show behind the cap at 63. -/
theorem toNat_offset (r : PageRequest) :
    r.offset.toNat = min ((r.pageNumber.toNat - 1) * r.pageSize.toNat) Text.int64Max := by
  have hmax : maxRows.toNat = Text.int64Max := rfl
  have hsub : (r.pageNumber - 1).toNat = r.pageNumber.toNat - 1 :=
    UInt64.toNat_sub_of_le _ _ (UInt64.le_iff_toNat_le.mpr r.pageNumber_bounds.1)
  have hcaps : Text.int64Max ≤ Text.uint64Max := by decide
  rw [offset, UInt64.toNat_min, hmax, toNat_saturatingMul, hsub]
  omega

/-- The next page of the same size begins where a page ends. -/
theorem offset_of_next {r next : PageRequest} (hsize : next.pageSize = r.pageSize)
    (hpage : next.pageNumber.toNat = r.pageNumber.toNat + 1)
    (hcap : next.offset.toNat < Text.int64Max) :
    next.offset.toNat = r.offset.toNat + r.pageSize.toNat := by
  obtain ⟨hfirst, -⟩ := r.pageNumber_bounds
  obtain ⟨before, hbefore⟩ := Nat.exists_eq_add_of_le' hfirst
  rw [toNat_offset, hsize, hpage] at hcap ⊢
  rw [toNat_offset, hbefore]
  rw [hbefore] at hcap
  simp only [Nat.add_sub_cancel, Nat.add_mul, Nat.one_mul] at hcap ⊢
  omega

end PageRequest

/-- The errors with which a page request ends by itself. -/
def QueryError.isPageFault : QueryError → Bool
  | dialectMismatch .. | missingTable | notFound _ | unsupportedDirection _ => true
  | _ => false

section Faults

variable {σ : Type} [Executor σ] {q : Query} {conn : σ} {e : QueryError}

theorem Query.isPageFault_of_mismatch? (h : q.mismatch? conn = some e) : e.isPageFault = true := by
  unfold mismatch? at h
  split at h
  · cases h
  · cases h
    rfl

theorem Query.isPageFault_of_rowSource (h : q.rowSource = .error e) : e.isPageFault = true := by
  unfold rowSource at h
  split at h
  · split at h
    · cases h
      rfl
    · cases h
  · cases h
    rfl

theorem PageRequest.isPageFault_of_terms {request : PageRequest} {columns : List Column}
    (h : request.terms columns = .error e) : e.isPageFault = true := by
  obtain ⟨item, -, hitem⟩ := mapM_error h
  cases hdirection : Direction.ofText item.2 with
  | ok direction =>
    rw [hdirection] at hitem
    cases hitem
  | error e' =>
    rw [hdirection] at hitem
    cases hitem
    unfold Direction.ofText at hdirection
    split at hdirection
    · cases hdirection
    · cases hdirection
      rfl

/--
The executor gave an error to the last statement that was asked of it: to the first one as it was,
to a second one as the first one and the note of the count had left it.
-/
def Paging.FailsLast (request : PageRequest) (conn : σ) (log : List Asked)
    (e : QueryError) : Prop :=
  ∃ asked, log = [asked] ∧ asked.FailsWith conn e ∨
    ∃ count total, log = [count, asked] ∧
      let counted := Executor.fetchAll conn count.text count.registry
      counted.1.bind Query.countOf = .ok total ∧
      asked.FailsWith (Executor.note counted.2 (event request total)) e

/-- A page request ends with a fault of its own or with an error of the executor. -/
theorem Paging.error_of_paginate {request : PageRequest} {columns : List Column} :
    let run := (paginate request columns).runOn (q, ({ conn } : Watched σ))
    run.1 = .error e → e.isPageFault = true ∨ FailsLast request conn run.2.2.asked e := by
  intro run h
  rcases runOn_counted request columns q conn with
    ⟨e', herror, _, hreason⟩ | ⟨source, hsource, ⟨e', hreason, herror, hend⟩ |
      ⟨rows, total, _, _, htotal, hrest⟩⟩
  · cases herror.symm.trans h
    left
    rcases hreason with hdialect | hsource
    · exact Query.isPageFault_of_mismatch? hdialect
    · exact Query.isPageFault_of_rowSource hsource
  · cases herror.symm.trans h
    rcases hreason with hfails | ⟨_, _, _, rfl⟩
    · exact .inr ⟨_, .inl ⟨congrArg Watched.asked hend, hfails⟩⟩
    · exact .inl rfl
  · have hrun : run = _ := hrest
    rw [hrun] at h ⊢
    have hnarrow : (request.narrow columns q).rowSource = .ok source := hsource
    rcases runOn_finish request columns total (⟨_, _⟩ : Watched σ) hnarrow with
      ⟨e', hreason, hanswer, _⟩ | ⟨terms, _, hanswer, hend⟩
    · cases hanswer.symm.trans h
      left
      rcases hreason with hterms | hdialect
      · exact PageRequest.isPageFault_of_terms hterms
      · exact Query.isPageFault_of_mismatch? hdialect
    · rw [hanswer] at h
      rw [hend]
      exact .inr ⟨⟨.fetch, _, _⟩, .inr ⟨_, total, rfl, htotal, eq_error_of_map h⟩⟩

end Faults

/--
Whatever page and size a request has stored: both are from one on and at most the largest signed
number, the offset is the number of rows before the page or that largest number, and the next page
of the same size begins where the page ends, if it begins before the largest number. Answering a
request fails for an invalid page only where the executor itself gives that error to the last
statement that is asked of it, and neither a session nor a recorder does.
-/
theorem paginate_arithmetic :
    (∀ r : PageRequest,
      (1 ≤ r.pageNumber.toNat ∧ r.pageNumber.toNat ≤ Text.int64Max) ∧
      (1 ≤ r.pageSize.toNat ∧ r.pageSize.toNat ≤ Text.int64Max) ∧
      r.offset.toNat = min ((r.pageNumber.toNat - 1) * r.pageSize.toNat) Text.int64Max) ∧
    (∀ r next : PageRequest, next.pageSize = r.pageSize →
      next.pageNumber.toNat = r.pageNumber.toNat + 1 → next.offset.toNat < Text.int64Max →
      next.offset.toNat = r.offset.toNat + r.pageSize.toNat) ∧
    (∀ (σ : Type) [Executor σ] (request : PageRequest) columns q (conn : σ) e,
      ((paginate request columns).runOn (q, conn)).1 = .error e → e.isInvalidPaging = true →
      Paging.FailsLast request conn
        ((paginate request columns).runOn (q, ({ conn } : Watched σ))).2.2.asked e) ∧
    (∀ (request : PageRequest) columns q (conn : Session) clause value,
      ((paginate request columns).runOn (q, conn)).1 ≠ .error (.invalidPaging clause value)) ∧
    ∀ (request : PageRequest) columns q (conn : Recorder) clause value,
      ((paginate request columns).runOn (q, conn)).1 ≠ .error (.invalidPaging clause value) := by
  have hown {σ : Type} [Executor σ] {request : PageRequest} {columns : List Column} {q : Query}
      {conn : σ} {e : QueryError} (h : ((paginate request columns).runOn (q, conn)).1 = .error e)
      (he : e.isInvalidPaging = true) : Paging.FailsLast request conn
        ((paginate request columns).runOn (q, ({ conn } : Watched σ))).2.2.asked e := by
    rw [← ((Paging.follows_paginate request columns) q { conn }).1] at h
    rcases Paging.error_of_paginate h with hfault | hfails
    · cases e with
      | invalidPaging => cases hfault
      | _ => cases he
    · exact hfails
  refine ⟨fun r => ⟨r.pageNumber_bounds, r.pageSize_bounds, r.toNat_offset⟩,
    fun r next hsize hpage hcap => PageRequest.offset_of_next hsize hpage hcap,
    fun σ _ request columns q conn e h he => hown h he, ?_, ?_⟩
  · intro request columns q conn clause value h
    obtain ⟨asked, ⟨_, hfails⟩ | ⟨_, _, _, _, hfails⟩⟩ := hown h rfl
    · cases Session.isAnswer_of_failsWith hfails
    · cases Session.isAnswer_of_failsWith hfails
  · intro request columns q conn clause value h
    obtain ⟨asked, ⟨_, hfails⟩ | ⟨_, _, _, _, hfails⟩⟩ := hown h rfl
    · cases Recorder.isAnswer_of_failsWith hfails
    · cases Recorder.isAnswer_of_failsWith hfails

/-- Two pages of one size, the first of them by default, and the largest page and size. -/
theorem paginate_arithmetic_pages :
    let first : PageRequest := { page := some 0, limit := some 25 }
    let second : PageRequest := { page := some 2, limit := some 25 }
    let largest : PageRequest := .ofPage 18446744073709551615 18446744073709551615
    second.offset.toNat = first.offset.toNat + 25 ∧ second.offset = 25 ∧
      largest.offset.toNat = Text.int64Max ∧
      ∀ q (conn : Recorder) clause value,
        ((paginate largest []).runOn (q, conn)).1 ≠ .error (.invalidPaging clause value) := by
  intro first second largest
  obtain ⟨hbounds, hnext, _, _, hrecorder⟩ := paginate_arithmetic
  have hsecond := hnext first second rfl (by decide) (by decide)
  have hlargest := (hbounds largest).2.2
  exact ⟨hsecond, by decide, hlargest.trans (by decide), fun q conn clause value =>
    hrecorder largest [] q conn clause value⟩

end BoundQuery
