import BoundQuery.Proofs.Page.Counting
import BoundQuery.Proofs.Query.Noninterference

/-!
# What a page request can steer

Of a request, the columns let through a page, whether there is a search, which columns are filtered
and an ordering. Two requests that agree in these make the same statements of a query, and blanked
the same query. The rest of them shows in values only: neither in an error nor in the number of a
key, however many entries were passed over.
-/

namespace BoundQuery

set_option autoImplicit false

/--
Executors that look at no value, such as those that answer from a queue. If two of them are akin,
they answer alike to statements that differ in values only, and are akin again behind them.
-/
structure Executor.Blind {σ : Type} [Executor σ] (Akin : σ → σ → Prop) : Prop where
  refl : ∀ conn, Akin conn conn
  dialect : ∀ {conn other}, Akin conn other → Executor.dialect conn = Executor.dialect other
  fetchAll : ∀ {conn other : σ} {registry registry' : Registry} (text : String),
    Akin conn other → registry.blank = registry'.blank →
      (Executor.fetchAll conn text registry).1 = (Executor.fetchAll other text registry').1 ∧
      Akin (Executor.fetchAll conn text registry).2 (Executor.fetchAll other text registry').2
  note : ∀ {conn other} (event : Event),
    Akin conn other → Akin (Executor.note conn event) (Executor.note other event)

/-- What of a statement does not depend on its values. -/
def Asked.face (asked : Asked) : Demand × String × List String :=
  (asked.demand, asked.text, asked.registry.keys)

theorem Registry.keys_eq_of_blank_eq {r r' : Registry} (h : r.blank = r'.blank) :
    r.keys = r'.keys := by
  rw [← r.keys_blank, h, r'.keys_blank]

namespace Recorder

/-- One dialect and one queue of results. -/
def Akin (r r' : Recorder) : Prop := r.dialect = r'.dialect ∧ r.script = r'.script

theorem blind : Executor.Blind Akin where
  refl _ := ⟨rfl, rfl⟩
  dialect h := h.1
  fetchAll := by
    rintro r r' registry registry' text ⟨hdialect, hscript⟩ hregistry
    have hbind := registry.bind_blank r.dialect text
    rw [hregistry, registry'.bind_blank] at hbind
    change (r.dispatch .fetch text registry).1 = (r'.dispatch .fetch text registry').1 ∧
      Akin (r.dispatch .fetch text registry).2 (r'.dispatch .fetch text registry').2
    unfold dispatch
    rw [← hdialect, ← hscript]
    cases hbound : registry.bind r.dialect text with
    | error e =>
      cases hother : registry'.bind r.dialect text with
      | error e' =>
        rw [hbound, hother] at hbind
        cases hbind
        exact ⟨rfl, hdialect, hscript⟩
      | ok bound' => simp [hbound, hother, Except.map] at hbind
    | ok bound =>
      cases hother : registry'.bind r.dialect text with
      | error e' => simp [hbound, hother, Except.map] at hbind
      | ok bound' =>
        simp only
        rcases r.script.head? with _ | _ | _ <;> exact ⟨rfl, rfl, rfl⟩
  note _ h := h

end Recorder

namespace Watched

variable {σ : Type}

/-- Akin executors that were asked the same, up to values. -/
def Akin (Under : σ → σ → Prop) (w w' : Watched σ) : Prop :=
  Under w.conn w'.conn ∧ w.asked.map Asked.face = w'.asked.map Asked.face

theorem blind [Executor σ] {Under : σ → σ → Prop} (h : Executor.Blind Under) :
    Executor.Blind (Akin Under) where
  refl w := ⟨h.refl w.conn, rfl⟩
  dialect hakin := h.dialect hakin.1
  fetchAll := by
    intro w w' registry registry' text hakin hregistry
    obtain ⟨hunder, hasked⟩ := hakin
    obtain ⟨hanswer, hnext⟩ := h.fetchAll text hunder hregistry
    refine ⟨hanswer, hnext, ?_⟩
    have hface : Asked.face ⟨.fetch, text, registry⟩ = Asked.face ⟨.fetch, text, registry'⟩ := by
      rw [Asked.face, Asked.face, Registry.keys_eq_of_blank_eq hregistry]
    change List.map Asked.face (w.asked ++ [⟨.fetch, text, registry⟩]) =
      List.map Asked.face (w'.asked ++ [⟨.fetch, text, registry'⟩])
    rw [List.map_append, List.map_append, hasked, List.map_singleton, List.map_singleton, hface]
  note event hakin := ⟨h.note event hakin.1, hakin.2⟩

end Watched

/-- Two requests that the columns cannot tell apart, except in values. -/
structure PageRequest.Alike (columns : List Column) (request other : PageRequest) : Prop where
  pageNumber : request.pageNumber = other.pageNumber
  pageSize : request.pageSize = other.pageSize
  search : request.search.getD "" = "" ↔ other.search.getD "" = ""
  filters : request.filtered columns = other.filtered columns
  sorting : request.sorted columns = other.sorted columns

namespace Paging

variable {σ : Type} {Akin : σ → σ → Prop}

/-- Blanked one query, and akin executors. -/
def Masked (Akin : σ → σ → Prop) (s s' : Query × σ) : Prop :=
  s.1.blank = s'.1.blank ∧ Akin s.2 s'.2

/-- Two calls that are one call once blanked. -/
theorem agree_shape_masked {call call' : Query → Attempt Unit} (masked : Query → Attempt Unit)
    (hcall : ∀ q, masked q.blank = ((call q).1, (call q).2.blank))
    (hcall' : ∀ q, masked q.blank = ((call' q).1, (call' q).2.blank)) :
    Agree (Masked Akin) (shape call) (shape call') := by
  apply Agree.shape
  rintro q q' conn conn' ⟨hquery, hakin⟩
  have hblank := hcall q
  rw [show q.blank = q'.blank from hquery, hcall' q'] at hblank
  obtain ⟨hanswer, hend⟩ := Prod.mk.inj hblank
  exact ⟨hanswer.symm, hend.symm, hakin⟩

theorem agree_like_masked (column term term' : String) (connector : Connector) :
    Agree (Masked Akin) (shape (·.restrict column "LIKE" (containing term) connector))
      (shape (·.restrict column "LIKE" (containing term') connector)) :=
  agree_shape_masked (·.restrict column "LIKE" .null connector)
    (fun q => q.restrict_blank column "LIKE" (containing term) connector)
    (fun q => q.restrict_blank column "LIKE" (containing term') connector)

theorem search_eq (columns : List Column) (term : Option String) :
    (search columns term : Paging σ Unit) =
      if term.getD "" = "" then pure ()
      else (columns.filter (·.searchable)).forM fun column =>
        shape (·.restrict column.key "LIKE" (containing (term.getD "")) .or) := by
  unfold search
  split
  next => rfl
  next => rfl
  next text hne =>
    have htext : text ≠ "" := hne
    exact (if_neg htext).symm

theorem agree_search_masked (columns : List Column) {term term' : Option String}
    (h : term.getD "" = "" ↔ term'.getD "" = "") :
    Agree (Masked Akin) (search columns term) (search columns term') := by
  rw [search_eq, search_eq]
  by_cases hempty : term.getD "" = ""
  · rw [if_pos hempty, if_pos (h.mp hempty)]
    exact Agree.pure ()
  · rw [if_neg hempty, if_neg (hempty ∘ h.mpr)]
    exact Agree.forM (List.forall₂_same.mpr fun column _ => agree_like_masked column.key _ _ .or)

theorem agree_filter_masked {columns : List Column} {request other : PageRequest}
    (h : request.filtered columns = other.filtered columns) :
    Agree (Masked Akin) (filter columns request.filters) (filter columns other.filters) := by
  have hkeys : List.Forall₂ (· = ·) (request.filtered columns) (other.filtered columns) := by
    rw [h]
    exact List.forall₂_refl _
  unfold PageRequest.filtered at hkeys
  rw [List.forall₂_map_left_iff, List.forall₂_map_right_iff] at hkeys
  refine Agree.forM (hkeys.imp ?_)
  rintro ⟨key, value⟩ ⟨key', value'⟩ hkey
  obtain rfl : key = key' := hkey
  exact agree_like_masked key _ _ .and

theorem agree_sort_masked {columns : List Column} {request other : PageRequest}
    (h : request.sorted columns = other.sorted columns) :
    Agree (Masked Akin) (sort columns request.sorting) (sort columns other.sorting) := by
  unfold sort
  unfold PageRequest.sorted at h
  rw [h]
  refine Agree.forM (List.forall₂_same.mpr fun s _ => ?_)
  exact agree_shape_masked (·.orderBy s.1 s.2) (fun q => q.orderBy_blank s.1 s.2)
    (fun q => q.orderBy_blank s.1 s.2)

variable [Executor σ]

theorem Masked.read {q q' : Query} {conn conn' : σ} {text? text?' : Except QueryError String}
    (hblind : Executor.Blind Akin) (h : Masked Akin (q, conn) (q', conn'))
    (htext : text? = text?') :
    (q.read text? conn).1 = (q'.read text?' conn').1 ∧
      Akin (q.read text? conn).2 (q'.read text?' conn').2 := by
  obtain ⟨hquery, hakin⟩ := h
  have hdialect : q.dialect = q'.dialect := congrArg (·.dialect) hquery
  have hmismatch : q.mismatch? conn = q'.mismatch? conn' := by
    unfold Query.mismatch?
    rw [hblind.dialect hakin, hdialect]
  unfold Query.read
  rw [hmismatch, htext]
  cases q'.mismatch? conn' with
  | some e => exact ⟨rfl, hakin⟩
  | none =>
    cases text?' with
    | error e => exact ⟨rfl, hakin⟩
    | ok text => exact hblind.fetchAll text hakin (congrArg (·.registry) hquery)

theorem agree_count_masked (hblind : Executor.Blind Akin) :
    Agree (Masked Akin) (dispatch Query.count) (dispatch Query.count) := by
  apply Agree.dispatch
  intro q q' conn conn' h
  have htext := congrArg Query.countText h.1
  obtain ⟨hrows, hnext⟩ := h.read hblind htext
  rw [q.count_eq_read conn, q'.count_eq_read conn']
  exact ⟨congrArg (·.bind Query.countOf) hrows, h.1, hnext⟩

theorem agree_get_masked (hblind : Executor.Blind Akin) :
    Agree (Masked Akin) (dispatch Query.get) (dispatch Query.get) := by
  apply Agree.dispatch
  intro q q' conn conn' h
  have htext := congrArg Query.selectText h.1
  obtain ⟨hrows, hnext⟩ := h.read hblind htext
  exact ⟨hrows, h.1, hnext⟩

theorem agree_paginate {columns : List Column} {request other : PageRequest}
    (hblind : Executor.Blind Akin) (h : request.Alike columns other) :
    Agree (Masked Akin) (paginate request columns) (paginate other columns) := by
  have hoffset : request.offset = other.offset := by
    rw [PageRequest.offset, PageRequest.offset, h.pageNumber, h.pageSize]
  have hevent (total : Int64) : event request total = event other total := by
    rw [event, event, h.pageNumber, h.pageSize]
  unfold paginate
  rw [h.pageNumber, h.pageSize, hoffset]
  simp only [hevent]
  refine Agree.bind (agree_search_masked columns h.search) fun _ => ?_
  refine Agree.bind (agree_filter_masked h.filters) fun _ => ?_
  refine Agree.bind (agree_count_masked hblind) fun total => ?_
  refine Agree.bind (Agree.dispatch ?_) fun _ => ?_
  · rintro q q' conn conn' ⟨hquery, hakin⟩
    exact ⟨rfl, hquery, hblind.note _ hakin⟩
  refine Agree.bind (agree_shape_masked (·.setLimit _) (fun q => q.setLimit_blank _)
    (fun q => q.setLimit_blank _)) fun _ => ?_
  refine Agree.bind (agree_shape_masked (·.setOffset _) (fun q => q.setOffset_blank _)
    (fun q => q.setOffset_blank _)) fun _ => ?_
  refine Agree.bind (agree_sort_masked h.sorting) fun _ => ?_
  exact Agree.bind (agree_get_masked hblind) fun rows => Agree.pure _

end Paging

/--
On executors that look at no value, two alike requests make the same statements with the same keys
and get the same answer. The queries they leave are one query once blanked: they have the same
texts, and every later call gets the same answer from both.
-/
theorem paginate_of_alike {σ : Type} [Executor σ] {Akin : σ → σ → Prop}
    (hblind : Executor.Blind Akin) {columns : List Column} {request other : PageRequest}
    (h : request.Alike columns other) (q : Query) (conn : σ) :
    let run := (paginate request columns).runOn (q, ({ conn } : Watched σ))
    let run' := (paginate other columns).runOn (q, ({ conn } : Watched σ))
    (run.1, run.2.1, run.2.2.conn) = (paginate request columns).runOn (q, conn) ∧
    (run'.1, run'.2.1, run'.2.2.conn) = (paginate other columns).runOn (q, conn) ∧
    run.2.2.asked.map Asked.face = run'.2.2.asked.map Asked.face ∧ run.1 = run'.1 ∧
    run.2.1.blank = run'.2.1.blank ∧ run.2.1.selectText = run'.2.1.selectText ∧
    run.2.1.countText = run'.2.1.countText ∧ run.2.1.deleteText = run'.2.1.deleteText ∧
    ∀ call : Call, (call.run run.2.1).1 = (call.run run'.2.1).1 := by
  intro run run'
  obtain ⟨hsame, hblank, _, hasked⟩ := Paging.agree_paginate (Watched.blind hblind) h
    (q, { conn }) (q, { conn }) ⟨rfl, (Watched.blind hblind).refl _⟩
  have hselect := congrArg Query.selectText hblank
  have hcount := congrArg Query.countText hblank
  have hdelete := congrArg Query.deleteText hblank
  simp only [Query.selectText_blank, Query.countText_blank, Query.deleteText_blank]
    at hselect hcount hdelete
  refine ⟨(Paging.follows_paginate request columns).runOn_eq q conn,
    (Paging.follows_paginate other columns).runOn_eq q conn, hasked, hsame, hblank, hselect, hcount,
    hdelete, ?_⟩
  intro call
  exact (Call.run_eq_of_blank_eq rfl hblank).1

/-- Another term, other values, and entries on a column that allows nothing, one of them invalid. -/
theorem paginate_of_alike_users :
    let columns : List Column := [⟨"name", true, false, true⟩, ⟨"role", false, true, false⟩,
      ⟨"secret", false, false, false⟩]
    let request : PageRequest :=
      { search := some "ann", filters := [("role", .string "admin")], sorting := [("name", "asc")] }
    let other : PageRequest :=
      { page := some 0, limit := some 10, search := some "' OR 1=1",
        filters := [("secret", .string "x"), ("role", .null), ("secret", .null)],
        sorting := [("secret", "sideways"), ("name", "asc")] }
    let q := Query.onTable .postgres "users"
    let conn : Recorder :=
      { dialect := .postgres, script := [.rows [⟨[("count", .string "1")]⟩], .rows []] }
    let run := (paginate request columns).runOn (q, ({ conn } : Watched Recorder))
    let run' := (paginate other columns).runOn (q, ({ conn } : Watched Recorder))
    request.Alike columns other ∧
      run.2.2.asked.map Asked.face = run'.2.2.asked.map Asked.face ∧ run.1 = run'.1 ∧
      run.2.1.selectText = run'.2.1.selectText ∧
      run.2.2.asked.map (·.text) =
        ["SELECT COUNT(*) AS count FROM users WHERE name LIKE :name_1 AND role LIKE :role_2",
          "SELECT * FROM users WHERE name LIKE :name_1 AND role LIKE :role_2" ++
            " ORDER BY name ASC LIMIT 10 OFFSET 0"] := by
  intro columns request other q conn
  have halike : request.Alike columns other := by
    constructor
    · decide +kernel
    · decide +kernel
    · decide +kernel
    · decide +kernel
    · decide +kernel
  have htexts : ((paginate request columns).runOn
      (q, ({ conn } : Watched Recorder))).2.2.asked.map (·.text) =
      ["SELECT COUNT(*) AS count FROM users WHERE name LIKE :name_1 AND role LIKE :role_2",
        "SELECT * FROM users WHERE name LIKE :name_1 AND role LIKE :role_2" ++
          " ORDER BY name ASC LIMIT 10 OFFSET 0"] := by
    decide +kernel
  obtain ⟨_, _, hasked, hanswer, _, hselect, _⟩ := paginate_of_alike Recorder.blind halike q conn
  exact ⟨halike, hasked, hanswer, hselect, htexts⟩

end BoundQuery
