import BoundQuery.Proofs.Layout
import BoundQuery.Proofs.Query.Names

/-!
# The placeholders of a statement

A statement is put together from fixed words, names and placeholders, and behind each name and each
placeholder stands a blank, a comma, a parenthesis or the end. So where all names are neutral, the
placeholders of a statement are the operands of its predicates, in the order of the clauses.
-/

namespace BoundQuery

set_option autoImplicit false

open Placeholder Layout

/-- A name that a scan passes over: in its escaped form is no placeholder, and no region is open
behind it. -/
def Identifier.IsNeutral (name : String) : Prop := Reads (Identifier.escape name) []

instance (name : String) : Decidable (Identifier.IsNeutral name) :=
  inferInstanceAs (Decidable (Reads _ _))

theorem Operator.plain_keyword (op : Operator) : Plain op.keyword := by cases op <;> decide

theorem Connector.plain_keyword (c : Connector) : Plain c.keyword := by cases c <;> decide

theorem JoinKind.plain_keyword (k : JoinKind) : Plain k.keyword := by cases k <;> decide

theorem Direction.plain_keyword (d : Direction) : Plain d.keyword := by cases d <;> decide

def Query.placeholderLayout (keys : List String) : List Part := commas (fun k => [.slot k]) keys

@[simp] theorem Query.slots_placeholderLayout (keys : List String) :
    slots (placeholderLayout keys) = keys := by
  simp [placeholderLayout, slots]

@[simp] theorem Query.names_placeholderLayout (keys : List String) :
    Layout.names (placeholderLayout keys) = [] := by
  simp [placeholderLayout, Layout.names]

theorem Query.lays_placeholderList {keys : List String} (h : ∀ k ∈ keys, IsName k.toList) :
    Lays (placeholderList keys) (placeholderLayout keys) :=
  Lays.commas fun k hk => .of_slot (h k hk)

theorem Query.reads_placeholderList {keys : List String} (h : ∀ k ∈ keys, IsName k.toList) :
    Reads (placeholderList keys) keys := by
  have hreads := (lays_placeholderList h).reads (by simp)
  rwa [slots_placeholderLayout] at hreads

def Operand.layout : Operand → List Part
  | .none => []
  | .key name => [.fixed " ", .slot name]
  | .list [] => [.fixed " (NULL)"]
  | .list names => .fixed " (" :: (Query.placeholderLayout names ++ [.fixed ")"])
  | .range low high => [.fixed " ", .slot low, .fixed " AND ", .slot high]

theorem Operand.slots_layout (o : Operand) : slots o.layout = o.keys := by
  cases o with
  | list keys => cases keys <;> simp [layout, slots, Operand.keys]
  | _ => rfl

theorem Operand.names_layout (o : Operand) : Layout.names o.layout = [] := by
  cases o with
  | list keys => cases keys <;> simp [layout, Layout.names]
  | _ => rfl

namespace Clause

theorem operandText_cons (name : String) (names : List String) :
    operandText (.list (name :: names)) =
      " (" ++ (Query.placeholderList (name :: names) ++ ")") :=
  String.append_assoc

theorem lays_operandText {o : Operand} (h : ∀ k ∈ o.keys, IsName k.toList) :
    Lays (operandText o) o.layout := by
  have hspace : (" :" : String) = " " ++ ":" := rfl
  cases o with
  | none => exact .nil
  | key name =>
    rw [operandText, hspace, String.append_assoc]
    exact .fixed (by decide) (.of_slot (h name List.mem_cons_self))
  | list names =>
    cases names with
    | nil => exact .of_plain (by decide)
    | cons name names =>
      rw [operandText_cons]
      exact .fixed (by decide)
        ((Query.lays_placeholderList h).append (.of_plain (by decide)) (by decide))
  | range low high =>
    have hand : (" AND :" : String) = " AND " ++ ":" := rfl
    have hlow := h low List.mem_cons_self
    have hhigh := h high (List.mem_cons_of_mem low List.mem_cons_self)
    have hbreaks : Breaks (" AND " ++ (":" ++ high)) :=
      breaks_of_blank rfl _
    have hassoc : operandText (.range low high) =
        " " ++ (":" ++ low ++ (" AND " ++ (":" ++ high))) := by
      simp only [operandText, hspace, hand, String.append_assoc]
    rw [hassoc]
    exact .fixed (by decide) (.slot hlow hbreaks (.fixed (by decide) (.of_slot hhigh)))

structure Legible (c : Clause) : Prop where
  column : Reads c.column []
  keys : ∀ k ∈ c.operand.keys, IsName k.toList

def layout (c : Clause) : List Part :=
  .name c.column :: .fixed (" " ++ c.operator.keyword) :: c.operand.layout

def restLayout : List Clause → List Part
  | [] => []
  | c :: rest => .fixed (" " ++ c.connector.keyword ++ " ") :: (c.layout ++ restLayout rest)

def allLayout : List Clause → List Part
  | [] => []
  | c :: rest => c.layout ++ restLayout rest

theorem slots_layout (c : Clause) : slots c.layout = c.operand.keys := c.operand.slots_layout

theorem names_layout (c : Clause) : names c.layout = [c.column] :=
  congrArg (c.column :: ·) c.operand.names_layout

@[simp] theorem slots_allLayout (cs : List Clause) :
    slots (allLayout cs) = cs.flatMap (·.operand.keys) := by
  have hrest (cs : List Clause) : slots (restLayout cs) = cs.flatMap (·.operand.keys) := by
    induction cs with
    | nil => rfl
    | cons c rest ih => simp [restLayout, slots, slots_layout, ih]
  cases cs with
  | nil => rfl
  | cons c rest => simp [allLayout, slots_layout, hrest]

@[simp] theorem names_allLayout (cs : List Clause) :
    names (allLayout cs) = cs.map (·.column) := by
  have hrest (cs : List Clause) : names (restLayout cs) = cs.map (·.column) := by
    induction cs with
    | nil => rfl
    | cons c rest ih => simp [restLayout, names, names_layout, ih]
  cases cs with
  | nil => rfl
  | cons c rest => simp [allLayout, names_layout, hrest]

theorem lays_render {c : Clause} (h : ∀ k ∈ c.operand.keys, IsName k.toList) :
    Lays c.render c.layout := by
  have hkeyword : Plain (" " ++ c.operator.keyword) :=
    Plain.append (by decide) c.operator.plain_keyword
  have hblank : Breaks (" " ++ c.operator.keyword) := breaks_of_blank rfl _
  have hassoc : c.render = c.column ++ (" " ++ c.operator.keyword ++ operandText c.operand) := by
    simp only [render, String.append_assoc]
  rw [hassoc]
  exact .name c.column (hblank.append_right (by simp) _) (.fixed hkeyword (lays_operandText h))

theorem breaks_renderRest (cs : List Clause) : Breaks (renderRest cs) := by
  cases cs with
  | nil => decide
  | cons c rest =>
    simp only [renderRest, String.append_assoc]
    exact breaks_of_blank rfl _

theorem lays_renderRest {cs : List Clause} (h : ∀ c ∈ cs, ∀ k ∈ c.operand.keys, IsName k.toList) :
    Lays (renderRest cs) (restLayout cs) := by
  induction cs with
  | nil => exact .nil
  | cons c rest ih =>
    have hkeyword : Plain (" " ++ c.connector.keyword ++ " ") :=
      (Plain.append (by decide) c.connector.plain_keyword).append (by decide)
    have hc := lays_render (h c List.mem_cons_self)
    have hrest := ih fun d hd => h d (List.mem_cons_of_mem c hd)
    rw [renderRest, String.append_assoc]
    exact .fixed hkeyword (hc.append hrest (breaks_renderRest rest))

theorem lays_renderAll {cs : List Clause} (h : ∀ c ∈ cs, ∀ k ∈ c.operand.keys, IsName k.toList) :
    Lays (renderAll cs) (allLayout cs) := by
  cases cs with
  | nil => exact .nil
  | cons c rest =>
    have hrest := lays_renderRest fun d hd => h d (List.mem_cons_of_mem c hd)
    exact (lays_render (h c List.mem_cons_self)).append hrest (breaks_renderRest rest)

end Clause

namespace Join

def layout (j : Join) : List Part :=
  [.fixed (j.kind.keyword ++ " JOIN "), .name j.table, .fixed " ON ", .name j.localKey,
    .fixed (" " ++ j.operator.keyword ++ " "), .name j.foreignKey]

theorem lays_render (j : Join) : Lays j.render j.layout := by
  have hkind : Plain (j.kind.keyword ++ " JOIN ") := j.kind.plain_keyword.append (by decide)
  have hkeyword : Plain (" " ++ j.operator.keyword ++ " ") :=
    (Plain.append (by decide) j.operator.plain_keyword).append (by decide)
  have hblank : Breaks (" " ++ j.operator.keyword ++ " ") :=
    Breaks.append_right (breaks_of_blank rfl _) (by simp) _
  have hassoc : j.render = j.kind.keyword ++ " JOIN " ++ (j.table ++ (" ON " ++ (j.localKey ++
      (" " ++ j.operator.keyword ++ " " ++ j.foreignKey)))) := by
    simp only [render, String.append_assoc]
  rw [hassoc]
  exact .fixed hkind (.name _ (breaks_of_blank rfl _)
    (.fixed (by decide) (.name _ (hblank.append_right (by simp) _)
      (.fixed hkeyword (.of_name _)))))

end Join

namespace OrderTerm

def layout (t : OrderTerm) : List Part :=
  [.name t.column, .fixed (" " ++ t.direction.keyword)]

theorem lays_render (t : OrderTerm) : Lays t.render t.layout := by
  have hplain : Plain (" " ++ t.direction.keyword) :=
    Plain.append (by decide) t.direction.plain_keyword
  rw [render, String.append_assoc]
  exact .name _ (breaks_of_blank rfl _) (.of_plain hplain)

end OrderTerm

namespace Query

def operandKeys (q : Query) : List String := q.clauses.flatMap (·.operand.keys)

/-- A query whose names are neutral and whose predicates have names for their keys. -/
structure Legible (q : Query) : Prop where
  table : ∀ name ∈ q.table, Reads name []
  source : ∀ name ∈ q.source, Reads name []
  projection : ∀ name ∈ q.projection, Reads name []
  joins : ∀ j ∈ q.joins, Reads j.table [] ∧ Reads j.localKey [] ∧ Reads j.foreignKey []
  clauses : ∀ c ∈ q.clauses, c.Legible
  ordering : ∀ t ∈ q.ordering, Reads t.column []

theorem Legible.reads_names {q : Query} (h : q.Legible) : ∀ name ∈ q.names, Reads name [] := by
  intro name hname
  simp only [names, List.mem_append, Option.mem_toList, List.mem_flatMap, List.mem_map] at hname
  rcases hname with ((((hname | hname) | hname) | ⟨j, hj, hname⟩) | ⟨c, hc, rfl⟩) | ⟨t, ht, rfl⟩
  · exact h.table name hname
  · exact h.source name hname
  · exact h.projection name hname
  · obtain ⟨htable, hlocal, hforeign⟩ := h.joins j hj
    simp only [Join.names, List.mem_cons, List.not_mem_nil, or_false] at hname
    rcases hname with rfl | rfl | rfl <;> assumption
  · exact (h.clauses c hc).column
  · exact h.ordering t ht

theorem Legible.isName {q : Query} (h : q.Legible) : ∀ k ∈ q.operandKeys, IsName k.toList := by
  intro k hk
  obtain ⟨c, hc, hk⟩ := List.mem_flatMap.mp hk
  exact (h.clauses c hc).keys k hk

theorem legible_of_names {q : Query} (hnames : ∀ name ∈ q.names, Reads name [])
    (hkeys : ∀ k ∈ q.operandKeys, IsName k.toList) : q.Legible := by
  simp only [names, List.mem_append, Option.mem_toList, List.mem_flatMap, List.mem_map] at hnames
  refine ⟨?_, ?_, ?_, ?_, ?_, ?_⟩
  · intro name hname
    exact hnames name (.inl (.inl (.inl (.inl (.inl hname)))))
  · intro name hname
    exact hnames name (.inl (.inl (.inl (.inl (.inr hname)))))
  · intro name hname
    exact hnames name (.inl (.inl (.inl (.inr hname))))
  · intro j hj
    have hjoin (name : String) (hname : name ∈ j.names) : Reads name [] :=
      hnames name (.inl (.inl (.inr ⟨j, hj, hname⟩)))
    exact ⟨hjoin j.table (by simp [Join.names]), hjoin j.localKey (by simp [Join.names]),
      hjoin j.foreignKey (by simp [Join.names])⟩
  · intro c hc
    exact ⟨hnames c.column (.inl (.inr ⟨c, hc, rfl⟩)), fun k hk =>
      hkeys k (List.mem_flatMap.mpr ⟨c, hc, hk⟩)⟩
  · intro t ht
    exact hnames t.column (.inr ⟨t, ht, rfl⟩)

def joinLayout (q : Query) : List Part := q.joins.flatMap fun j => .fixed " " :: j.layout

def whereLayout (q : Query) : List Part :=
  match q.clauses with
  | [] => []
  | clauses => .fixed " WHERE " :: Clause.allLayout clauses

def orderLayout (q : Query) : List Part :=
  match q.ordering with
  | [] => []
  | terms => .fixed " ORDER BY " :: commas OrderTerm.layout terms

def filterLayout (q : Query) : List Part := q.joinLayout ++ q.whereLayout

def tailLayout (q : Query) : List Part := q.filterLayout ++ q.orderLayout ++ [.fixed q.pageText]

def projectionLayout (q : Query) : List Part :=
  match q.projection with
  | [] => [.fixed "*"]
  | columns => commas (fun name => [.name name]) columns

/-- A SELECT of rows from `source`, in parts. -/
def selectLayout (q : Query) (source : String) : List Part :=
  .fixed "SELECT " :: (q.projectionLayout ++ .fixed " FROM " :: .name source :: q.tailLayout)

theorem slots_filterLayout (q : Query) : slots q.filterLayout = q.operandKeys := by
  have hjoins : slots q.joinLayout = [] := by
    simp [joinLayout, slots, Join.layout]
  have hwhere : slots q.whereLayout = q.operandKeys := by
    unfold whereLayout operandKeys
    cases q.clauses with
    | nil => rfl
    | cons c rest => exact Clause.slots_allLayout (c :: rest)
  rw [filterLayout, slots_append, hjoins, hwhere, List.nil_append]

theorem slots_tailLayout (q : Query) : slots q.tailLayout = q.operandKeys := by
  have horder : slots q.orderLayout = [] := by
    unfold orderLayout
    cases q.ordering with
    | nil => rfl
    | cons t rest => simp [slots, OrderTerm.layout]
  simp [tailLayout, slots_filterLayout, horder, slots]

theorem slots_selectLayout (q : Query) (source : String) :
    slots (q.selectLayout source) = q.operandKeys := by
  have hprojection : slots q.projectionLayout = [] := by
    unfold projectionLayout
    cases q.projection with
    | nil => rfl
    | cons name rest => simp [slots]
  simp [selectLayout, slots, hprojection, slots_tailLayout]

theorem names_filterLayout (q : Query) :
    Layout.names q.filterLayout = q.joins.flatMap Join.names ++ q.clauses.map (·.column) := by
  have hjoins : Layout.names q.joinLayout = q.joins.flatMap Join.names :=
    names_flatMap (fun j : Join => .fixed " " :: j.layout) q.joins
  have hwhere : Layout.names q.whereLayout = q.clauses.map (·.column) := by
    unfold whereLayout
    cases q.clauses with
    | nil => rfl
    | cons c rest => exact Clause.names_allLayout (c :: rest)
  rw [filterLayout, names_append, hjoins, hwhere]

theorem names_tailLayout (q : Query) :
    Layout.names q.tailLayout = q.joins.flatMap Join.names ++ q.clauses.map (·.column) ++
      q.ordering.map (·.column) := by
  have horder : Layout.names q.orderLayout = q.ordering.map (·.column) := by
    unfold orderLayout
    cases q.ordering with
    | nil => rfl
    | cons t rest => simp [Layout.names, OrderTerm.layout, ← List.map_eq_flatMap]
  simp [tailLayout, names_filterLayout, horder, Layout.names]

theorem names_selectLayout (q : Query) (source : String) :
    Layout.names (q.selectLayout source) = q.projection ++ source ::
      (q.joins.flatMap Join.names ++ q.clauses.map (·.column) ++ q.ordering.map (·.column)) := by
  have hprojection : Layout.names q.projectionLayout = q.projection := by
    unfold projectionLayout
    cases q.projection with
    | nil => rfl
    | cons name rest => simp [Layout.names]
  simp [selectLayout, Layout.names, hprojection, names_tailLayout]

theorem breaks_joinText (q : Query) : Breaks q.joinText := by
  unfold joinText
  cases q.joins with
  | nil => decide
  | cons j rest =>
    rw [List.map_cons, String.join_cons, String.append_assoc]
    exact breaks_of_blank rfl _

theorem lays_joinText (q : Query) : Lays q.joinText q.joinLayout := by
  unfold joinText joinLayout
  induction q.joins with
  | nil => exact .nil
  | cons j rest ih =>
    have hbreaks : Breaks (String.join (rest.map fun j => " " ++ j.render)) :=
      breaks_joinText { q with joins := rest }
    rw [List.map_cons, String.join_cons, String.append_assoc]
    exact .fixed (by decide) (j.lays_render.append ih hbreaks)

theorem breaks_whereText (q : Query) : Breaks q.whereText := by
  unfold whereText
  cases q.clauses with
  | nil => decide
  | cons c rest => exact breaks_of_blank rfl _

theorem lays_whereText {q : Query} (h : ∀ k ∈ q.operandKeys, IsName k.toList) :
    Lays q.whereText q.whereLayout := by
  unfold operandKeys at h
  unfold whereText whereLayout
  generalize q.clauses = clauses at h
  cases clauses with
  | nil => exact .nil
  | cons c rest =>
    exact .fixed (by decide) (Clause.lays_renderAll fun c hc k hk =>
      h k (List.mem_flatMap.mpr ⟨c, hc, hk⟩))

theorem breaks_orderText (q : Query) : Breaks q.orderText := by
  unfold orderText
  cases q.ordering with
  | nil => decide
  | cons t rest => exact breaks_of_blank rfl _

theorem lays_orderText (q : Query) : Lays q.orderText q.orderLayout := by
  unfold orderText orderLayout
  cases q.ordering with
  | nil => exact .nil
  | cons t rest => exact .fixed (by decide) (Lays.commas fun u _ => u.lays_render)

theorem breaks_numberText (keyword : String) (n : Option Nat) :
    Breaks (numberText keyword n) := by
  cases n with
  | none => exact (by decide : Breaks "")
  | some n =>
    simp only [numberText, String.append_assoc]
    exact breaks_of_blank rfl _

theorem plain_numberText {keyword : String} (h : Plain keyword) (n : Option Nat) :
    Plain (numberText keyword n) := by
  cases n with
  | none => exact (by decide : Plain "")
  | some n =>
    exact ((Plain.append (by decide) h).append (by decide)).append (plain_naturalText n)

theorem breaks_pageText (q : Query) : Breaks q.pageText :=
  (breaks_numberText "LIMIT" q.limit).append (breaks_numberText "OFFSET" q.offset)

theorem plain_pageText (q : Query) : Plain q.pageText :=
  (plain_numberText (by decide) q.limit).append (plain_numberText (by decide) q.offset)

theorem breaks_filterText (q : Query) : Breaks q.filterText :=
  q.breaks_joinText.append q.breaks_whereText

theorem lays_filterText {q : Query} (h : ∀ k ∈ q.operandKeys, IsName k.toList) :
    Lays q.filterText q.filterLayout :=
  q.lays_joinText.append (lays_whereText h) q.breaks_whereText

theorem breaks_tailText (q : Query) : Breaks q.tailText :=
  (q.breaks_filterText.append q.breaks_orderText).append q.breaks_pageText

theorem lays_tailText {q : Query} (h : ∀ k ∈ q.operandKeys, IsName k.toList) :
    Lays q.tailText q.tailLayout :=
  ((lays_filterText h).append q.lays_orderText q.breaks_orderText).append
    (.of_plain q.plain_pageText) q.breaks_pageText

theorem lays_projectionText (q : Query) : Lays q.projectionText q.projectionLayout := by
  unfold projectionText projectionLayout
  cases q.projection with
  | nil => exact .of_plain (by decide)
  | cons name rest =>
    have hcolumns : Lays (String.intercalate ", " ((name :: rest).map fun column => column)) _ :=
      Lays.commas fun column _ => .of_name column
    rwa [List.map_id'] at hcolumns

theorem lays_selectText {q : Query} (h : ∀ k ∈ q.operandKeys, IsName k.toList) (source : String) :
    Lays ("SELECT " ++ q.projectionText ++ " FROM " ++ source ++ q.tailText)
      (q.selectLayout source) := by
  simp only [String.append_assoc]
  exact .fixed (by decide) (q.lays_projectionText.append
    (.fixed (by decide) (.name source q.breaks_tailText (lays_tailText h)))
    (breaks_of_blank rfl _))

theorem selectText_eq_ok {q : Query} {text : String} (h : q.selectText = .ok text) :
    ∃ source, q.rowSource = .ok source ∧
      text = "SELECT " ++ q.projectionText ++ " FROM " ++ source ++ q.tailText := by
  unfold selectText at h
  split at h
  next source hsource =>
    cases h
    exact ⟨source, hsource, rfl⟩
  next => cases h

theorem names_tailLayout_subset (q : Query) : Layout.names q.tailLayout ⊆ q.names := by
  intro name hname
  simp only [names_tailLayout, names, List.mem_append] at hname ⊢
  rcases hname with (hjoin | hclause) | hterm
  · exact .inl (.inl (.inr hjoin))
  · exact .inl (.inr hclause)
  · exact .inr hterm

theorem names_selectLayout_subset {q : Query} {source : String} (h : q.rowSource = .ok source) :
    Layout.names (q.selectLayout source) ⊆ q.names := by
  intro name hname
  rw [names_selectLayout, ← names_tailLayout] at hname
  rcases List.mem_append.mp hname with hcolumn | hname
  · simp [names, hcolumn]
  · rcases List.mem_cons.mp hname with rfl | htail
    · exact mem_names_of_rowSource h
    · exact q.names_tailLayout_subset htail

theorem Legible.reads_target {q : Query} (h : q.Legible) {name : String}
    (hname : q.target = .ok name) : Reads name [] :=
  h.reads_names name (mem_names_of_target hname)

theorem Legible.reads_tailText {q : Query} (h : q.Legible) : Reads q.tailText q.operandKeys := by
  rw [← q.slots_tailLayout]
  exact (lays_tailText h.isName).reads fun n hn => h.reads_names n (q.names_tailLayout_subset hn)

theorem Legible.reads_selectText {q : Query} (h : q.Legible) {text : String}
    (htext : q.selectText = .ok text) : Reads text q.operandKeys := by
  obtain ⟨source, hsource, rfl⟩ := selectText_eq_ok htext
  rw [← q.slots_selectLayout source]
  exact (lays_selectText h.isName source).reads fun n hn =>
    h.reads_names n (names_selectLayout_subset hsource hn)

theorem Legible.reads_countText {q : Query} (h : q.Legible) {text : String}
    (htext : q.countText = .ok text) : Reads text q.operandKeys := by
  unfold countText at htext
  split at htext
  next name hname =>
    cases htext
    rw [← q.slots_filterLayout, String.append_assoc]
    have hname := h.reads_names name (mem_names_of_rowSource hname)
    have hfilter := (lays_filterText h.isName).reads fun n hn =>
      h.reads_names n (q.names_tailLayout_subset (by
        rw [names_tailLayout, ← names_filterLayout]
        exact List.mem_append_left _ hn))
    exact Plain.reads_append (by decide) (hname.append_nil hfilter q.breaks_filterText)
  next => cases htext

theorem Legible.reads_deleteText {q : Query} (h : q.Legible) {text : String}
    (htext : q.deleteText = .ok text) : Reads text q.operandKeys := by
  unfold deleteText at htext
  split at htext
  next name hname =>
    cases htext
    simp only [String.append_assoc]
    exact Plain.reads_append (by decide)
      ((h.reads_target hname).append_nil h.reads_tailText q.breaks_tailText)
  next => cases htext

end Query

end BoundQuery
