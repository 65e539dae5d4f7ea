import BoundQuery.Clause

/-!
# What the body of a WHERE means

`AND` binds tighter than `OR`, so a body is a choice between alternatives, the runs of predicates
between two `OR`s. Its text says just that. Predicates appended with `OR` are new alternatives of
their own; predicates appended with `AND` narrow the last alternative and no other.
-/

namespace BoundQuery.Clause

set_option autoImplicit false

def alternativesFrom (begun : List Clause) : List Clause → List (List Clause)
  | [] => [begun]
  | c :: rest =>
    match c.connector with
    | .and => alternativesFrom (begun ++ [c]) rest
    | .or => begun :: alternativesFrom [c] rest

/-- The alternatives of a body; the connector of its first predicate does not count. -/
def alternatives : List Clause → List (List Clause)
  | [] => []
  | c :: rest => alternativesFrom [c] rest

/-- A body holds if all predicates of one alternative do, each taken by its text. -/
def Holds (v : String → Prop) (body : List Clause) : Prop :=
  ∃ g ∈ alternatives body, ∀ c ∈ g, v c.render

/-- An alternative holds that is not the last one. -/
def HoldsEarly (v : String → Prop) (body : List Clause) : Prop :=
  ∃ g ∈ (alternatives body).dropLast, ∀ c ∈ g, v c.render

instance (v : String → Prop) [DecidablePred v] (body : List Clause) : Decidable (Holds v body) :=
  inferInstanceAs (Decidable (∃ g ∈ alternatives body, ∀ c ∈ g, v c.render))

@[simp] theorem not_holds_nil (v : String → Prop) : ¬ Holds v [] :=
  fun ⟨_, hg, _⟩ => absurd hg List.not_mem_nil

@[simp] theorem not_holdsEarly_nil (v : String → Prop) : ¬ HoldsEarly v [] :=
  fun ⟨_, hg, _⟩ => absurd hg List.not_mem_nil

theorem alternativesFrom_ne_nil (begun rest : List Clause) : alternativesFrom begun rest ≠ [] := by
  induction rest generalizing begun with
  | nil => exact List.cons_ne_nil _ _
  | cons c rest ih =>
    rw [alternativesFrom]
    cases c.connector with
    | and => exact ih (begun ++ [c])
    | or => exact List.cons_ne_nil _ _

section Text

def renderAlternative (g : List Clause) : String := String.intercalate " AND " (g.map render)

theorem intercalate_alternativesFrom {begun : List Clause} (hbegun : begun ≠ [])
    (rest : List Clause) :
    String.intercalate " OR " ((alternativesFrom begun rest).map renderAlternative) =
      renderAlternative begun ++ renderRest rest := by
  induction rest generalizing begun with
  | nil => simp [alternativesFrom, renderRest]
  | cons c rest ih =>
    rw [alternativesFrom, renderRest]
    have hsingle : renderAlternative [c] = c.render := String.intercalate_singleton
    cases c.connector with
    | and =>
      have hlonger : renderAlternative (begun ++ [c]) =
          renderAlternative begun ++ " AND " ++ c.render := by
        rw [← hsingle, renderAlternative, List.map_append]
        exact String.intercalate_append_of_ne_nil (by simpa using hbegun) (by simp)
      rw [ih (by simp), hlonger]
      simp [Connector.keyword, String.append_assoc]
    | or =>
      have hrest : (alternativesFrom [c] rest).map renderAlternative ≠ [] := by
        simpa using alternativesFrom_ne_nil [c] rest
      rw [List.map_cons, String.intercalate_cons_of_ne_nil hrest, ih (List.cons_ne_nil c []),
        hsingle]
      simp [Connector.keyword, String.append_assoc]

/-- The body is written as its alternatives with `OR` between them, each a run of `AND`s. -/
theorem renderAll_eq_intercalate (body : List Clause) :
    renderAll body = String.intercalate " OR " ((alternatives body).map renderAlternative) := by
  cases body with
  | nil => rfl
  | cons c rest =>
    have hsingle : renderAlternative [c] = c.render := String.intercalate_singleton
    rw [alternatives, intercalate_alternativesFrom (List.cons_ne_nil c []), hsingle, renderAll]

end Text

section Append

theorem alternativesFrom_append (begun body more : List Clause) :
    ∃ early last, alternativesFrom begun body = early ++ [last] ∧
      alternativesFrom begun (body ++ more) = early ++ alternativesFrom last more := by
  induction body generalizing begun with
  | nil => exact ⟨[], begun, rfl, rfl⟩
  | cons c body ih =>
    rw [List.cons_append, alternativesFrom, alternativesFrom]
    cases c.connector with
    | and => exact ih (begun ++ [c])
    | or =>
      obtain ⟨early, last, hbody, hmore⟩ := ih [c]
      exact ⟨begun :: early, last, by simp [hbody], by simp [hmore]⟩

theorem alternativesFrom_or (begun : List Clause) {found : List Clause}
    (hfound : ∀ c ∈ found, c.connector = .or) :
    alternativesFrom begun found = begun :: found.map ([·]) := by
  induction found generalizing begun with
  | nil => rfl
  | cons c found ih =>
    rw [alternativesFrom, hfound c List.mem_cons_self]
    have hrest := ih [c] fun other hother => hfound other (List.mem_cons_of_mem c hother)
    simp only [hrest, List.map_cons]

theorem alternativesFrom_and (begun : List Clause) {kept : List Clause}
    (hkept : ∀ c ∈ kept, c.connector = .and) : alternativesFrom begun kept = [begun ++ kept] := by
  induction kept generalizing begun with
  | nil => simp [alternativesFrom]
  | cons c kept ih =>
    rw [alternativesFrom, hkept c List.mem_cons_self]
    have hrest := ih (begun ++ [c]) fun other hother => hkept other (List.mem_cons_of_mem c hother)
    simpa using hrest

variable {v : String → Prop} {body found kept : List Clause}

/-- Without an `OR` behind its first predicate a body has no alternative but the last one. -/
theorem not_holdsEarly_of_and (h : ∀ c ∈ body.tail, c.connector = .and) : ¬ HoldsEarly v body := by
  cases body with
  | nil => exact not_holdsEarly_nil v
  | cons c rest =>
    have hone : alternativesFrom [c] rest = [[c] ++ rest] := alternativesFrom_and [c] h
    rw [HoldsEarly, alternatives, hone]
    rintro ⟨g, hg, _⟩
    exact absurd hg List.not_mem_nil

theorem alternatives_append_or (hfound : ∀ c ∈ found, c.connector = .or) :
    alternatives (body ++ found) = alternatives body ++ found.map ([·]) := by
  cases body with
  | nil =>
    cases found with
    | nil => rfl
    | cons c found =>
      exact alternativesFrom_or [c] fun other hother => hfound other (List.mem_cons_of_mem c hother)
  | cons c body =>
    obtain ⟨early, last, hbody, hmore⟩ := alternativesFrom_append [c] body found
    rw [List.cons_append, alternatives, hmore, alternatives, hbody, alternativesFrom_or last hfound,
      List.append_assoc, List.singleton_append]

theorem alternatives_append_and (hbody : body ≠ []) (hkept : ∀ c ∈ kept, c.connector = .and) :
    ∃ early last, alternatives body = early ++ [last] ∧
      alternatives (body ++ kept) = early ++ [last ++ kept] := by
  cases body with
  | nil => exact absurd rfl hbody
  | cons c body =>
    obtain ⟨early, last, hlast, hmore⟩ := alternativesFrom_append [c] body kept
    rw [alternativesFrom_and last hkept] at hmore
    exact ⟨early, last, hlast, hmore⟩

theorem holds_append_or (hfound : ∀ c ∈ found, c.connector = .or) :
    Holds v (body ++ found) ↔ Holds v body ∨ ∃ c ∈ found, v c.render := by
  rw [Holds, alternatives_append_or hfound]
  constructor
  · rintro ⟨g, hg, hholds⟩
    rcases List.mem_append.mp hg with hg | hg
    · exact .inl ⟨g, hg, hholds⟩
    · obtain ⟨c, hc, rfl⟩ := List.mem_map.mp hg
      exact .inr ⟨c, hc, hholds c List.mem_cons_self⟩
  · rintro (⟨g, hg, hholds⟩ | ⟨c, hc, hholds⟩)
    · exact ⟨g, List.mem_append_left _ hg, hholds⟩
    · refine ⟨[c], List.mem_append_right _ (List.mem_map_of_mem hc), ?_⟩
      intro other hother
      rwa [List.mem_singleton.mp hother]

theorem holds_append_and (hbody : body ≠ []) (hkept : ∀ c ∈ kept, c.connector = .and) :
    Holds v (body ++ kept) ↔
      Holds v body ∧ ((∀ c ∈ kept, v c.render) ∨ HoldsEarly v body) := by
  obtain ⟨early, last, hlast, hmore⟩ := alternatives_append_and hbody hkept
  rw [Holds, Holds, HoldsEarly, hmore, hlast, List.dropLast_concat]
  constructor
  · rintro ⟨g, hg, hholds⟩
    rcases List.mem_append.mp hg with hg | hg
    · exact ⟨⟨g, List.mem_append_left _ hg, hholds⟩, .inr ⟨g, hg, hholds⟩⟩
    · rw [List.mem_singleton.mp hg] at hholds
      refine ⟨⟨last, List.mem_append_right _ List.mem_cons_self, ?_⟩, .inl ?_⟩
      · exact fun c hc => hholds c (List.mem_append_left _ hc)
      · exact fun c hc => hholds c (List.mem_append_right _ hc)
  · rintro ⟨⟨g, hg, hholds⟩, hall | ⟨first, hfirst, hearly⟩⟩
    · rcases List.mem_append.mp hg with hg | hg
      · exact ⟨g, List.mem_append_left _ hg, hholds⟩
      · rw [List.mem_singleton.mp hg] at hholds
        refine ⟨last ++ kept, List.mem_append_right _ List.mem_cons_self, ?_⟩
        intro c hc
        rcases List.mem_append.mp hc with hc | hc
        · exact hholds c hc
        · exact hall c hc
    · exact ⟨first, List.mem_append_left _ hfirst, hearly⟩

theorem holds_and (hkept : ∀ c ∈ kept, c.connector = .and) :
    Holds v kept ↔ kept ≠ [] ∧ ∀ c ∈ kept, v c.render := by
  cases kept with
  | nil => simp
  | cons c kept =>
    have hone := alternativesFrom_and [c] fun other hother =>
      hkept other (List.mem_cons_of_mem c hother)
    rw [Holds, alternatives, hone]
    constructor
    · rintro ⟨g, hg, hholds⟩
      rw [List.mem_singleton.mp hg] at hholds
      exact ⟨List.cons_ne_nil c kept, hholds⟩
    · rintro ⟨_, hholds⟩
      exact ⟨c :: kept, List.mem_singleton.mpr rfl, hholds⟩

end Append

end BoundQuery.Clause
