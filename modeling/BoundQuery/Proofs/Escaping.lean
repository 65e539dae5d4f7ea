import BoundQuery.Identifier

/-!
# What the escaped form of a name tells

In an escaped name an ampersand begins an entity, and no other markup character occurs. No entity is
the beginning of another one, so the form reads back in one way only: two names never have the same
form, also where one of them holds the text of an entity already.
-/

namespace BoundQuery.Identifier

set_option autoImplicit false

/-- The texts that stand for the markup characters. -/
def entities : List String := ["&amp;", "&lt;", "&gt;", "&quot;", "&#039;"]

variable {c d : Char} {cs ds rest : List Char}

theorem exists_entity (h : c ∈ markup) :
    ∃ e ∈ entities, escapeChar c = e.toList ∧ ∃ letters, e.toList = '&' :: letters ∧
      ∀ x ∈ letters, x ∉ markup := by
  have hlist (letters : List Char) (hplain : letters.all fun x => !markup.contains x) :
      ∀ x ∈ letters, x ∉ markup := by simpa using hplain
  simp only [markup, List.mem_cons, List.not_mem_nil, or_false] at h
  rcases h with rfl | rfl | rfl | rfl | rfl
  · exact ⟨"&amp;", by simp [entities], rfl, _, rfl, hlist _ (by decide)⟩
  · exact ⟨"&lt;", by simp [entities], rfl, _, rfl, hlist _ (by decide)⟩
  · exact ⟨"&gt;", by simp [entities], rfl, _, rfl, hlist _ (by decide)⟩
  · exact ⟨"&quot;", by simp [entities], rfl, _, rfl, hlist _ (by decide)⟩
  · exact ⟨"&#039;", by simp [entities], rfl, _, rfl, hlist _ (by decide)⟩

theorem escapeChar_ne_nil (c : Char) : escapeChar c ≠ [] := by
  by_cases h : c ∈ markup
  · obtain ⟨e, -, he, letters, hletters, -⟩ := exists_entity h
    rw [he, hletters]
    exact List.cons_ne_nil _ _
  · rw [escapeChar_of_not_mem h]
    exact List.cons_ne_nil _ _

/-- Of the markup characters only the ampersand is left, and it stands in front. -/
theorem eq_amp_of_mem_escapeChar {x : Char} (h : x ∈ escapeChar c) (hx : x ∈ markup) :
    x = '&' ∧ x ∉ (escapeChar c).tail := by
  by_cases hc : c ∈ markup
  · obtain ⟨e, -, he, letters, hletters, hplain⟩ := exists_entity hc
    rw [he, hletters] at h ⊢
    rcases List.mem_cons.mp h with rfl | h
    · exact ⟨rfl, fun hmem => hplain _ hmem hx⟩
    · exact absurd hx (hplain x h)
  · rw [escapeChar_of_not_mem hc] at h
    rw [List.mem_singleton.mp h] at hx
    exact absurd hx hc

theorem eq_amp_of_mem_flatMap {x : Char} (h : x ∈ cs.flatMap escapeChar) (hx : x ∈ markup) :
    x = '&' := by
  obtain ⟨c, -, hc⟩ := List.mem_flatMap.mp h
  exact (eq_amp_of_mem_escapeChar hc hx).1

/-- An ampersand in the form of one character is where that form begins. -/
theorem entity_of_escapeChar_eq {before behind : List Char}
    (h : escapeChar c = before ++ '&' :: behind) :
    before = [] ∧ ∃ e ∈ entities, e.toList = '&' :: behind := by
  have hmem : '&' ∈ escapeChar c := by rw [h]; simp
  have htail := (eq_amp_of_mem_escapeChar hmem (by simp [markup])).2
  rw [h] at htail
  cases before with
  | cons x before => exact absurd (by simp) htail
  | nil =>
    refine ⟨rfl, ?_⟩
    by_cases hc : c ∈ markup
    · obtain ⟨e, hentity, he, -⟩ := exists_entity hc
      exact ⟨e, hentity, he.symm.trans h⟩
    · rw [escapeChar_of_not_mem hc] at h
      rw [(List.cons.inj h).1] at hc
      exact absurd (by simp [markup]) hc

theorem entity_of_suffix (h : '&' :: rest <:+ cs.flatMap escapeChar) :
    ∃ e ∈ entities, e.toList <+: '&' :: rest := by
  induction cs with
  | nil => simp at h
  | cons c cs ih =>
    rw [List.flatMap_cons] at h
    obtain ⟨before, h⟩ := h
    rcases List.append_eq_append_iff.mp h with ⟨middle, hfirst, hrest⟩ | ⟨middle, -, hrest⟩
    · cases middle with
      | nil => exact ih ⟨[], hrest⟩
      | cons x behind =>
        obtain ⟨rfl, hrest⟩ := List.cons.inj hrest
        obtain ⟨-, e, he, hentity⟩ := entity_of_escapeChar_eq hfirst
        exact ⟨e, he, _, by rw [hentity, hrest, List.cons_append]⟩
    · exact ih ⟨middle, hrest.symm⟩

theorem escapeChar_prefix_markup :
    ∀ c ∈ markup, ∀ d ∈ markup, escapeChar c <+: escapeChar d → c = d := by
  have hall : markup.all fun c => markup.all fun d =>
      decide (escapeChar c <+: escapeChar d → c = d) := by
    decide
  intro c hc d hd
  exact of_decide_eq_true (List.all_eq_true.mp (List.all_eq_true.mp hall c hc) d hd)

/-- The form of a character is not the beginning of that of another one. -/
theorem eq_of_escapeChar_isPrefix (h : escapeChar c <+: escapeChar d) : c = d := by
  have hamp {x : Char} (hx : x ∈ markup) : ∃ letters, escapeChar x = '&' :: letters := by
    obtain ⟨e, -, he, letters, hletters, -⟩ := exists_entity hx
    exact ⟨letters, he.trans hletters⟩
  by_cases hc : c ∈ markup <;> by_cases hd : d ∈ markup
  · exact escapeChar_prefix_markup c hc d hd h
  · obtain ⟨letters, hletters⟩ := hamp hc
    rw [hletters, escapeChar_of_not_mem hd] at h
    rw [← (List.cons_prefix_cons.mp h).1] at hd
    exact absurd (by decide) hd
  · obtain ⟨letters, hletters⟩ := hamp hd
    rw [hletters, escapeChar_of_not_mem hc] at h
    rw [(List.cons_prefix_cons.mp h).1] at hc
    exact absurd (by decide) hc
  · rw [escapeChar_of_not_mem hc, escapeChar_of_not_mem hd] at h
    exact (List.cons_prefix_cons.mp h).1

theorem escapeChar_append_inj (h : escapeChar c ++ cs = escapeChar d ++ ds) : c = d ∧ cs = ds := by
  have hc : escapeChar c <+: escapeChar c ++ cs := List.prefix_append _ _
  have hd : escapeChar d <+: escapeChar c ++ cs := by
    rw [h]
    exact List.prefix_append _ _
  have hcd : c = d := by
    rcases List.prefix_or_prefix_of_prefix hc hd with hprefix | hprefix
    · exact eq_of_escapeChar_isPrefix hprefix
    · exact (eq_of_escapeChar_isPrefix hprefix).symm
  subst hcd
  exact ⟨rfl, List.append_cancel_left h⟩

theorem flatMap_escapeChar_inj (h : cs.flatMap escapeChar = ds.flatMap escapeChar) : cs = ds := by
  induction cs generalizing ds with
  | nil =>
    cases ds with
    | nil => rfl
    | cons d ds => simp [escapeChar_ne_nil] at h
  | cons c cs ih =>
    cases ds with
    | nil => simp [escapeChar_ne_nil] at h
    | cons d ds =>
      obtain ⟨rfl, hrest⟩ := escapeChar_append_inj h
      rw [ih hrest]

theorem escape_eq_ofList (s : String) : escape s = .ofList (s.toList.flatMap escapeChar) := by
  apply String.toList_injective
  rw [toList_escape, String.toList_ofList]

theorem escape_inj {s t : String} : escape s = escape t ↔ s = t := by
  constructor
  · intro h
    apply String.toList_injective
    apply flatMap_escapeChar_inj
    rw [← toList_escape, ← toList_escape, h]
  · exact congrArg escape

theorem escape_append (s t : String) : escape (s ++ t) = escape s ++ escape t := by
  apply String.toList_injective
  rw [toList_escape, String.toList_append, List.flatMap_append, String.toList_append,
    toList_escape, toList_escape]

theorem one_lt_length_escapeChar (h : c ∈ markup) : 1 < (escapeChar c).length := by
  simp only [markup, List.mem_cons, List.not_mem_nil, or_false] at h
  rcases h with rfl | rfl | rfl | rfl | rfl <;> decide

theorem length_le_length_flatMap (cs : List Char) :
    cs.length ≤ (cs.flatMap escapeChar).length := by
  induction cs with
  | nil => exact Nat.le_refl _
  | cons c cs ih =>
    have hpos := List.length_pos_iff.mpr (escapeChar_ne_nil c)
    rw [List.flatMap_cons, List.length_append, List.length_cons]
    omega

theorem flatMap_escapeChar_eq_self_iff : cs.flatMap escapeChar = cs ↔ ∀ c ∈ cs, c ∉ markup := by
  refine ⟨fun h => ?_, flatMap_escapeChar_of_not_mem⟩
  induction cs with
  | nil => simp
  | cons c cs ih =>
    rw [List.flatMap_cons] at h
    -- an entity is longer than its character, and nothing becomes shorter
    have hc : c ∉ markup := by
      intro hc
      have hlength := congrArg List.length h
      have hlong := one_lt_length_escapeChar hc
      have hrest := length_le_length_flatMap cs
      rw [List.length_append, List.length_cons] at hlength
      omega
    rw [escapeChar_of_not_mem hc, List.singleton_append] at h
    exact List.forall_mem_cons.mpr ⟨hc, ih (List.cons.inj h).2⟩

theorem escape_eq_self_iff {s : String} : escape s = s ↔ ∀ c ∈ s.toList, c ∉ markup := by
  rw [← flatMap_escapeChar_eq_self_iff, ← toList_escape, String.toList_inj]

/--
The escaped form of a name has no angle bracket and no quotation mark, and each ampersand in it
begins an entity. It determines the name, and that of two names in a row is made of theirs. It is
the name itself if and only if the name has no markup characters, and it is what escaping character
by character gives, also where a name is taken as it is.
-/
theorem escape_faithful (s t : String) :
    (∀ c ∈ ['<', '>', '\x22', '\x27'], c ∉ (escape s).toList) ∧
    (∀ rest, '&' :: rest <:+ (escape s).toList → ∃ e ∈ entities, e.toList <+: '&' :: rest) ∧
    (escape s = escape t ↔ s = t) ∧
    escape (s ++ t) = escape s ++ escape t ∧
    (escape s = s ↔ ∀ c ∈ s.toList, c ∉ markup) ∧
    escape s = .ofList (s.toList.flatMap escapeChar) := by
  refine ⟨?_, ?_, escape_inj, escape_append s t, escape_eq_self_iff, escape_eq_ofList s⟩
  · intro c hc hmem
    rw [toList_escape] at hmem
    have hmarkup : c ∈ markup := List.mem_cons_of_mem _ hc
    rw [eq_amp_of_mem_flatMap hmem hmarkup] at hc
    exact absurd hc (by decide)
  · intro rest h
    rw [toList_escape] at h
    exact entity_of_suffix h

/-- A name with a bracket, and one that holds the entity of the bracket already. -/
theorem escape_faithful_entity :
    let s := "a<b"
    let t := "a&lt;b"
    escape s = "a&lt;b" ∧ escape t = "a&amp;lt;b" ∧ '<' ∈ ['<', '>', '\x22', '\x27'] ∧
      '<' ∉ (escape s).toList ∧ '&' :: "amp;lt;b".toList <:+ (escape t).toList ∧
      (∃ e ∈ entities, e.toList <+: '&' :: "amp;lt;b".toList) ∧ escape s ≠ escape t ∧
      escape s ≠ s := by
  intro s t
  have hsuffix : '&' :: "amp;lt;b".toList <:+ (escape t).toList := ⟨['a'], by decide⟩
  obtain ⟨habsent, -, hinj, -, hself, -⟩ := escape_faithful s t
  obtain ⟨-, hentity, -⟩ := escape_faithful t s
  exact ⟨by decide, by decide, by decide, habsent '<' (by decide), hsuffix, hentity _ hsuffix,
    fun h => absurd (hinj.mp h) (by decide),
    fun h => absurd (hself.mp h '<' (by decide)) (by decide)⟩

end BoundQuery.Identifier
