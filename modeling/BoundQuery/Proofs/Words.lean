import BoundQuery.Text.Blank
import Mathlib.Data.List.TakeWhile

/-!
# Runs of characters, and the words of a text

A run of characters of one kind ends where one of another kind stands. So it can be told from
whatever begins with such a character behind it, and the words of a text, its runs without blanks,
are the only way to write it as words with blanks between them.
-/

namespace BoundQuery.Text

set_option autoImplicit false

/-- Two texts that begin with runs of one kind, each behind which the kind ends. -/
theorem append_inj_of_run {p : Char → Bool} {a b s t : List Char} (ha : ∀ c ∈ a, p c = true)
    (hb : ∀ c ∈ b, p c = true) (hs : ∀ c ∈ s.head?, p c = false) (ht : ∀ c ∈ t.head?, p c = false)
    (h : a ++ s = b ++ t) : a = b ∧ s = t := by
  have hrun {r u : List Char} (hr : ∀ c ∈ r, p c = true) (hu : ∀ c ∈ u.head?, p c = false) :
      (r ++ u).takeWhile p = r := by
    have hstop : u.takeWhile p = [] := by
      cases u with
      | nil => rfl
      | cons c u => exact List.takeWhile_cons_of_neg (by simp [hu c rfl])
    rw [List.takeWhile_append_of_pos hr, hstop, List.append_nil]
  have hab : a = b := by rw [← hrun ha hs, h, hrun hb ht]
  subst hab
  exact ⟨rfl, List.append_cancel_left h⟩

/-- A word is not empty and holds no blank. -/
def IsWord (w : List Char) : Prop := w ≠ [] ∧ ∀ c ∈ w, isBlank c = false

instance (w : List Char) : Decidable (IsWord w) :=
  decidable_of_iff (w ≠ [] ∧ w.all (!isBlank ·) = true) (by simp [IsWord])

/-- A text of words, with blanks around it and at least one blank between two of them. -/
inductive Spaced : List (List Char) → List Char → Prop where
  | nil {gap : List Char} (hgap : ∀ c ∈ gap, isBlank c = true) : Spaced [] gap
  | cons {gap w rest : List Char} {ws : List (List Char)} (hgap : ∀ c ∈ gap, isBlank c = true)
      (hw : IsWord w) (hrest : ∀ c ∈ rest.head?, isBlank c = true) (h : Spaced ws rest) :
      Spaced (w :: ws) (gap ++ (w ++ rest))

variable {gap w rest cs : List Char} {ws : List (List Char)}

theorem isBlank_of_mem_nil : ∀ c ∈ ([] : List Char), isBlank c = true := fun _ hc => nomatch hc

theorem words_cons_of_isBlank {c : Char} (h : isBlank c = true) (cs : List Char) :
    words (c :: cs) = words cs := by
  rw [words.eq_def]
  exact if_pos h

theorem words_append_of_isBlank (h : ∀ c ∈ gap, isBlank c = true) (cs : List Char) :
    words (gap ++ cs) = words cs := by
  induction gap with
  | nil => rfl
  | cons c gap ih =>
    rw [List.cons_append, words_cons_of_isBlank (h c List.mem_cons_self),
      ih fun d hd => h d (List.mem_cons_of_mem c hd)]

/-- A word goes on to the next blank. -/
theorem words_append_of_isWord (hw : IsWord w) (hrest : ∀ c ∈ rest.head?, isBlank c = true) :
    words (w ++ rest) = w :: words rest := by
  obtain ⟨hne, hplain⟩ := hw
  induction w with
  | nil => exact absurd rfl hne
  | cons c w ih =>
    have hc := hplain c List.mem_cons_self
    rw [List.cons_append, words.eq_def]
    cases w with
    | nil =>
      cases rest with
      | nil => simp [hc, words]
      | cons d rest => simp only [hc, hrest d rfl, List.nil_append, Bool.false_eq_true, ↓reduceIte]
    | cons d w =>
      have hd := hplain d (List.mem_cons_of_mem c List.mem_cons_self)
      have hword := ih (List.cons_ne_nil d w) fun e he => hplain e (List.mem_cons_of_mem c he)
      rw [List.cons_append] at hword
      simp only [hc, hd, hword, List.cons_append, Bool.false_eq_true, ↓reduceIte]

theorem Spaced.words_eq (h : Spaced ws cs) : words cs = ws := by
  induction h with
  | @nil gap hgap => simpa [words] using words_append_of_isBlank hgap []
  | cons hgap hw hrest _ ih =>
    rw [words_append_of_isBlank hgap, words_append_of_isWord hw hrest, ih]

theorem Spaced.isWord (h : Spaced ws cs) : ∀ w ∈ ws, IsWord w := by
  induction h with
  | nil => simp
  | cons _ hw _ _ ih => exact List.forall_mem_cons.mpr ⟨hw, ih⟩

section Cons

variable {c d : Char}

theorem isWord_singleton (hc : isBlank c = false) : IsWord [c] :=
  ⟨List.cons_ne_nil _ _, by simpa using hc⟩

theorem Spaced.blank_cons (hc : isBlank c = true) (h : Spaced ws cs) : Spaced ws (c :: cs) := by
  cases h with
  | nil hgap => exact .nil (List.forall_mem_cons.mpr ⟨hc, hgap⟩)
  | cons hgap hw hrest h => exact .cons (List.forall_mem_cons.mpr ⟨hc, hgap⟩) hw hrest h

/-- A character in front of a text that begins with a character of a word joins that word. -/
theorem Spaced.join_cons (hc : isBlank c = false) (hd : isBlank d = false)
    (h : Spaced (w :: ws) (d :: cs)) : Spaced ((c :: w) :: ws) (c :: d :: cs) := by
  generalize htext : d :: cs = text at h
  cases h with
  | @cons gap _ rest _ hgap hw hrest h =>
    cases gap with
    | nil =>
      have hword : IsWord (c :: w) :=
        ⟨List.cons_ne_nil _ _, List.forall_mem_cons.mpr ⟨hc, hw.2⟩⟩
      exact .cons isBlank_of_mem_nil hword hrest h
    | cons e gap =>
      obtain ⟨rfl, -⟩ := List.cons.inj htext
      rw [hgap d List.mem_cons_self] at hd
      cases hd

end Cons

theorem spaced_words (cs : List Char) : Spaced (words cs) cs := by
  fun_induction words cs with
  | case1 => exact .nil isBlank_of_mem_nil
  | case2 c cs hc ih => exact ih.blank_cons hc
  | case3 c hc =>
    have hword := isWord_singleton (eq_false_of_ne_true hc)
    exact .cons isBlank_of_mem_nil hword nofun (.nil isBlank_of_mem_nil)
  | case4 c hc d cs hd ih =>
    have hword := isWord_singleton (eq_false_of_ne_true hc)
    exact .cons isBlank_of_mem_nil hword (by simpa using hd) ih
  | case5 c hc d cs hd hnone ih =>
    -- the text behind the first character begins with a word
    rw [hnone] at ih
    cases ih with
    | nil hgap => exact absurd (hgap d List.mem_cons_self) hd
  | case6 c hc d cs hd w ws hwords ih =>
    rw [hwords] at ih ⊢
    exact ih.join_cons (eq_false_of_ne_true hc) (eq_false_of_ne_true hd)

/-- The words of a text are the only ones that it can be written with. -/
theorem words_eq_iff : words cs = ws ↔ Spaced ws cs :=
  ⟨fun h => h ▸ spaced_words cs, Spaced.words_eq⟩

theorem spaced_intercalate (h : ∀ w ∈ ws, IsWord w) : Spaced ws ([' '].intercalate ws) := by
  induction ws with
  | nil => exact .nil isBlank_of_mem_nil
  | cons w ws ih =>
    have hw := h w List.mem_cons_self
    have hrest := ih fun v hv => h v (List.mem_cons_of_mem w hv)
    cases ws with
    | nil =>
      have hsingle : Spaced [w] ([] ++ (w ++ [])) := .cons isBlank_of_mem_nil hw nofun hrest
      simpa using hsingle
    | cons v ws =>
      have hblank : isBlank ' ' = true := by decide
      rw [List.intercalate_cons_cons, List.append_assoc]
      exact .cons isBlank_of_mem_nil hw (by simpa using hblank) (hrest.blank_cons hblank)

end BoundQuery.Text
