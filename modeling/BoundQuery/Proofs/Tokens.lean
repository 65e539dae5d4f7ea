import BoundQuery.Proofs.Placeholder
import Mathlib.Data.List.TakeWhile

/-!
# The tokens of a statement

A text is split from the left into tokens: a region between two equal marks, two colons, a
placeholder with the longest name, or a single character. There is one such split, and a scan finds
the placeholders of it.
-/

namespace BoundQuery

set_option autoImplicit false

inductive Token where
  | region (mark : Char) (body : List Char)
  /-- A region without its second mark, which is the rest of the text. -/
  | openRegion (mark : Char) (body : List Char)
  | cast
  | key (name : String)
  | char (c : Char)
  deriving DecidableEq, Repr

namespace Token

open Placeholder

def spell : Token → List Char
  | region mark body => mark :: (body ++ [mark])
  | openRegion mark body => mark :: body
  | cast => [':', ':']
  | key name => ':' :: name.toList
  | char c => [c]

def key? : Token → Option String
  | key name => some name
  | _ => none

def pieces : Token → List Piece
  | key name => [.key name]
  | t => t.spell.map .char

/-- The token can stand before `rest`: it is well formed and goes no further. -/
def Fits : Token → List Char → Prop
  | region mark body, _ => isMark mark = true ∧ mark ∉ body
  | openRegion mark body, rest => isMark mark = true ∧ mark ∉ body ∧ rest = []
  | cast, _ => True
  | key name, rest => IsName name.toList ∧ ∀ c ∈ rest.head?, Identifier.isKeyChar c = false
  | char c, rest => isMark c = false ∧
      (c = ':' → ∀ d ∈ rest.head?, d ≠ ':' ∧ Identifier.isKeyStart d = false)

/-- The first token of a text and what stands behind it, for a text that begins with a colon. -/
def firstColon : List Char → Token × List Char
  | [] => (.char ':', [])
  | c :: rest =>
    if c = ':' then (.cast, rest)
    else if Identifier.isKeyStart c then
      (.key (.ofList (c :: rest.takeWhile Identifier.isKeyChar)),
        rest.dropWhile Identifier.isKeyChar)
    else (.char ':', c :: rest)

/-- The first token of a text and what stands behind it. -/
def first? : List Char → Option (Token × List Char)
  | [] => none
  | c :: rest =>
    if isMark c then
      match rest.dropWhile (· != c) with
      | [] => some (.openRegion c rest, [])
      | _ :: behind => some (.region c (rest.takeWhile (· != c)), behind)
    else if c = ':' then some (firstColon rest)
    else some (.char c, rest)

theorem first?_eq_none_iff {cs : List Char} : first? cs = none ↔ cs = [] := by
  cases cs with
  | nil => exact ⟨fun _ => rfl, fun _ => rfl⟩
  | cons c rest =>
    refine iff_of_false ?_ (List.cons_ne_nil _ _)
    rw [first?]
    split
    · split <;> exact Option.some_ne_none _
    · split <;> exact Option.some_ne_none _

theorem spell_ne_nil (t : Token) : t.spell ≠ [] := by
  cases t <;> exact List.cons_ne_nil _ _

variable {t : Token} {rest cs : List Char}

theorem bne_of_not_mem {mark : Char} {body : List Char} (h : mark ∉ body) :
    ∀ c ∈ body, (c != mark) = true := by
  intro c hc
  have hne : c ≠ mark := by
    rintro rfl
    exact h hc
  simpa using hne

theorem firstColon_fits (cs : List Char) :
    (firstColon cs).1.Fits (firstColon cs).2 ∧
      ':' :: cs = (firstColon cs).1.spell ++ (firstColon cs).2 := by
  cases cs with
  | nil => exact ⟨⟨by decide, fun _ d hd => nomatch hd⟩, rfl⟩
  | cons c rest =>
    rw [firstColon]
    split
    next hcolon => exact ⟨trivial, by rw [hcolon]; rfl⟩
    next hcolon =>
      split
      next hstart =>
        refine ⟨⟨⟨c, _, String.toList_ofList, hstart, ?_⟩, ?_⟩, ?_⟩
        · intro d hd
          exact List.mem_takeWhile_imp hd
        · intro d hd
          have hnot := List.head?_dropWhile_not Identifier.isKeyChar rest
          rwa [Option.mem_def.mp hd] at hnot
        · simp [spell]
      next hstart =>
        refine ⟨⟨by decide, ?_⟩, rfl⟩
        intro _ d hd
        cases hd
        exact ⟨hcolon, by simpa using hstart⟩

theorem fits_of_first? (h : first? cs = some (t, rest)) : t.Fits rest ∧ cs = t.spell ++ rest := by
  cases cs with
  | nil => cases h
  | cons c cs =>
    rw [first?] at h
    split at h
    next hmark =>
      have hparts := List.takeWhile_append_dropWhile (p := (· != c)) (l := cs)
      have hbody : c ∉ cs.takeWhile (· != c) := by
        intro hmem
        have hne := List.mem_takeWhile_imp hmem
        simp at hne
      split at h
      next hnone =>
        cases h
        rw [hnone, List.append_nil] at hparts
        rw [hparts] at hbody
        exact ⟨⟨hmark, hbody, rfl⟩, (List.append_nil _).symm⟩
      next d behind hsome =>
        cases h
        have hend := List.head?_dropWhile_not (· != c) cs
        rw [hsome] at hend hparts
        have hd : d = c := by simpa using hend
        refine ⟨⟨hmark, hbody⟩, ?_⟩
        rw [hd] at hparts
        simp [spell, hparts]
    next hmark =>
      split at h
      next hcolon =>
        obtain ⟨hfits, hspell⟩ := firstColon_fits cs
        rw [Option.some.inj h] at hfits hspell
        rw [hcolon]
        exact ⟨hfits, hspell⟩
      next hcolon =>
        cases h
        exact ⟨⟨by simpa using hmark, fun h => absurd h hcolon⟩, rfl⟩

theorem Fits.first? (h : t.Fits rest) : first? (t.spell ++ rest) = some (t, rest) := by
  cases t with
  | region mark body =>
    obtain ⟨hmark, hbody⟩ := h
    have hin := bne_of_not_mem hbody
    simp only [spell, List.cons_append, List.append_assoc]
    rw [Token.first?, if_pos hmark, List.dropWhile_append_of_pos hin,
      List.takeWhile_append_of_pos hin]
    simp
  | openRegion mark body =>
    obtain ⟨hmark, hbody, rfl⟩ := h
    have hin := bne_of_not_mem hbody
    rw [List.append_nil, spell, Token.first?, if_pos hmark, List.dropWhile_eq_nil_iff.mpr hin]
  | cast => rfl
  | key name =>
    obtain ⟨⟨c, letters, hname, hstart, hletters⟩, hend⟩ := h
    have hcolon := Identifier.ne_colon_of_isKeyStart hstart
    have hrest : rest.takeWhile Identifier.isKeyChar = [] ∧
        rest.dropWhile Identifier.isKeyChar = rest := by
      cases rest with
      | nil => exact ⟨rfl, rfl⟩
      | cons d rest => simp [hend d rfl]
    simp only [spell, hname, List.cons_append]
    rw [Token.first?, if_neg (by decide), if_pos rfl, firstColon, if_neg hcolon, if_pos hstart,
      List.takeWhile_append_of_pos hletters, List.dropWhile_append_of_pos hletters, hrest.1,
      hrest.2, List.append_nil, ← hname, String.ofList_toList]
  | char c =>
    obtain ⟨hmark, hnext⟩ := h
    rw [spell, List.singleton_append, Token.first?, if_neg (by simp [hmark])]
    by_cases hcolon : c = ':'
    · rw [if_pos hcolon, hcolon]
      cases rest with
      | nil => rfl
      | cons d rest =>
        obtain ⟨hd, hstart⟩ := hnext hcolon d rfl
        rw [firstColon, if_neg hd, if_neg (by simp [hstart])]
    · rw [if_neg hcolon]

example : first? ":a:b".toList = some (.key "a", ":b".toList) ∧
    first? ":::a".toList = some (.cast, ":a".toList) ∧
    first? ":1".toList = some (.char ':', "1".toList) ∧
    first? "':a".toList = some (.openRegion '\x27' ":a".toList, []) := by decide

/-- The tokens that a text consists of, from the left. -/
inductive Splits : List Char → List Token → Prop
  | nil : Splits [] []
  | cons {t : Token} {rest : List Char} {ts : List Token} (h : t.Fits rest)
      (hrest : Splits rest ts) : Splits (t.spell ++ rest) (t :: ts)

theorem Splits.of_first? {ts : List Token} (h : Token.first? cs = some (t, rest))
    (hrest : Splits rest ts) : Splits cs (t :: ts) := by
  obtain ⟨hfits, rfl⟩ := fits_of_first? h
  exact .cons hfits hrest

theorem exists_splits (cs : List Char) : ∃ ts, Splits cs ts := by
  induction hlength : cs.length using Nat.strongRecOn generalizing cs with
  | ind n ih =>
    cases hfirst : first? cs with
    | none =>
      have hnil := first?_eq_none_iff.mp hfirst
      rw [hnil]
      exact ⟨[], .nil⟩
    | some found =>
      obtain ⟨t, rest⟩ := found
      have hshorter : rest.length < n := by
        have hspell := List.length_pos_iff.mpr t.spell_ne_nil
        rw [← hlength, (fits_of_first? hfirst).2, List.length_append]
        omega
      obtain ⟨ts, hts⟩ := ih rest.length hshorter rest rfl
      exact ⟨t :: ts, .of_first? hfirst hts⟩

theorem Splits.unique {ts us : List Token} (h : Splits cs ts) (hus : Splits cs us) : us = ts := by
  induction h generalizing us with
  | nil =>
    generalize hcs : ([] : List Char) = cs at hus
    cases hus with
    | nil => rfl
    | cons hu _ => exact absurd (List.append_eq_nil_iff.mp hcs.symm).1 (spell_ne_nil _)
  | @cons t rest ts ht _ ih =>
    generalize hcs : t.spell ++ rest = cs at hus
    cases hus with
    | nil => exact absurd (List.append_eq_nil_iff.mp hcs).1 t.spell_ne_nil
    | @cons u _ us hu hus =>
      -- both begin with the first token of one text
      have hfirst := ht.first?
      rw [hcs, hu.first?] at hfirst
      cases hfirst
      rw [ih hus]

theorem pieces_colon (h : ∀ d ∈ rest.head?, d ≠ ':' ∧ Identifier.isKeyStart d = false) :
    Placeholder.pieces .colon rest = .char ':' :: Placeholder.pieces .outside rest := by
  cases rest with
  | nil => rfl
  | cons d rest =>
    obtain ⟨hcolon, hstart⟩ := h d rfl
    have hstep : step .colon d = ((stepOutside d).1, .char ':' :: (stepOutside d).2) := by
      simp [step, hcolon, hstart]
    rw [pieces_cons, pieces_cons, hstep]
    rfl

theorem pieces_name (letters : List Char)
    (h : ∀ d ∈ rest.head?, Identifier.isKeyChar d = false) :
    Placeholder.pieces (.name letters) rest =
      .key (.ofList letters) :: Placeholder.pieces .outside rest := by
  cases rest with
  | nil => rfl
  | cons d rest =>
    have hstep : step (.name letters) d =
        ((stepOutside d).1, .key (.ofList letters) :: (stepOutside d).2) := by
      simp [step, h d rfl]
    rw [pieces_cons, pieces_cons, hstep]
    rfl

/-- A scan settles the first token before it goes on, whatever the token is. -/
theorem Fits.pieces_append (h : t.Fits rest) :
    Placeholder.pieces .outside (t.spell ++ rest) =
      t.pieces ++ Placeholder.pieces .outside rest := by
  cases t with
  | region mark body =>
    obtain ⟨hmark, hbody⟩ := h
    have hclose : step (.region mark) mark = (.outside, [.char mark]) := by simp [step]
    obtain ⟨hmode, hsettled⟩ := modeAfter_region hbody
    simp only [Token.spell, List.cons_append, List.append_assoc]
    rw [pieces_cons, step_of_mark hmark, Placeholder.pieces_append, hmode, hsettled,
      List.nil_append, pieces_cons, hclose]
    simp [Token.pieces, Token.spell]
  | openRegion mark body =>
    obtain ⟨hmark, hbody, rfl⟩ := h
    obtain ⟨hmode, hsettled⟩ := modeAfter_region hbody
    rw [List.append_nil, Token.spell, pieces_cons, step_of_mark hmark, Placeholder.pieces, hmode,
      hsettled]
    simp [Token.pieces, Token.spell, finish]
  | cast => rfl
  | key name =>
    obtain ⟨hname, hend⟩ := h
    obtain ⟨hmode, hsettled⟩ := modeAfter_key hname
    rw [Token.spell, Placeholder.pieces_append, hmode, hsettled, pieces_name _ hend,
      String.ofList_toList]
    rfl
  | char c =>
    obtain ⟨hmark, hnext⟩ := h
    rw [Token.spell, List.singleton_append, pieces_cons]
    by_cases hcolon : c = ':'
    · have hbegin := pieces_colon (hnext hcolon)
      rw [hcolon]
      exact hbegin
    · rw [step_of_plain hmark hcolon]
      rfl

theorem Splits.pieces {ts : List Token} (h : Splits cs ts) :
    Placeholder.pieces .outside cs = ts.flatMap Token.pieces := by
  induction h with
  | nil => rfl
  | cons hfits _ ih => rw [hfits.pieces_append, ih, List.flatMap_cons]

theorem keys_pieces (t : Token) : keys t.pieces = t.key?.toList := by
  cases t with
  | key name => rfl
  | region mark body => exact keys_chars (mark :: (body ++ [mark]))
  | openRegion mark body => exact keys_chars (mark :: body)
  | cast => rfl
  | char c => rfl

theorem keys_flatMap_pieces (ts : List Token) :
    keys (ts.flatMap Token.pieces) = ts.filterMap key? := by
  induction ts with
  | nil => rfl
  | cons t ts ih =>
    rw [List.flatMap_cons, keys_append, keys_pieces, ih, List.filterMap_cons]
    cases t.key? <;> rfl

end Token

end BoundQuery
