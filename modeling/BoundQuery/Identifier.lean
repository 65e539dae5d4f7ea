import BoundQuery.Text.Blank

/-!
# Identifiers

Names of tables and columns go into a statement as text, with the five markup characters escaped.
This is no quoting: values never take this way. The stem of a column name is a placeholder name made
from it.
-/

namespace BoundQuery.Identifier
set_option autoImplicit false

/-- The markup characters. -/
def markup : List Char := ['&', '<', '>', '\x22', '\x27']

def escapeChar (c : Char) : List Char :=
  if c = '&' then "&amp;".toList
  else if c = '<' then "&lt;".toList
  else if c = '>' then "&gt;".toList
  else if c = '\x22' then "&quot;".toList
  else if c = '\x27' then "&#039;".toList
  else [c]

/-- A name in its escaped form; one without markup characters is taken as it is. -/
def escape (name : String) : String :=
  if name.toList.any markup.contains then .ofList (name.toList.flatMap escapeChar) else name

theorem escapeChar_of_not_mem {c : Char} (h : c ∉ markup) : escapeChar c = [c] := by
  simp only [markup, List.mem_cons, List.not_mem_nil, or_false, not_or] at h
  obtain ⟨hamp, hless, hgreater, hdouble, hsingle⟩ := h
  rw [escapeChar, if_neg hamp, if_neg hless, if_neg hgreater, if_neg hdouble, if_neg hsingle]

theorem flatMap_escapeChar_of_not_mem {cs : List Char} (h : ∀ c ∈ cs, c ∉ markup) :
    cs.flatMap escapeChar = cs := by
  induction cs with
  | nil => rfl
  | cons c cs ih =>
    rw [List.flatMap_cons, escapeChar_of_not_mem (h c List.mem_cons_self),
      ih fun d hd => h d (List.mem_cons_of_mem c hd), List.singleton_append]

@[simp] theorem toList_escape (name : String) :
    (escape name).toList = name.toList.flatMap escapeChar := by
  unfold escape
  split
  · exact String.toList_ofList
  next h => exact (flatMap_escapeChar_of_not_mem (by simpa using h)).symm

def isKeyStart (c : Char) : Bool := c == '_' || c.isAlpha

def isKeyChar (c : Char) : Bool := c == '_' || c.isAlphanum

/-- A character of a stem: letters and digits stay, all else becomes an underscore. -/
def stemChar (c : Char) : Char := if c.isAlphanum then c else '_'

/-- The characters of a stem: never none, and no digit at the front. -/
def stemChars (cs : List Char) : List Char :=
  match cs.map stemChar with
  | [] => "param".toList
  | c :: rest => if c.isDigit then '_' :: c :: rest else c :: rest

def stem (column : String) : String := .ofList (stemChars column.toList)

@[simp] theorem toList_stem (column : String) : (stem column).toList = stemChars column.toList := by
  simp [stem]

example : stem "users.id" = "users_id" ∧ stem "1st" = "_1st" ∧ stem "" = "param" := by decide

end BoundQuery.Identifier
