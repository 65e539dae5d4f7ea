/-!
# Blanks, words and letter case

A blank is a character of the Unicode class White_Space. Trimming removes blanks at both ends and
`words` splits at runs of blanks. Letter case is that of ASCII alone, so `ſ` and `İ` keep their
form.
-/

namespace BoundQuery.Text
set_option autoImplicit false

/-- The code points of White_Space, as inclusive ranges in ascending order. -/
def blankRanges : List (Nat × Nat) :=
  [(0x09, 0x0D), (0x20, 0x20), (0x85, 0x85), (0xA0, 0xA0), (0x1680, 0x1680), (0x2000, 0x200A),
   (0x2028, 0x2029), (0x202F, 0x202F), (0x205F, 0x205F), (0x3000, 0x3000)]

def isBlank (c : Char) : Bool :=
  blankRanges.any fun (low, high) => low ≤ c.toNat && c.toNat ≤ high

example : isBlank '\u00a0' = true ∧ isBlank '\u200b' = false ∧ isBlank '\u001c' = false := by decide

def trimLeft (cs : List Char) : List Char := cs.dropWhile isBlank

def trimChars (cs : List Char) : List Char := (trimLeft (trimLeft cs).reverse).reverse

def trim (s : String) : String := .ofList (trimChars s.toList)

@[simp] theorem toList_trim (s : String) : (trim s).toList = trimChars s.toList := by simp [trim]

def isBlankText (s : String) : Bool := s.toList.all isBlank

/-- The maximal blank-free runs of a text, in order. -/
def words : List Char → List (List Char)
  | [] => []
  | c :: rest =>
    if isBlank c then words rest
    else match rest with
      | [] => [[c]]
      | d :: _ =>
        if isBlank d then [c] :: words rest
        else match words rest with
          | [] => [[c]]
          | w :: ws => (c :: w) :: ws

/-- The letters a-z in upper case, all else as it is. -/
def upper (s : String) : String := s.map Char.toUpper

def lower (s : String) : String := s.map Char.toLower

@[simp] theorem toList_upper (s : String) : (upper s).toList = s.toList.map Char.toUpper := by
  simp [upper]

@[simp] theorem toList_lower (s : String) : (lower s).toList = s.toList.map Char.toLower := by
  simp [lower]

end BoundQuery.Text
