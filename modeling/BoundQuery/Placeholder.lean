import BoundQuery.Identifier

/-!
# Placeholders in a statement

A placeholder is a colon and a name. None begins inside a region between two equal quotation marks
(`'`, `"` or the grave accent; a region without its second mark reaches to the end), and two colons
together are no placeholder. The scan goes over the characters once; what it knows between two of
them is a `Mode`. So the scan of a text in two parts is the scan of the first followed by the scan
of the second from the mode that the first ends in.
-/

namespace BoundQuery
set_option autoImplicit false

/-- A piece of a statement: a character that stays, or a placeholder. -/
inductive Piece where
  | char (c : Char)
  | key (name : String)
  deriving DecidableEq, Repr

namespace Placeholder

/-- Where a scan stands. -/
inductive Mode where
  | outside
  | region (mark : Char)
  /-- Behind a colon that is not yet placed. -/
  | colon
  | name (letters : List Char)
  deriving DecidableEq, Repr

def isMark (c : Char) : Bool := c == '\x27' || c == '\x22' || c == '\x60'

def stepOutside (c : Char) : Mode × List Piece :=
  if isMark c then (.region c, [.char c])
  else if c = ':' then (.colon, [])
  else (.outside, [.char c])

/-- One character: the mode after it and the pieces that are now settled. -/
def step : Mode → Char → Mode × List Piece
  | .outside, c => stepOutside c
  | .region mark, c => (if c = mark then .outside else .region mark, [.char c])
  | .colon, c =>
    if c = ':' then (.outside, [.char ':', .char ':'])
    else if Identifier.isKeyStart c then (.name [c], [])
    else ((stepOutside c).1, .char ':' :: (stepOutside c).2)
  | .name letters, c =>
    if Identifier.isKeyChar c then (.name (letters ++ [c]), [])
    else ((stepOutside c).1, .key (.ofList letters) :: (stepOutside c).2)

/-- The pieces that the end of the text settles. -/
def finish : Mode → List Piece
  | .outside | .region _ => []
  | .colon => [.char ':']
  | .name letters => [.key (.ofList letters)]

def modeAfter (mode : Mode) (cs : List Char) : Mode := cs.foldl (fun m c => (step m c).1) mode

/-- The pieces that some characters settle. -/
def settled : Mode → List Char → List Piece
  | _, [] => []
  | mode, c :: rest => (step mode c).2 ++ settled (step mode c).1 rest

/-- The pieces of a text that is scanned from a mode to its end. -/
def pieces (mode : Mode) (cs : List Char) : List Piece :=
  settled mode cs ++ finish (modeAfter mode cs)

@[simp] theorem modeAfter_append (mode : Mode) (a b : List Char) :
    modeAfter mode (a ++ b) = modeAfter (modeAfter mode a) b := by simp [modeAfter]

@[simp] theorem settled_append (mode : Mode) (a b : List Char) :
    settled mode (a ++ b) = settled mode a ++ settled (modeAfter mode a) b := by
  induction a generalizing mode with
  | nil => simp [settled, modeAfter]
  | cons c rest ih => simp [settled, ih, modeAfter]

theorem pieces_append (mode : Mode) (a b : List Char) :
    pieces mode (a ++ b) = settled mode a ++ pieces (modeAfter mode a) b := by simp [pieces]

end Placeholder

end BoundQuery
