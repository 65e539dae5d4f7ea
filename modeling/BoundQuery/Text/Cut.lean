/-!
# Cutting a text at a number of bytes

A text of more UTF-8 bytes than a limit is cut between two characters, at the last place within the
limit, and the cut is marked by three points. That place is looked for backwards, byte by byte. A
text within the limit stays as it is.
-/

namespace BoundQuery.Text
set_option autoImplicit false

/-- How many of `n` bytes stand in front of the last place between two characters among them. -/
def boundary (s : String) : Nat → Nat
  | 0 => 0
  | n + 1 => if String.Pos.Raw.isValid s ⟨n + 1⟩ then n + 1 else boundary s n

theorem isValid_boundary (s : String) (n : Nat) : String.Pos.Raw.IsValid s ⟨boundary s n⟩ := by
  induction n with
  | zero => exact String.Pos.Raw.isValid_zero
  | succ n ih =>
    unfold boundary
    split
    next h => exact String.Pos.Raw.isValid_eq_true_iff.mp h
    next => exact ih

/-- The last place between two characters behind at most `n` bytes. -/
def place (s : String) (n : Nat) : s.Pos := s.pos ⟨boundary s n⟩ (isValid_boundary s n)

/-- The text itself up to `limit` bytes, and its cut form above. -/
def cut (limit : Nat) (s : String) : String :=
  if s.utf8ByteSize ≤ limit then s else (s.sliceTo (place s limit)).copy ++ "..."

end BoundQuery.Text
