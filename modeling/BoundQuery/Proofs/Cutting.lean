import BoundQuery.Text.Cut

/-!
# What a cut keeps of a text

The way back from a limit ends at a place between two characters, at the latest at the start, and
passes none. So the bytes in front of that place are the longest beginning of whole characters
within the limit. No character has more than four bytes, so at most three are left over.
-/

namespace BoundQuery.Text

set_option autoImplicit false

/-- The longest beginning of a text that is made of whole characters and fits into a limit. -/
structure LongestFront (limit : Nat) (s kept : String) : Prop where
  begins : ∃ rest, s = kept ++ rest
  fits : kept.utf8ByteSize ≤ limit
  longest : ∀ other rest, s = other ++ rest → other.utf8ByteSize ≤ limit →
    ∃ more, kept = other ++ more

variable {s : String} {n i limit : Nat}

theorem boundary_le (s : String) (n : Nat) : boundary s n ≤ n := by
  induction n with
  | zero => exact Nat.le_refl 0
  | succ n ih =>
    unfold boundary
    split
    · exact Nat.le_refl _
    · exact Nat.le_succ_of_le ih

/-- No place between two characters is passed on the way back. -/
theorem le_boundary (hi : i ≤ n) (h : String.Pos.Raw.IsValid s ⟨i⟩) : i ≤ boundary s n := by
  induction n with
  | zero => exact hi
  | succ n ih =>
    unfold boundary
    split
    · exact hi
    next hn =>
      have hne : i ≠ n + 1 := by
        rintro rfl
        exact hn (String.Pos.Raw.isValid_eq_true_iff.mpr h)
      exact ih (by omega)

/-- Behind one character more stands the next place, and that one is beyond the limit. -/
theorem le_boundary_add_three (h : n < s.utf8ByteSize) : n ≤ boundary s n + 3 := by
  have hend : place s n ≠ s.endPos := by
    intro heq
    have hbytes : boundary s n = s.utf8ByteSize := congrArg (·.offset.byteIdx) heq
    have hle := boundary_le s n
    omega
  have hsize := ((place s n).get hend).utf8Size_le_four
  have hpos := ((place s n).get hend).utf8Size_pos
  have hnext : ((place s n).next hend).offset.byteIdx =
      boundary s n + ((place s n).get hend).utf8Size :=
    String.Pos.byteIdx_offset_next (place s n) hend
  by_cases hle : ((place s n).next hend).offset.byteIdx ≤ n
  · have hback := le_boundary hle ((place s n).next hend).isValid
    omega
  · omega

theorem utf8ByteSize_sliceTo_place (s : String) (n : Nat) :
    (s.sliceTo (place s n)).copy.utf8ByteSize = boundary s n := by
  have hsplit := congrArg (·.byteIdx) (place s n).splits.offset_eq_rawEndPos
  exact hsplit.symm

theorem isValid_of_append {a b : String} (h : s = a ++ b) :
    String.Pos.Raw.IsValid s ⟨a.utf8ByteSize⟩ :=
  String.Pos.Raw.isValid_iff_exists_append.mpr ⟨a, b, h, rfl⟩

/-- Of two beginnings of a text the shorter one begins the longer one. -/
theorem exists_append_of_le {a b c d : String} (h : a ++ b = c ++ d)
    (hle : a.utf8ByteSize ≤ c.utf8ByteSize) : ∃ more, c = a ++ more := by
  have hlist := congrArg String.toList h
  rw [String.toList_append, String.toList_append] at hlist
  rcases List.append_eq_append_iff.mp hlist with ⟨more, hmore, -⟩ | ⟨more, hmore, -⟩
  · exact ⟨.ofList more, String.toList_injective (by simpa using hmore)⟩
  · have hstring : a = c ++ .ofList more := String.toList_injective (by simpa using hmore)
    have hsize := congrArg String.utf8ByteSize hstring
    rw [String.utf8ByteSize_append] at hsize
    have hempty : String.ofList more = "" := String.utf8ByteSize_eq_zero_iff.mp (by omega)
    exact ⟨"", by rw [hstring, hempty, String.append_empty, String.append_empty]⟩

theorem longestFront_sliceTo_place (s : String) (limit : Nat) :
    LongestFront limit s (s.sliceTo (place s limit)).copy where
  begins := ⟨_, (place s limit).splits.eq_append⟩
  fits := by
    rw [utf8ByteSize_sliceTo_place]
    exact boundary_le s limit
  longest other rest h hfits := by
    apply exists_append_of_le (h.symm.trans (place s limit).splits.eq_append)
    rw [utf8ByteSize_sliceTo_place]
    exact le_boundary hfits (isValid_of_append h)

/--
The way back from a limit ends at a place between two characters, the last one behind at most that
many bytes. A text within the limit is left as it is, and of a longer one the longest beginning of
whole characters within the limit is kept, the one that ends at that place, with three points behind
it; it leaves at most three bytes of the limit unused.
-/
theorem cut_keeps_whole (limit : Nat) (s : String) :
    String.Pos.Raw.IsValid s ⟨boundary s limit⟩ ∧
    boundary s limit ≤ limit ∧
    (∀ i ≤ limit, String.Pos.Raw.IsValid s ⟨i⟩ → i ≤ boundary s limit) ∧
    (s.utf8ByteSize ≤ limit → cut limit s = s) ∧
    (limit < s.utf8ByteSize → ∃ kept, cut limit s = kept ++ "..." ∧ LongestFront limit s kept ∧
      kept.utf8ByteSize = boundary s limit ∧ limit ≤ kept.utf8ByteSize + 3) := by
  refine ⟨isValid_boundary s limit, boundary_le s limit, fun i hi h => le_boundary hi h,
    fun h => if_pos h, fun h => ?_⟩
  refine ⟨(s.sliceTo (place s limit)).copy, if_neg (Nat.not_le.mpr h),
    longestFront_sliceTo_place s limit, utf8ByteSize_sliceTo_place s limit, ?_⟩
  rw [utf8ByteSize_sliceTo_place]
  exact le_boundary_add_three h

/-- Characters of one to four bytes: a limit within the last one, and one within the third. -/
theorem cut_keeps_whole_mixed :
    let s := "aé€😀"
    s.utf8ByteSize ≤ 10 ∧ cut 10 s = s ∧
      3 ≤ 5 ∧ String.Pos.Raw.IsValid s ⟨3⟩ ∧ 3 ≤ boundary s 5 ∧
      9 < s.utf8ByteSize ∧ cut 9 s = "aé€" ++ "..." ∧ LongestFront 9 s "aé€" ∧
      9 ≤ "aé€".utf8ByteSize + 3 := by
  intro s
  have hten : s.utf8ByteSize ≤ 10 := by decide
  have hthree : String.Pos.Raw.IsValid s ⟨3⟩ := by decide
  have hnine : 9 < s.utf8ByteSize := by decide
  have hcut : cut 9 s = "aé€" ++ "..." := by decide
  obtain ⟨-, -, -, hsame, -⟩ := cut_keeps_whole 10 s
  obtain ⟨-, -, hlast, -, -⟩ := cut_keeps_whole 5 s
  obtain ⟨-, -, -, -, hlonger⟩ := cut_keeps_whole 9 s
  obtain ⟨kept, hkept, hfront, -, hunused⟩ := hlonger hnine
  have heq : kept = "aé€" := (String.append_left_inj "...").mp (hkept.symm.trans hcut)
  rw [heq] at hfront hunused
  exact ⟨hten, hsame hten, by decide, hthree, hlast 3 (by decide) hthree, hnine, hcut, hfront,
    hunused⟩

end BoundQuery.Text
