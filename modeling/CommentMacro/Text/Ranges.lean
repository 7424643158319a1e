import CommentMacro.Text.Basic

/-!
# Sets of characters written as ranges

The character classes of the library are those of the Unicode standard, version
14. Their members beyond ASCII are listed as inclusive ranges of code points.
-/

namespace CommentMacro

/-- A set of code points: the union of the inclusive ranges. -/
abbrev CodeRanges := List (Nat × Nat)

def CodeRanges.contains (ranges : CodeRanges) (c : Char) : Bool :=
  ranges.any fun range => range.1 ≤ c.toNat && c.toNat ≤ range.2

theorem CodeRanges.contains_iff {ranges : CodeRanges} {c : Char} :
    ranges.contains c = true ↔ ∃ range ∈ ranges, range.1 ≤ c.toNat ∧ c.toNat ≤ range.2 := by
  simp [CodeRanges.contains]

end CommentMacro
