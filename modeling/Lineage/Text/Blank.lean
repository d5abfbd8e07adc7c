/-!
# Blank text

A text is blank when each of its characters has the Unicode property `White_Space`. The no-break
spaces and the ideographic space belong to it, the zero-width space does not.
-/

namespace Lineage.Text

/-- The Unicode property `White_Space`. -/
def isSpace (c : Char) : Bool :=
  let n := c.toNat
  (0x09 ≤ n && n ≤ 0x0d) || n == 0x20 || n == 0x85 || n == 0xa0 || n == 0x1680 ||
    (0x2000 ≤ n && n ≤ 0x200a) || n == 0x2028 || n == 0x2029 || n == 0x202f || n == 0x205f ||
    n == 0x3000

/-- True of the empty text too. -/
def isBlank (text : String) : Bool := text.toList.all isSpace

theorem isSpace_of_isWhitespace (c : Char) (h : c.isWhitespace = true) : isSpace c = true := by
  simp only [Char.isWhitespace, Bool.or_eq_true, decide_eq_true_eq] at h
  rcases h with ((h | h) | h) | h <;> subst h <;> decide

end Lineage.Text
