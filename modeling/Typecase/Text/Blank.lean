/-!
# Blank characters

The characters that separate fields and pad lines: the twenty-five code points with the
Unicode property `White_Space`. The table lists them as ascending inclusive ranges, and
`isBlank` is membership in one of the ranges.

Every character of core's ASCII class is blank (`isBlank_of_isWhitespace`), but not the
other way round: a no-break space or an ideographic space separates fields as well.
-/

namespace Typecase.Text

/-- The inclusive code point ranges of the property `White_Space`, in ascending order. -/
def blankRanges : List (Nat × Nat) :=
  [(0x9, 0xD), (0x20, 0x20), (0x85, 0x85), (0xA0, 0xA0), (0x1680, 0x1680), (0x2000, 0x200A),
    (0x2028, 0x2029), (0x202F, 0x202F), (0x205F, 0x205F), (0x3000, 0x3000)]

/-- A character is **blank** when its code point lies in one of the `White_Space` ranges. -/
def isBlank (c : Char) : Bool :=
  blankRanges.any fun r => r.1 ≤ c.toNat && c.toNat ≤ r.2

/-- The table covers twenty-five code points. -/
example : (blankRanges.map fun r => r.2 + 1 - r.1).sum = 25 := by decide

/-- The ranges ascend and leave gaps between them. -/
example : (blankRanges.zip blankRanges.tail).all (fun p => p.1.2 + 1 < p.2.1) = true := by decide

theorem isBlank_of_isWhitespace {c : Char} (h : c.isWhitespace = true) : isBlank c = true := by
  simp only [Char.isWhitespace, Bool.or_eq_true, decide_eq_true_eq] at h
  rcases h with ((rfl | rfl) | rfl) | rfl <;> decide

end Typecase.Text
