import Typecase.Font.Tabulated
import Typecase.Proofs.Repeats

/-!
# The code points of a face

A face enumerates its code points in any order and with repetitions. `Face.codePoints` is the
enumeration in order: it has the same members (`Face.mem_codePoints`) and is strictly ascending
(`Face.isStrict_codePoints`), so that no code point is counted twice.

Both follow from what leaving out repetitions does to a list in order (`Repeats.mem_eraseReps`,
`Repeats.pairwise_lt_eraseReps`).
-/

namespace Typecase

namespace Face

theorem mem_codePoints {f : Face} {code : Nat} : code ∈ f.codePoints ↔ code ∈ f.charCodes := by
  rw [codePoints, Repeats.mem_eraseReps, List.mem_mergeSort]

theorem isStrict_codePoints (f : Face) : f.codePoints.Pairwise (· < ·) :=
  Repeats.pairwise_lt_eraseReps (List.pairwise_mergeSort' (· ≤ ·) f.charCodes)

/-- An enumeration that is in order already stays as it is. -/
theorem codePoints_of_isStrict {f : Face} (h : f.charCodes.Pairwise (· < ·)) :
    f.codePoints = f.charCodes := by
  have hsorted : f.charCodes.mergeSort = f.charCodes :=
    List.mergeSort_eq_self (· ≤ ·) (h.imp Nat.le_of_lt)
  rw [codePoints, hsorted, Repeats.eraseReps_of_pairwise_lt h]

/-- An honest face has a glyph for what it enumerates. -/
theorem IsHonest.has_eq_true {f : Face} (h : f.IsHonest) {code : Nat}
    (hcode : code ∈ f.codePoints) : f.has code = true :=
  bne_iff_ne.mpr ((h code).mp (mem_codePoints.mp hcode))

/-- And it enumerates what it has a glyph for. -/
theorem IsHonest.mem_of_has {f : Face} (h : f.IsHonest) {code : Nat} (hhas : f.has code = true) :
    code ∈ f.codePoints :=
  mem_codePoints.mpr ((h code).mpr (bne_iff_ne.mp hhas))

end Face

/-- A table is honest if it enumerates the code points that it has glyphs for. -/
theorem TabulatedFont.isHonest_face {f : TabulatedFont} (h : f.codes = f.owned) :
    f.face.IsHonest := by
  intro code
  change code ∈ f.codes ↔ (f.owned.idxOf? code).elim 0 (· + 1) ≠ 0
  have hmem : (f.owned.idxOf? code).isSome = true ↔ code ∈ f.codes := h ▸ List.isSome_idxOf?
  rw [← hmem]
  cases f.owned.idxOf? code <;> simp

end Typecase
