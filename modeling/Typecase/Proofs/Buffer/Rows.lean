import Typecase.Buffer.Strip

/-!
# Pictures laid row by row

A picture is an array of cells, line after line, and it is put together from strips: one for each
row of what it shows. `Strip.rows` are such strips, the first of them in line `top`, all of them
from column `left` on. If every row ends within its line, the rows do not run into one another, and
the picture shows each of them in its own line and stays as it is elsewhere
(`Strip.getElem?_layAll_rows`). If there are lines for all of them, they lie inside the picture
(`Strip.fits_rows`).
-/

namespace Typecase

/-! ### Positions in a picture -/

section Positions

variable {width height x x' y y' : Nat}

theorem index_lt_iff (hx : x < width) : y * width + x < y' * width ↔ y < y' := by
  constructor
  · intro h
    refine Nat.lt_of_not_le fun hge => ?_
    have hle := Nat.mul_le_mul_right width hge
    omega
  · intro h
    have hle : (y + 1) * width ≤ y' * width := Nat.mul_le_mul_right width h
    rw [Nat.succ_mul] at hle
    omega

theorem index_lt (hx : x < width) (hy : y < height) : y * width + x < width * height := by
  rw [Nat.mul_comm width]
  exact (index_lt_iff hx).mpr hy

theorem index_inj (hx : x < width) (hx' : x' < width) :
    y * width + x = y' * width + x' ↔ x = x' ∧ y = y' := by
  refine ⟨fun h => ?_, fun h => by rw [h.1, h.2]⟩
  have hcolumn : x = x' := by
    have hmod := congrArg (· % width) h
    simpa only [Nat.mul_add_mod', Nat.mod_eq_of_lt hx, Nat.mod_eq_of_lt hx'] using hmod
  have hrow : y * width = y' * width := by omega
  exact ⟨hcolumn, Nat.eq_of_mul_eq_mul_right (Nat.zero_lt_of_lt hx) hrow⟩

end Positions

namespace Strip

variable {α : Type} {width height left top count u v : Nat} {cells : Nat → List α}

/-- One strip for each of `count` rows in a picture `width` cells wide: row number `y` starts in
column `left` of line number `y + top`. -/
def rows (width left top : Nat) (cells : Nat → List α) (count : Nat) : List (Strip α) :=
  (List.range count).map fun y => ⟨(y + top) * width + left, cells y⟩

theorem rows_succ (width left top : Nat) (cells : Nat → List α) (count : Nat) :
    rows width left top cells (count + 1) =
      rows width left top cells count ++ [⟨(count + top) * width + left, cells count⟩] := by
  rw [rows, List.range_succ, List.map_append]
  rfl

theorem layAll_concat (a : Array α) (strips : List (Strip α)) (s : Strip α) :
    layAll a (strips ++ [s]) = lay (layAll a strips) s := List.foldl_append

/-- A row that ends within its line covers nothing but cells of this line. -/
theorem covers_row_iff {y : Nat} {row : List α} (hrow : left + row.length ≤ width)
    (hu : u < width) : (⟨y * width + left, row⟩ : Strip α).Covers (v * width + u) ↔
      v = y ∧ left ≤ u ∧ u < left + row.length := by
  rw [Covers]
  constructor
  · rintro ⟨hlow, hhigh⟩
    dsimp only at hlow hhigh
    have hnotBefore : ¬v < y := by
      rw [← index_lt_iff hu]
      omega
    have hnotBehind : v < y + 1 := by
      rw [← index_lt_iff hu, Nat.succ_mul]
      omega
    obtain rfl : v = y := by omega
    exact ⟨rfl, by omega, by omega⟩
  · rintro ⟨rfl, hlow, hhigh⟩
    dsimp only
    omega

/-- **Every row shows in its own line**, and the other cells stay as they are. -/
theorem getElem?_layAll_rows {a : Array α} (hrows : ∀ y < count, left + (cells y).length ≤ width)
    (hu : u < width) (hindex : v * width + u < a.size) :
    (layAll a (rows width left top cells count))[v * width + u]? =
      if (top ≤ v ∧ v < count + top) ∧ left ≤ u ∧ u < left + (cells (v - top)).length then
        (cells (v - top))[u - left]?
      else a[v * width + u]? := by
  induction count with
  | zero =>
    rw [if_neg (by omega)]
    rfl
  | succ count ih =>
    have hlast := hrows count (Nat.lt_succ_self count)
    rw [rows_succ, layAll_concat, getElem?_lay, size_layAll,
      ih fun y hy => hrows y (Nat.lt_succ_of_lt hy)]
    simp only [covers_row_iff hlast hu]
    by_cases hline : v = count + top
    · -- the last row is the only one in this line
      subst hline
      rw [Nat.add_sub_cancel]
      by_cases hcolumn : left ≤ u ∧ u < left + (cells count).length
      · rw [if_pos ⟨⟨rfl, hcolumn⟩, hindex⟩, if_pos ⟨by omega, hcolumn⟩, Nat.add_sub_add_left]
      · rw [if_neg fun h => hcolumn h.1.2, if_neg (by omega), if_neg fun h => hcolumn h.2]
    · rw [if_neg fun h => hline h.1.1]
      have hbefore : v < count + 1 + top ↔ v < count + top := by omega
      simp only [hbefore]

/-- A cell of a row shows in its column. -/
theorem getElem?_layAll_rows_of_lt {a : Array α} {x y : Nat}
    (hrows : ∀ y < count, left + (cells y).length ≤ width) (hy : y < count)
    (hx : x < (cells y).length) (hindex : (y + top) * width + (x + left) < a.size) :
    (layAll a (rows width left top cells count))[(y + top) * width + (x + left)]? =
      (cells y)[x]? := by
  have hrow := hrows y hy
  rw [getElem?_layAll_rows hrows (by omega) hindex, Nat.add_sub_cancel, Nat.add_sub_cancel,
    if_pos (by omega)]

/-- Where no cell of a row belongs, the picture stays as it is. -/
theorem getElem?_layAll_rows_of_forall {a : Array α}
    (hrows : ∀ y < count, left + (cells y).length ≤ width) (hu : u < width)
    (hindex : v * width + u < a.size)
    (hout : ∀ y < count, ∀ x < (cells y).length, ¬(u = x + left ∧ v = y + top)) :
    (layAll a (rows width left top cells count))[v * width + u]? = a[v * width + u]? := by
  rw [getElem?_layAll_rows hrows hu hindex, if_neg]
  rintro ⟨⟨htop, hcount⟩, hleft, hright⟩
  exact hout (v - top) (by omega) (u - left) (by omega) (by omega)

/-- Rows that end within their lines lie inside a picture that has these lines. -/
theorem fits_rows (hrows : ∀ y < count, left + (cells y).length ≤ width)
    (hcount : count + top ≤ height) :
    ∀ s ∈ rows width left top cells count, s.Fits (width * height) := by
  rw [rows, List.forall_mem_map]
  intro y hy
  have hline : y < count := List.mem_range.mp hy
  have hnext : (y + top + 1) * width ≤ height * width := Nat.mul_le_mul_right width (by omega)
  have hend := hrows y hline
  rw [Fits, Nat.mul_comm width]
  rw [Nat.succ_mul] at hnext
  dsimp only
  omega

end Strip

end Typecase
