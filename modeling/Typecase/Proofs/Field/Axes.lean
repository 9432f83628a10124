import Mathlib.Tactic.NormNum
import Mathlib.Tactic.Positivity
import Typecase.Field.Distance
import Typecase.Proofs.Buffer.Rows
import Typecase.Proofs.Field.Parabolas

/-!
# Distances axis by axis

In exact arithmetic the two passes over a grid give, for every pixel, the least squared distance to
a feature (`squaredDistances_eq_leastSquare`).

* **One axis.** A value is `IsLeastAlong` a line if it is the least sum of a squared distance along
  the line and a sample there. The transform of a line finds it.
* **Both axes.** Every column is transformed in place, and no other column changes
  (`Grid.IsWhole.exists_sweepColumns`); then every row of the result is transformed
  (`Grid.IsWhole.exists_sweepRows`). The least value along a row of least values along columns is
  the least value over the grid (`isLeast_of_axes`). The working space is handed on from line to
  line as it is.
* **Features.** A pixel without a feature costs more than any distance in the grid, so that the
  least value is a squared distance to a feature if there is one.
-/

namespace Typecase.Envelope

open GridNumber

variable {g : Grid Rat} {w : Scratch Rat} {N width height x x' y y' : Nat}

/-! ### One axis -/

/-- The value `v` is the least sum of the squared distance from `q` to a position before `n` and
the sample there. -/
def IsLeastAlong (n : Nat) (sample : Nat → Rat) (q : Nat) (v : Rat) : Prop :=
  IsLeast ((fun p : Nat => ((q : Rat) - p) ^ 2 + sample p) '' Set.Iio n) v

theorem isLeastAlong_congr {n q : Nat} {sample sample' : Nat → Rat} {v : Rat}
    (h : ∀ p < n, sample p = sample' p) :
    IsLeastAlong n sample q v ↔ IsLeastAlong n sample' q v := by
  rw [IsLeastAlong, IsLeastAlong, Set.image_congr fun p hp => by rw [h p hp]]

theorem IsTransformOf.isLeastAlong {f d : Array Rat} (h : IsTransformOf f d) {q : Nat}
    (hq : q < f.size) : IsLeastAlong f.size (fun p => f[p]?.getD 0) q (d[q]?.getD 0) := h.least q hq

/-- The least value along one axis of what is least along the other. -/
theorem isLeast_of_axes {sample : Nat → Nat → Rat} {column : Nat → Rat} {v : Rat}
    (hcolumn : ∀ x' < width, IsLeastAlong height (sample x') y (column x'))
    (hrow : IsLeastAlong width column x v) :
    IsLeast {u | ∃ x' < width, ∃ y' < height,
      u = ((x : Rat) - x') ^ 2 + (((y : Rat) - y') ^ 2 + sample x' y')} v := by
  constructor
  · obtain ⟨x', hx', rfl⟩ := hrow.1
    obtain ⟨y', hy', hv⟩ := (hcolumn x' hx').1
    refine ⟨x', hx', y', hy', ?_⟩
    dsimp only at hv ⊢
    rw [← hv]
  · rintro _ ⟨x', hx', y', hy', rfl⟩
    have hrow' := hrow.2 ⟨x', hx', rfl⟩
    have hcolumn' := (hcolumn x' hx').2 ⟨y', hy', rfl⟩
    dsimp only at hrow' hcolumn'
    linarith

/-! ### Cells -/

namespace Grid

/-- The sample in column `x` of row `y`. -/
def cell (g : Grid Rat) (x y : Nat) : Rat := g.cells[y * g.width + x]?.getD 0

/-- The grid has one sample for every pixel. -/
def IsWhole (g : Grid Rat) : Prop := g.cells.size = g.width * g.height

theorem IsWhole.getElem?_eq (h : g.IsWhole) (hx : x < g.width) (hy : y < g.height) :
    g.cells[y * g.width + x]? = some (g.cell x y) := by
  have hlt : y * g.width + x < g.cells.size := h.symm ▸ index_lt hx hy
  rw [cell, Array.getElem?_eq_getElem hlt, Option.getD_some]

theorem IsWhole.exists_column (h : g.IsWhole) (hx : x < g.width) :
    ∃ s, g.column x = some s ∧ s.size = g.height ∧ ∀ y < g.height, s[y]?.getD 0 = g.cell x y := by
  obtain ⟨s, hcolumn, hsize, hcells⟩ := IsSized.exists_column ⟨rfl, rfl, h⟩ hx
  exact ⟨s, hcolumn, hsize, fun y hy => by rw [hcells y hy, cell]⟩

/-- A column of the right length is written sample by sample. -/
theorem setColumn_eq (x : Nat) {s : Array Rat} (hs : s.size = g.height) :
    g.setColumn x s = { g with cells := (List.range g.height).foldl (fun cells y =>
      cells.setIfInBounds (y * g.width + x) (s[y]?.getD 0)) g.cells } := by
  rw [setColumn]
  congr 1
  refine List.foldl_ext _ _ _ fun cells y hy => ?_
  have hlt : y < s.size := hs ▸ List.mem_range.mp hy
  rw [Array.getElem?_eq_getElem hlt]
  rfl

/-- What writing the first `m` samples of column `x` does. -/
theorem IsWhole.foldl_write (h : g.IsWhole) (hx : x < g.width) (s : Array Rat) {m : Nat}
    (hm : m ≤ g.height) :
    let cells := (List.range m).foldl (fun cells y =>
      cells.setIfInBounds (y * g.width + x) (s[y]?.getD 0)) g.cells
    cells.size = g.cells.size ∧ ∀ x' y, x' < g.width → y < g.height →
      cells[y * g.width + x']?.getD 0 = if x' = x ∧ y < m then s[y]?.getD 0 else g.cell x' y := by
  induction m with
  | zero => exact ⟨rfl, fun x' y _ _ => by rw [if_neg (by omega)]; rfl⟩
  | succ m ih =>
    obtain ⟨hsize, hcells⟩ := ih (Nat.le_of_succ_le hm)
    have hindex : m * g.width + x < g.cells.size := h.symm ▸ index_lt hx hm
    rw [List.range_succ, List.foldl_append, List.foldl_cons, List.foldl_nil]
    refine ⟨(Array.size_setIfInBounds ..).trans hsize, fun x' y hx' hy => ?_⟩
    rw [Array.getElem?_setIfInBounds, hsize, if_pos hindex]
    split
    · rename_i hsame
      obtain ⟨rfl, rfl⟩ := (index_inj hx hx').mp hsame
      rw [if_pos ⟨rfl, Nat.lt_succ_self m⟩, Option.getD_some]
    · rename_i hother
      have hne : x' = x → y ≠ m := by
        rintro rfl rfl
        exact hother rfl
      rw [hcells x' y hx' hy]
      exact if_congr (by omega) rfl rfl

/-- Replacing a column changes the cells of that column and no others. -/
theorem IsWhole.setColumn (h : g.IsWhole) (hx : x < g.width) {s : Array Rat}
    (hs : s.size = g.height) : (g.setColumn x s).IsWhole ∧ ∀ x' y, x' < g.width → y < g.height →
      (g.setColumn x s).cell x' y = if x' = x then s[y]?.getD 0 else g.cell x' y := by
  obtain ⟨hsize, hcells⟩ := h.foldl_write hx s (Nat.le_refl g.height)
  rw [setColumn_eq x hs]
  refine ⟨hsize.trans h, fun x' y hx' hy => (hcells x' y hx' hy).trans ?_⟩
  simp only [hy, and_true]

/-! ### Columns and rows -/

/-- The first `m` columns of `g'` are those of `g`, transformed; the others are as they were. -/
structure IsSwept (g g' : Grid Rat) (m : Nat) : Prop where
  width : g'.width = g.width
  height : g'.height = g.height
  whole : g'.IsWhole
  done : ∀ x < m, x < g.width → ∀ y < g.height, IsLeastAlong g.height (g.cell x) y (g'.cell x y)
  rest : ∀ x, m ≤ x → x < g.width → ∀ y < g.height, g'.cell x y = g.cell x y

/-- One more column is transformed. -/
theorem IsSwept.exists_sweepColumn {g' : Grid Rat} {m : Nat} (h : g.IsSwept g' m) (hw : w.Fits N)
    (hm : m < g.width) (hN : g.height ≤ N) (hfar : g.height ≤ 10 ^ 20) :
    ∃ t, sweepColumn (g', w) m = some t ∧ g.IsSwept t.1 (m + 1) ∧ t.2.Fits N := by
  have hm' : m < g'.width := h.width.symm ▸ hm
  obtain ⟨s, hcolumn, hsize, hcells⟩ := h.whole.exists_column hm'
  rw [h.height] at hsize hcells
  obtain ⟨d, w', htransform, hfits, hleast⟩ :=
    exists_transform hw (hsize.symm ▸ hN) (hsize.symm ▸ hfar)
  have hd : d.size = g'.height := (hleast.size.trans hsize).trans h.height.symm
  obtain ⟨hwhole, hset⟩ := h.whole.setColumn hm' hd
  rw [h.width, h.height] at hset
  refine ⟨(g'.setColumn m d, w'), ?_, ?_, hfits⟩
  · rw [sweepColumn, hcolumn, Option.bind_eq_bind, Option.bind_some, htransform]
    rfl
  · refine ⟨h.width, h.height, hwhole, fun x hx hxw y hy => ?_, fun x hx hxw y hy => ?_⟩
    · rw [hset x y hxw hy]
      split
      · rename_i hxm
        have hline := hleast.isLeastAlong (hsize.symm ▸ hy)
        rw [hsize] at hline
        refine (isLeastAlong_congr fun p hp => ?_).mp hline
        rw [hcells p hp, h.rest m le_rfl hm p hp, hxm]
      · exact h.done x (by omega) hxw y hy
    · rw [hset x y hxw hy, if_neg (by omega)]
      exact h.rest x (by omega) hxw y hy

/-- **Every column is transformed.** -/
theorem IsWhole.exists_sweepColumns (h : g.IsWhole) (hw : w.Fits N) (hN : g.height ≤ N)
    (hfar : g.height ≤ 10 ^ 20) :
    ∃ t, g.sweepColumns w = some t ∧ g.IsSwept t.1 g.width ∧ t.2.Fits N := by
  have hunswept : g.IsSwept g 0 :=
    ⟨rfl, rfl, h, fun x hx => absurd hx (Nat.not_lt_zero x), fun _ _ _ _ _ => rfl⟩
  exact exists_foldlM_range (P := fun m (t : Grid Rat × Scratch Rat) =>
    g.IsSwept t.1 m ∧ t.2.Fits N)
    (fun m hm t ht => ht.1.exists_sweepColumn ht.2 hm hN hfar) ⟨hunswept, hw⟩

theorem IsWhole.size_row (h : g.IsWhole) (hy : y < g.height) : (g.row y).size = g.width :=
  IsSized.size_row ⟨rfl, rfl, h⟩ hy

theorem IsWhole.getElem?_row (h : g.IsWhole) (hy : y < g.height) (hx : x < g.width) :
    (g.row y)[x]?.getD 0 = g.cell x y := by
  have hsize := h.size_row hy
  rw [row, Array.size_extract] at hsize
  rw [row, Array.getElem?_extract, if_pos (hsize.symm ▸ hx)]
  rfl

/-- The array `out` holds the first `m` rows of the grid, transformed. -/
structure IsRead (g : Grid Rat) (out : Array Rat) (m : Nat) : Prop where
  size : out.size = m * g.width
  least : ∀ y < m, ∀ x < g.width,
    IsLeastAlong g.width (fun x' => g.cell x' y) x (out[y * g.width + x]?.getD 0)

/-- One more row is transformed, and appended to the others. -/
theorem IsRead.exists_sweepRow {out : Array Rat} {m : Nat} (h : g.IsRead out m) (hg : g.IsWhole)
    (hw : w.Fits N) (hm : m < g.height) (hN : g.width ≤ N) (hfar : g.width ≤ 10 ^ 20) :
    ∃ t, g.sweepRow (out, w) m = some t ∧ g.IsRead t.1 (m + 1) ∧ t.2.Fits N := by
  have hrow := hg.size_row hm
  obtain ⟨d, w', htransform, hfits, hline⟩ :=
    exists_transform hw (hrow.symm ▸ hN) (hrow.symm ▸ hfar)
  refine ⟨(out ++ d, w'), by rw [sweepRow, htransform]; rfl, ⟨?_, fun y hy x hx => ?_⟩, hfits⟩
  · rw [Array.size_append, h.size, hline.size, hrow, Nat.succ_mul]
  · simp only [Array.getElem?_append, h.size, index_lt_iff hx]
    split
    · rename_i hbefore
      exact h.least y hbefore x hx
    · obtain rfl : y = m := by omega
      have hnew := hline.isLeastAlong (hrow.symm ▸ hx)
      rw [hrow] at hnew
      rw [Nat.add_sub_cancel_left]
      exact (isLeastAlong_congr fun p hp => hg.getElem?_row hm hp).mp hnew

/-- **Every row is transformed.** -/
theorem IsWhole.exists_sweepRows (h : g.IsWhole) (hw : w.Fits N) (hN : g.width ≤ N)
    (hfar : g.width ≤ 10 ^ 20) : ∃ out, g.sweepRows w = some out ∧ g.IsRead out g.height := by
  have hempty : g.IsRead #[] 0 :=
    ⟨(Nat.zero_mul _).symm, fun y hy => absurd hy (Nat.not_lt_zero y)⟩
  obtain ⟨⟨out, w'⟩, hfold, hread, -⟩ := exists_foldlM_range (g := g.sweepRow)
    (t := (#[], w)) (P := fun m t => g.IsRead t.1 m ∧ t.2.Fits N)
    (fun m hm t ht => ht.1.exists_sweepRow h ht.2 hm hN hfar) ⟨hempty, hw⟩
  refine ⟨out, ?_, hread⟩
  rw [sweepRows, hfold]
  rfl

/-- **The two passes** give the least value over the grid for every pixel. -/
theorem IsWhole.exists_sweeps (h : g.IsWhole) (hw : w.Fits (max g.width g.height))
    (hwidth : g.width ≤ 10 ^ 20) (hheight : g.height ≤ 10 ^ 20) :
    ∃ g' w' out, g.sweepColumns w = some (g', w') ∧ g'.sweepRows w' = some out ∧
      out.size = g.width * g.height ∧ ∀ x < g.width, ∀ y < g.height,
        ∃ v, out[y * g.width + x]? = some v ∧
          IsLeast {u | ∃ x' < g.width, ∃ y' < g.height,
            u = ((x : Rat) - x') ^ 2 + (((y : Rat) - y') ^ 2 + g.cell x' y')} v := by
  obtain ⟨⟨g', w'⟩, hcolumns, hswept, hfits⟩ :=
    h.exists_sweepColumns hw (Nat.le_max_right _ _) hheight
  obtain ⟨hwidth', hheight', hwhole, hdone, -⟩ := hswept
  dsimp only at hwidth' hheight' hwhole hfits hdone
  obtain ⟨out, hrows, hsize, hleast⟩ :=
    hwhole.exists_sweepRows hfits (hwidth' ▸ Nat.le_max_left _ _) (hwidth' ▸ hwidth)
  rw [hwidth', hheight', Nat.mul_comm] at hsize
  rw [hwidth', hheight'] at hleast
  refine ⟨g', w', out, hcolumns, hrows, hsize, fun x hx y hy => ?_⟩
  have hlt : y * g.width + x < out.size := hsize.symm ▸ index_lt hx hy
  have hline := hleast y hy x hx
  rw [Array.getElem?_eq_getElem hlt, Option.getD_some] at hline
  refine ⟨_, Array.getElem?_eq_getElem hlt, ?_⟩
  exact isLeast_of_axes (fun x' hx' => hdone x' hx' hx' y hy) hline

end Grid

/-! ### Features -/

variable {features : Array Bool}

theorem mem_featurePixels : (x, y) ∈ featurePixels width height features ↔
    x < width ∧ y < height ∧ features[y * width + x]?.getD false = true := by
  simp [featurePixels, and_assoc, and_left_comm]

/-- No feature is closer than the least squared distance, and some feature is as close. -/
theorem leastSquare_eq_some_iff {m : Nat} : leastSquare width height features x y = some m ↔
    (∃ p ∈ featurePixels width height features, squareBetween x y p.1 p.2 = m) ∧
      ∀ p ∈ featurePixels width height features, m ≤ squareBetween x y p.1 p.2 := by
  rw [leastSquare, List.min?_eq_some_iff, List.mem_map, List.forall_mem_map]

theorem leastSquare_eq_none_iff :
    leastSquare width height features x y = none ↔ featurePixels width height features = [] := by
  rw [leastSquare, List.min?_eq_none_iff, List.map_eq_nil_iff]

theorem cast_squareBetween (x y x' y' : Nat) :
    (squareBetween x y x' y' : Rat) = ((x : Rat) - x') ^ 2 + ((y : Rat) - y') ^ 2 := by
  have hsquare (a b : Nat) :
      ((((a : Int) - b).natAbs * ((a : Int) - b).natAbs : Nat) : Rat) = ((a : Rat) - b) ^ 2 := by
    rw [← Int.cast_natCast, Int.natAbs_mul_self]
    push_cast
    ring
  rw [squareBetween, Nat.cast_add, hsquare, hsquare]

/-- No distance in a grid is larger than its diagonal. -/
theorem squareBetween_le (hx : x < width) (hy : y < height) (hx' : x' < width)
    (hy' : y' < height) : squareBetween x y x' y' ≤ width ^ 2 + height ^ 2 := by
  have hdx : ((x : Int) - x').natAbs ≤ width := by omega
  have hdy : ((y : Int) - y').natAbs ≤ height := by omega
  rw [squareBetween, pow_two, pow_two]
  exact Nat.add_le_add (Nat.mul_le_mul hdx hdx) (Nat.mul_le_mul hdy hdy)

theorem cell_featureGrid (hsize : features.size = width * height) (hx : x < width)
    (hy : y < height) : (featureGrid width height features : Grid Rat).cell x y =
      if (x, y) ∈ featurePixels width height features then 0 else far := by
  have hlt : y * width + x < features.size := hsize.symm ▸ index_lt hx hy
  rw [Grid.cell, featureGrid, Array.getElem?_map, Array.getElem?_eq_getElem hlt]
  simp only [mem_featurePixels, hx, hy, true_and, Array.getElem?_eq_getElem hlt, Option.map_some,
    Option.getD_some]
  rfl

/-- The least value over a grid that is zero at the features and `far` elsewhere. -/
theorem eq_leastSquare {sample : Nat → Nat → Rat} {v : Rat} (hx : x < width) (hy : y < height)
    (hdiagonal : width ^ 2 + height ^ 2 < 10 ^ 20)
    (hsample : ∀ x' y', x' < width → y' < height → sample x' y' =
      if (x', y') ∈ featurePixels width height features then 0 else far)
    (h : IsLeast {u | ∃ x' < width, ∃ y' < height,
      u = ((x : Rat) - x') ^ 2 + (((y : Rat) - y') ^ 2 + sample x' y')} v) :
    v = (leastSquare width height features x y).elim far Nat.cast := by
  obtain ⟨⟨x', hx', y', hy', hv⟩, hleast⟩ := h
  have hsquares : (0 : Rat) ≤ ((x : Rat) - x') ^ 2 + ((y : Rat) - y') ^ 2 := by positivity
  rw [hsample x' y' hx' hy'] at hv
  cases hd : leastSquare width height features x y with
  | none =>
    -- every pixel costs at least `far`, and the pixel itself no more than that
    rw [leastSquare_eq_none_iff] at hd
    have hself := hleast ⟨x, hx, y, hy, rfl⟩
    rw [hsample x y hx hy, hd, if_neg List.not_mem_nil, sub_self, sub_self,
      zero_pow two_ne_zero, zero_add, zero_add] at hself
    rw [hd, if_neg List.not_mem_nil] at hv
    change v = far
    exact le_antisymm hself (by linarith)
  | some m =>
    obtain ⟨⟨p, hp, hm⟩, hlower⟩ := leastSquare_eq_some_iff.mp hd
    obtain ⟨hpx, hpy, -⟩ := mem_featurePixels.mp hp
    have hfar : (m : Rat) < far := by
      have hlt := Nat.lt_of_le_of_lt (squareBetween_le hx hy hpx hpy) hdiagonal
      rw [hm] at hlt
      rw [far_eq]
      exact_mod_cast hlt
    have hle : v ≤ m := by
      refine hleast ⟨p.1, hpx, p.2, hpy, ?_⟩
      rw [hsample p.1 p.2 hpx hpy, if_pos hp, add_zero, ← cast_squareBetween, hm]
    change v = m
    refine le_antisymm hle ?_
    split at hv
    · rename_i hfeature
      rw [add_zero, ← cast_squareBetween] at hv
      rw [hv]
      exact_mod_cast hlower (x', y') hfeature
    · -- a pixel without a feature costs more than the feature found
      linarith

/-- **The transforms are exact.** In exact arithmetic the transform of a line of at most `10 ^ 20`
samples, whatever they are, returns the least height of a parabola at every position; the working
space may hold anything, and has to be long enough only. Hence the squared distances in a grid whose
diagonal is shorter than `far` are those to the nearest feature by definition, for every pixel; they
are all `far` if there is no feature. -/
theorem squaredDistances_eq_leastSquare :
    (∀ (f : Array Rat) (w : Scratch Rat), f.size ≤ 10 ^ 20 → f.size ≤ w.vertices.size →
      f.size + 1 ≤ w.breaks.size →
        ∃ d w', transform f w = some (d, w') ∧ IsTransformOf f d) ∧
    ∀ (width height : Nat) (features : Array Bool), features.size = width * height →
      width ^ 2 + height ^ 2 < 10 ^ 20 →
        ∃ out : Array Rat, squaredDistances width height features = some out ∧
          out.size = width * height ∧ ∀ x < width, ∀ y < height, out[y * width + x]? =
            some ((leastSquare width height features x y).elim far Nat.cast) := by
  refine ⟨fun f w hfar hvertices hbreaks => ?_, fun width height features hsize hdiagonal => ?_⟩
  · obtain ⟨d, w', htransform, -, hleast⟩ := exists_transform ⟨hvertices, hbreaks⟩ le_rfl hfar
    exact ⟨d, w', htransform, hleast⟩
  have hwhole : (featureGrid width height features : Grid Rat).IsWhole :=
    (Array.size_map ..).trans hsize
  obtain ⟨g, w, out, hcolumns, hrows, hout, hleast⟩ :=
    hwhole.exists_sweeps (Scratch.fits_ofLength _) (show width ≤ 10 ^ 20 by nlinarith)
      (show height ≤ 10 ^ 20 by nlinarith)
  refine ⟨out, ?_, hout, fun x hx y hy => ?_⟩
  · rw [squaredDistances]
    exact (congrArg (Option.bind · _) hcolumns).trans hrows
  · obtain ⟨v, hv, hvalue⟩ := hleast x hx y hy
    have hnearest := eq_leastSquare hx hy hdiagonal
      (fun x' y' hx' hy' => cell_featureGrid hsize hx' hy') hvalue
    exact hv.trans (congrArg some hnearest)

/-- A line with a single low sample, in a working space that was used before, and a grid with
features in two opposite corners. -/
theorem squaredDistances_of_corners :
    let f : Array Rat := #[far, far, 0, far, far, far]
    let features : Array Bool :=
      #[true, false, false, false, false, false, false, false, false, false, false, true]
    (∃ d w', transform f ⟨Array.replicate 6 9, Array.replicate 7 (-3)⟩ = some (d, w') ∧
        IsTransformOf f d) ∧
      ∃ out : Array Rat, squaredDistances 4 3 features = some out ∧ out.size = 12 ∧
        out[5]? = some 2 ∧ out[3]? = some 4 ∧ out[2]? = some 4 := by
  intro f features
  obtain ⟨hline, hgrid⟩ := squaredDistances_eq_leastSquare
  obtain ⟨out, hout, hsize, hvalue⟩ := hgrid 4 3 features rfl (by decide)
  have hdistance {x y m : Nat} (hx : x < 4) (hy : y < 3)
      (hm : leastSquare 4 3 features x y = some m) : out[y * 4 + x]? = some (m : Rat) := by
    rw [hvalue x hx y hy, hm]
    rfl
  refine ⟨hline f _ (by decide) (by decide) (by decide), out, hout, hsize, ?_, ?_, ?_⟩
  · exact_mod_cast hdistance (x := 1) (y := 1) (m := 2) (by decide) (by decide) (by decide)
  · exact_mod_cast hdistance (x := 3) (y := 0) (m := 4) (by decide) (by decide) (by decide)
  · exact_mod_cast hdistance (x := 2) (y := 0) (m := 4) (by decide) (by decide) (by decide)

end Typecase.Envelope
