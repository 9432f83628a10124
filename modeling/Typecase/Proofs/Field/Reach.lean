import Mathlib.Logic.Basic
import Typecase.Field.Distance
import Typecase.Proofs.Buffer.Rows

/-!
# Places in reach

In any arithmetic the transform of a line reads and writes within its arrays, and comes to an end
(`exists_transform_of_inReach`); so does the transform of a grid
(`exists_squaredDistances`). Nothing is asked of the operations but that no position of a line lies
behind `far` (`IsInReach`). Sums, quotients and comparisons may give anything, as those of floating
point numbers do when they are not finite.

* **The first pass** enters one parabola for each position and only ever leaves parabolas out, so
  that their number is smaller than that of the positions read (`IsLaid.exists_extend`).
* **The second pass** goes on to the next parabola while that begins before the position. The place
  that follows the last one is `far`, and stops it (`IsLaid.exists_advance`).
-/

namespace Typecase.Envelope

open GridNumber

/-! ### Loops that cannot fail -/

/-- A loop whose steps all succeed, and keep an invariant, succeeds and establishes it. -/
theorem exists_foldlM_range' {σ : Type} {g : σ → Nat → Option σ} {P : Nat → σ → Prop} {m n : Nat}
    (hstep : ∀ i, m ≤ i → i < m + n → ∀ t, P i t → ∃ t', g t i = some t' ∧ P (i + 1) t') {t : σ}
    (h : P m t) : ∃ t', (List.range' m n).foldlM g t = some t' ∧ P (m + n) t' := by
  induction n with
  | zero => exact ⟨t, rfl, h⟩
  | succ n ih =>
    obtain ⟨t', hbefore, ht'⟩ := ih fun i hi hlt => hstep i hi (by omega)
    obtain ⟨t'', hlast, ht''⟩ := hstep (m + n) (by omega) (by omega) t' ht'
    refine ⟨t'', ?_, ht''⟩
    rw [List.range'_1_concat, List.foldlM_append, hbefore, Option.bind_eq_bind, Option.bind_some,
      List.foldlM_cons, hlast]
    rfl

theorem exists_foldlM_range {σ : Type} {g : σ → Nat → Option σ} {P : Nat → σ → Prop} {n : Nat}
    (hstep : ∀ i < n, ∀ t, P i t → ∃ t', g t i = some t' ∧ P (i + 1) t') {t : σ} (h : P 0 t) :
    ∃ t', (List.range n).foldlM g t = some t' ∧ P n t' := by
  have hrange := exists_foldlM_range' (n := n) (fun i _ hi => hstep i (by omega)) h
  rwa [Nat.zero_add, ← List.range_eq_range'] at hrange

/-! ### Sizes -/

namespace Grid

variable {α : Type} {g : Grid α} {width height x y : Nat}

/-- The grid has a sample for each pixel of `columns` columns and `rows` rows. -/
structure IsSized (g : Grid α) (columns rows : Nat) : Prop where
  width : g.width = columns
  height : g.height = rows
  cells : g.cells.size = columns * rows

theorem IsSized.exists_column (h : g.IsSized width height) (hx : x < width) :
    ∃ s, g.column x = some s ∧ s.size = height ∧
      ∀ y < height, s[y]? = g.cells[y * g.width + x]? := by
  rw [column, Array.mapM_eq_foldlM_push, ← Array.foldlM_toList, Array.toList_range, h.height]
  refine exists_foldlM_range (P := fun m (s : Array α) => s.size = m ∧
    ∀ y < m, s[y]? = g.cells[y * g.width + x]?) (fun m hm s hs => ?_)
    ⟨rfl, fun y hy => absurd hy (Nat.not_lt_zero y)⟩
  obtain ⟨hsize, hcells⟩ := hs
  have hlt : m * g.width + x < g.cells.size := by
    rw [h.width, h.cells]
    exact index_lt hx hm
  refine ⟨s.push g.cells[m * g.width + x], by rw [Array.getElem?_eq_getElem hlt]; rfl,
    by rw [Array.size_push, hsize], fun y hy => ?_⟩
  rw [Array.getElem?_push]
  split
  · rename_i hlast
    rw [hlast, hsize, Array.getElem?_eq_getElem hlt]
  · exact hcells y (by omega)

theorem IsSized.setColumn (h : g.IsSized width height) (x : Nat) (s : Array α) :
    (g.setColumn x s).IsSized width height := by
  refine ⟨h.width, h.height, ?_⟩
  rw [Grid.setColumn]
  refine List.foldlRecOn (motive := fun (c : Array α) => c.size = width * height) _ _ h.cells
    fun c hc y _ => ?_
  split
  · rw [Array.size_setIfInBounds, hc]
  · exact hc

theorem IsSized.size_row (h : g.IsSized width height) (hy : y < height) :
    (g.row y).size = width := by
  have hrow : (y + 1) * width ≤ g.cells.size := by
    rw [h.cells, Nat.mul_comm width]
    exact Nat.mul_le_mul_right width hy
  rw [row, h.width, Array.size_extract, Nat.min_eq_left hrow, Nat.succ_mul,
    Nat.add_sub_cancel_left]

end Grid

/-! ### Lines -/

variable {α : Type} [GridNumber α] {f : Array α} {w : Scratch α} {k n N q : Nat}

/-- No position before `n` lies behind `far`. -/
def IsInReach (α : Type) [GridNumber α] (n : Nat) : Prop :=
  ∀ q < n, lt (far : α) (ofNat q) = false

theorem IsInReach.mono {m : Nat} (h : IsInReach α n) (hm : m ≤ n) : IsInReach α m :=
  fun q hq => h q (Nat.lt_of_lt_of_le hq hm)

/-- There is room for lines of at most `N` samples. -/
structure Scratch.HasRoom (w : Scratch α) (N : Nat) : Prop where
  vertices : N ≤ w.vertices.size
  breaks : N < w.breaks.size

theorem Scratch.hasRoom_ofLength (N : Nat) : (ofLength N : Scratch α).HasRoom N :=
  ⟨by simp [ofLength], by simp [ofLength]⟩

/-- Entering a parabola keeps the others, and puts `far` behind it. -/
theorem Scratch.HasRoom.exists_enter (hw : w.HasRoom N) (hk : k < N) (q : Nat) (s : α) :
    ∃ w', enter w k q s = some w' ∧ w'.HasRoom N ∧
      (∀ j, w'.vertices[j]? = if j = k then some q else w.vertices[j]?) ∧
      ∀ j, w'.breaks[j]? =
        if j = k + 1 then some far else if j = k then some s else w.breaks[j]? := by
  have hvertices : k < w.vertices.size := Nat.lt_of_lt_of_le hk hw.vertices
  have hbreaks : k + 1 < w.breaks.size := Nat.lt_of_le_of_lt hk hw.breaks
  refine ⟨_, if_pos ⟨hvertices, hbreaks⟩, ⟨?_, ?_⟩, fun j => ?_, fun j => ?_⟩
  · rw [Array.size_setIfInBounds]
    exact hw.vertices
  · rw [Array.size_setIfInBounds, Array.size_setIfInBounds]
    exact hw.breaks
  · rw [Array.getElem?_setIfInBounds, if_pos hvertices]
    exact if_congr eq_comm rfl rfl
  · rw [Array.getElem?_setIfInBounds, Array.size_setIfInBounds, if_pos hbreaks,
      Array.getElem?_setIfInBounds, if_pos (Nat.lt_of_succ_lt hbreaks)]
    exact if_congr eq_comm rfl (if_congr eq_comm rfl rfl)

/-- Of the first `n` parabolas those that are visible have numbers up to `k`, and `far` follows. -/
structure IsLaid (w : Scratch α) (n k : Nat) : Prop where
  number : k < n
  vertex : ∀ j ≤ k, ∃ p < n, w.vertices[j]? = some p
  last : w.breaks[k + 1]? = some far

theorem IsLaid.lt_size (h : IsLaid w n k) : k + 1 < w.breaks.size :=
  (Array.getElem?_eq_some_iff.mp h.last).1

theorem exists_crossing {p : Nat} (hq : q < f.size) (hp : p < f.size) :
    ∃ s, crossing f q p = some s := by
  rw [crossing, Array.getElem?_eq_getElem hq, Array.getElem?_eq_getElem hp]
  exact ⟨_, rfl⟩

/-- Some visible parabola is found that the one at `q` takes over from. -/
theorem IsLaid.exists_retreat (h : IsLaid w q k) (hq : q < f.size) {j : Nat} (hj : j ≤ k) :
    ∃ i ≤ j, ∃ s, retreat f w q j = some (i, s) := by
  have hbreaks := h.lt_size
  induction j with
  | zero =>
    obtain ⟨p, hp, hvertex⟩ := h.vertex 0 hj
    obtain ⟨s, hs⟩ := exists_crossing hq (Nat.lt_trans hp hq)
    refine ⟨0, Nat.le_refl 0, s, ?_⟩
    rw [retreat, hvertex, Option.bind_eq_bind, Option.bind_some, hs]
    rfl
  | succ j ih =>
    obtain ⟨p, hp, hvertex⟩ := h.vertex (j + 1) hj
    obtain ⟨s, hs⟩ := exists_crossing hq (Nat.lt_trans hp hq)
    rw [retreat, hvertex, Option.bind_eq_bind, Option.bind_some, hs, Option.bind_eq_bind,
      Option.bind_some, Array.getElem?_eq_getElem (by omega), Option.bind_some]
    split
    · obtain ⟨i, hi, found⟩ := ih (by omega)
      exact ⟨i, Nat.le_succ_of_le hi, found⟩
    · exact ⟨j + 1, Nat.le_refl _, s, rfl⟩

/-- **One more parabola** is entered. -/
theorem IsLaid.exists_extend (h : IsLaid w q k) (hq : q < f.size) (hw : w.HasRoom N)
    (hN : f.size ≤ N) :
    ∃ t, extend f (k, w) q = some t ∧ t.2.HasRoom N ∧ IsLaid t.2 (q + 1) t.1 := by
  have hnumber := h.number
  obtain ⟨i, hi, s, hretreat⟩ := h.exists_retreat hq (Nat.le_refl k)
  obtain ⟨w', henter, hroom, hvertices, hbreaks⟩ :=
    hw.exists_enter (show i + 1 < N by omega) q s
  refine ⟨(i + 1, w'), ?_, hroom, by omega, fun j hj => ?_, (hbreaks _).trans (if_pos rfl)⟩
  · rw [extend, hretreat, Option.bind_eq_bind, Option.bind_some]
    dsimp only
    rw [henter]
    rfl
  · dsimp only
    rw [hvertices]
    split
    · exact ⟨q, Nat.lt_succ_self q, rfl⟩
    · obtain ⟨p, hp, hvertex⟩ := h.vertex j (by omega)
      exact ⟨p, Nat.lt_succ_of_lt hp, hvertex⟩

/-- **The first pass** succeeds. -/
theorem Scratch.HasRoom.exists_build (hw : w.HasRoom N) (hpos : 0 < f.size) (hN : f.size ≤ N) :
    ∃ t, build f w = some t ∧ t.2.HasRoom N ∧ IsLaid t.2 f.size t.1 := by
  obtain ⟨w', henter, hroom, hvertices, hbreaks⟩ :=
    hw.exists_enter (show 0 < N by omega) 0 (neg far)
  have hfirst : IsLaid w' 1 0 := by
    refine ⟨Nat.one_pos, fun j hj => ⟨0, Nat.one_pos, ?_⟩, (hbreaks _).trans (if_pos rfl)⟩
    rw [hvertices, if_pos (Nat.le_zero.mp hj)]
  obtain ⟨t, hfold, ht⟩ := exists_foldlM_range' (m := 1) (n := f.size - 1) (g := extend f)
    (P := fun m t => t.2.HasRoom N ∧ IsLaid t.2 m t.1) (t := (0, w'))
    (fun i _ hi t ht => ht.2.exists_extend (by omega) ht.1 hN) ⟨hroom, hfirst⟩
  rw [Nat.add_sub_cancel' hpos] at ht
  refine ⟨t, ?_, ht⟩
  rw [build, henter, Option.bind_eq_bind, Option.bind_some, hfold]

/-- The second pass stops at the last visible parabola. -/
theorem IsLaid.exists_advance (h : IsLaid w n k) (hq : lt (far : α) (ofNat q) = false) {i : Nat}
    (hi : i ≤ k) : ∃ i' ≤ k, advance w.breaks q i = some i' := by
  have hsize := h.lt_size
  -- the induction is on the number of parabolas that are left
  induction hleft : k - i generalizing i with
  | zero =>
    obtain rfl : i = k := by omega
    obtain ⟨hbound, hfar⟩ := Array.getElem?_eq_some_iff.mp h.last
    refine ⟨i, Nat.le_refl i, ?_⟩
    rw [advance, dif_pos hbound, hfar, hq]
    rfl
  | succ m ih =>
    rw [advance, dif_pos (by omega)]
    split
    · exact ih (by omega) (by omega)
    · exact ⟨i, hi, rfl⟩

/-- One more position is read. -/
theorem IsLaid.exists_evaluate (h : IsLaid w f.size k) (hq : lt (far : α) (ofNat q) = false)
    {t : Nat × Array α} (ht : t.1 ≤ k) :
    ∃ t', evaluate f w t q = some t' ∧ t'.1 ≤ k ∧ t'.2.size = t.2.size + 1 := by
  obtain ⟨i, hi, hadvance⟩ := h.exists_advance hq ht
  obtain ⟨p, hp, hvertex⟩ := h.vertex i hi
  rw [evaluate, hadvance, Option.bind_eq_bind, Option.bind_some, hvertex, Option.bind_some,
    Array.getElem?_eq_getElem hp]
  exact ⟨_, rfl, hi, Array.size_push _⟩

/-- **The transform of a line** gives a value for every position. -/
theorem exists_transform_of_inReach (hw : w.HasRoom N) (hN : f.size ≤ N)
    (hreach : IsInReach α f.size) :
    ∃ d w', transform f w = some (d, w') ∧ w'.HasRoom N ∧ d.size = f.size := by
  rcases Nat.eq_zero_or_pos f.size with hempty | hpos
  · refine ⟨#[], w, ?_, hw, hempty.symm⟩
    rw [transform, if_pos (by simpa using hempty)]
  · obtain ⟨⟨k, w'⟩, hbuild, hroom, hlaid⟩ := hw.exists_build hpos hN
    obtain ⟨⟨i, d⟩, hfold, -, hsize⟩ := exists_foldlM_range (g := evaluate f w') (t := (0, #[]))
      (P := fun q t => t.1 ≤ k ∧ t.2.size = q)
      (fun q hq t ht => by
        obtain ⟨t', hevaluate, hle, hnext⟩ := hlaid.exists_evaluate (hreach q hq) ht.1
        exact ⟨t', hevaluate, hle, by rw [hnext, ht.2]⟩)
      ⟨Nat.zero_le k, rfl⟩
    refine ⟨d, w', ?_, hroom, hsize⟩
    rw [transform, if_neg (by simpa using Nat.ne_of_gt hpos), hbuild, Option.bind_eq_bind,
      Option.bind_some]
    dsimp only
    rw [hfold]
    rfl

/-! ### Grids -/

namespace Grid

variable {g : Grid α} {width height x y : Nat}

theorem IsSized.exists_sweepColumn (h : g.IsSized width height) (hw : w.HasRoom N)
    (hx : x < width) (hN : height ≤ N) (hreach : IsInReach α height) :
    ∃ t, sweepColumn (g, w) x = some t ∧ t.1.IsSized width height ∧ t.2.HasRoom N := by
  obtain ⟨s, hcolumn, hsize, -⟩ := h.exists_column hx
  obtain ⟨d, w', htransform, hroom, -⟩ :=
    exists_transform_of_inReach hw (hsize.symm ▸ hN) (hsize.symm ▸ hreach)
  refine ⟨(g.setColumn x d, w'), ?_, h.setColumn x d, hroom⟩
  rw [sweepColumn, hcolumn, Option.bind_eq_bind, Option.bind_some, htransform]
  rfl

theorem IsSized.exists_sweepRow (h : g.IsSized width height) (hw : w.HasRoom N) (hy : y < height)
    (hN : width ≤ N) (hreach : IsInReach α width) (out : Array α) :
    ∃ t, g.sweepRow (out, w) y = some t ∧ t.1.size = out.size + width ∧ t.2.HasRoom N := by
  have hrow := h.size_row hy
  obtain ⟨d, w', htransform, hroom, hd⟩ :=
    exists_transform_of_inReach hw (hrow.symm ▸ hN) (hrow.symm ▸ hreach)
  exact ⟨(out ++ d, w'), by rw [sweepRow, htransform]; rfl,
    by rw [Array.size_append, hd, hrow], hroom⟩

end Grid

/-- **The transform of a grid** gives a value for every pixel. -/
theorem exists_squaredDistances {width height : Nat} {features : Array Bool}
    (hsize : features.size = width * height) (hreach : IsInReach α (max width height)) :
    ∃ d : Array α, squaredDistances width height features = some d ∧ d.size = width * height := by
  have hwidth : width ≤ max width height := Nat.le_max_left width height
  have hheight : height ≤ max width height := Nat.le_max_right width height
  have hgrid : (featureGrid width height features : Grid α).IsSized width height :=
    ⟨rfl, rfl, (Array.size_map ..).trans hsize⟩
  obtain ⟨⟨g, w⟩, hcolumns, hg, hw⟩ := exists_foldlM_range (n := width) (g := Grid.sweepColumn)
    (t := (featureGrid width height features, Scratch.ofLength (max width height)))
    (P := fun _ (t : Grid α × Scratch α) =>
      t.1.IsSized width height ∧ t.2.HasRoom (max width height))
    (fun x hx t ht => ht.1.exists_sweepColumn ht.2 hx hheight (hreach.mono hheight))
    ⟨hgrid, Scratch.hasRoom_ofLength _⟩
  obtain ⟨⟨d, w'⟩, hrows, hd, -⟩ := exists_foldlM_range (n := height) (g := g.sweepRow)
    (t := (#[], w))
    (P := fun y (t : Array α × Scratch α) =>
      t.1.size = y * width ∧ t.2.HasRoom (max width height))
    (fun y hy t ht => by
      obtain ⟨t', hsweep, hnext, hroom⟩ :=
        hg.exists_sweepRow ht.2 hy hwidth (hreach.mono hwidth) t.1
      exact ⟨t', hsweep, by rw [hnext, ht.1, Nat.succ_mul], hroom⟩)
    ⟨(Nat.zero_mul width).symm, hw⟩
  refine ⟨d, ?_, hd.trans (Nat.mul_comm height width)⟩
  rw [squaredDistances, Grid.sweepColumns]
  change (List.foldlM Grid.sweepColumn _ (List.range width)).bind _ = _
  rw [hcolumns, Option.bind_some]
  dsimp only
  rw [Grid.sweepRows, hg.height, hrows]
  rfl

end Typecase.Envelope
