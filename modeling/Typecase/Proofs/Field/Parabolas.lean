import Mathlib.Algebra.Order.Ring.Rat
import Mathlib.Data.Set.Operations
import Mathlib.Order.Bounds.Basic
import Mathlib.Order.Interval.Set.Defs
import Mathlib.Tactic.FieldSimp
import Mathlib.Tactic.Linarith
import Mathlib.Tactic.Ring
import Typecase.Proofs.Field.Reach

/-!
# The lower envelope of parabolas

In exact arithmetic the transform of a line gives the least height of a parabola at every position
(`exists_transform`), whatever the samples are and whatever the working space held before. No read
or write is out of bounds, and both passes come to an end.

* **Two parabolas** cross once: to the left of their crossing the left one is lower, to the right
  of it the right one (`height_le_height_iff`, `height_le_height_iff'`).
* **The envelope.** `IsEnvelope` is the invariant of the first pass: the visible parabolas begin
  where they meet their neighbours, from left to right, and everywhere one of them is as low as all
  parabolas so far. A parabola that begins at or after the place where the new one takes over
  is nowhere lower than both its left neighbour and the new one, so that it can be passed over
  (`exists_retreat`).
* **Reading.** Of the visible parabolas, the lowest at a position is the last that begins to the
  left of it (`IsEnvelope.isLeast`). The place after the last parabola lies past every line, and so
  it stops the second pass (`IsEnvelope.exists_advance`).
-/

namespace Typecase.Envelope

open GridNumber

/-! ### Two parabolas -/

variable {f d : Array Rat} {w : Scratch Rat} {n q p k N : Nat} {x s : Rat}

theorem far_eq : (far : Rat) = 10 ^ 20 := rfl

/-- The height at `x` of the parabola whose lowest point is sample `p`. -/
def height (f : Array Rat) (p : Nat) (x : Rat) : Rat := (x - p) ^ 2 + f[p]?.getD 0

/-- The place where the parabolas at `q` and `p` meet. -/
def meet (f : Array Rat) (q p : Nat) : Rat :=
  (f[q]?.getD 0 + q ^ 2 - (f[p]?.getD 0 + p ^ 2)) / (2 * q - 2 * p)

theorem crossing_eq (hq : q < f.size) (hp : p < f.size) :
    crossing f q p = some (meet f q p) := by
  rw [crossing, meet, Array.getElem?_eq_getElem hq, Array.getElem?_eq_getElem hp, pow_two, pow_two]
  rfl

/-- To the right of the place where they meet, the right one of two parabolas is the lower one. -/
theorem height_le_height_iff (h : p < q) : height f q x ≤ height f p x ↔ meet f q p ≤ x := by
  have hpos : (0 : Rat) < 2 * q - 2 * p := by
    have : (p : Rat) < q := Nat.cast_lt.mpr h
    linarith
  rw [meet, div_le_iff₀ hpos, height, height]
  constructor <;> intro hle <;> nlinarith

/-- To the left of the place where they meet, the left one of two parabolas is the lower one. -/
theorem height_le_height_iff' (h : p < q) : height f p x ≤ height f q x ↔ x ≤ meet f q p := by
  have hpos : (0 : Rat) < 2 * q - 2 * p := by
    have : (p : Rat) < q := Nat.cast_lt.mpr h
    linarith
  rw [meet, le_div_iff₀ hpos, height, height]
  constructor <;> intro hle <;> nlinarith

/-! ### The working space -/

namespace Scratch

/-- The position of visible parabola number `j`. -/
def vertex (w : Scratch Rat) (j : Nat) : Nat := w.vertices[j]?.getD 0

/-- The place where visible parabola number `j` begins. -/
def start (w : Scratch Rat) (j : Nat) : Rat := w.breaks[j]?.getD 0

/-- There is room for the envelopes of lines of at most `N` samples. -/
structure Fits (w : Scratch Rat) (N : Nat) : Prop where
  vertices : N ≤ w.vertices.size
  breaks : N + 1 ≤ w.breaks.size

theorem fits_ofLength (N : Nat) : (ofLength N : Scratch Rat).Fits N :=
  ⟨by simp [ofLength], by simp [ofLength]⟩

theorem Fits.vertex_eq (h : w.Fits N) {j : Nat} (hj : j < N) :
    w.vertices[j]? = some (w.vertex j) := by
  have hlt : j < w.vertices.size := Nat.lt_of_lt_of_le hj h.vertices
  rw [vertex, Array.getElem?_eq_getElem hlt, Option.getD_some]

theorem Fits.start_eq (h : w.Fits N) {j : Nat} (hj : j ≤ N) :
    w.breaks[j]? = some (w.start j) := by
  have hlt : j < w.breaks.size := Nat.lt_of_lt_of_le (Nat.lt_succ_of_le hj) h.breaks
  rw [start, Array.getElem?_eq_getElem hlt, Option.getD_some]

end Scratch

/-- What a working space holds once a parabola was entered. -/
structure Enters (w : Scratch Rat) (k q : Nat) (s : Rat) (w' : Scratch Rat) : Prop where
  vertex : ∀ j, w'.vertex j = if j = k then q else w.vertex j
  start : ∀ j, w'.start j = if j = k + 1 then far else if j = k then s else w.start j

theorem exists_enter (h : w.Fits N) (hk : k < N) (q : Nat) (s : Rat) :
    ∃ w', enter w k q s = some w' ∧ w'.Fits N ∧ Enters w k q s w' := by
  obtain ⟨w', henter, hroom, hvertices, hbreaks⟩ :=
    Scratch.HasRoom.exists_enter ⟨h.vertices, h.breaks⟩ hk q s
  refine ⟨w', henter, ⟨hroom.vertices, hroom.breaks⟩, fun j => ?_, fun j => ?_⟩
  · rw [Scratch.vertex, hvertices]
    split <;> rfl
  · rw [Scratch.start, hbreaks]
    split
    · rfl
    · split <;> rfl

/-! ### The envelope -/

/-- The visible ones of the first `n` parabolas are those with numbers `0` to `k`. -/
structure IsEnvelope (f : Array Rat) (w : Scratch Rat) (n k : Nat) : Prop where
  lt : k < n
  /-- They stand from left to right. -/
  vertex_lt : ∀ j < k, w.vertex j < w.vertex (j + 1)
  vertex_le : ∀ j ≤ k, w.vertex j < n
  /-- Each of them begins where it meets the one before, … -/
  start_eq : ∀ j < k, w.start (j + 1) = meet f (w.vertex (j + 1)) (w.vertex j)
  /-- … to the right of where that one begins. -/
  start_lt : ∀ j, j + 1 < k → w.start (j + 1) < w.start (j + 2)
  /-- A place past every line follows. -/
  start_last : w.start (k + 1) = far
  /-- Everywhere one of them is as low as all others. -/
  lowest : ∀ p < n, ∀ x, ∃ j ≤ k, height f (w.vertex j) x ≤ height f p x

/-- A line of one sample has a single parabola. -/
theorem isEnvelope_one {w' : Scratch Rat} (h : Enters w 0 0 s w') : IsEnvelope f w' 1 0 where
  lt := Nat.one_pos
  vertex_lt j hj := absurd hj (Nat.not_lt_zero j)
  vertex_le j hj := by
    obtain rfl := Nat.le_zero.mp hj
    rw [h.vertex, if_pos rfl]
    exact Nat.one_pos
  start_eq j hj := absurd hj (Nat.not_lt_zero j)
  start_lt j hj := absurd hj (Nat.not_lt_zero _)
  start_last := by rw [h.start, if_pos rfl]
  lowest p hp x := by
    obtain rfl : p = 0 := by omega
    exact ⟨0, Nat.le_refl 0, by rw [h.vertex, if_pos rfl]⟩

/-- **Parabolas that are passed over are nowhere needed.** The new parabola takes over from a
visible one that begins before the place where the two meet. Everywhere one of the parabolas up
to this one, or the new one, is as low as those that were passed over. -/
theorem exists_retreat (h : IsEnvelope f w q k) (hq : q < f.size) (hw : w.Fits N)
    (hN : f.size ≤ N) (j : Nat) (hj : j ≤ k) :
    ∃ i ≤ j, retreat f w q j = some (i, meet f q (w.vertex i)) ∧
      (0 < i → w.start i < meet f q (w.vertex i)) ∧
      ∀ m ≤ j, ∀ x, height f q x ≤ height f (w.vertex m) x ∨
        ∃ l ≤ i, height f (w.vertex l) x ≤ height f (w.vertex m) x := by
  have hlt := h.lt
  have hcrossing (j : Nat) (hj : j ≤ k) :
      crossing f q (w.vertex j) = some (meet f q (w.vertex j)) :=
    crossing_eq hq (Nat.lt_trans (h.vertex_le j hj) hq)
  induction j with
  | zero =>
    refine ⟨0, Nat.le_refl 0, ?_, fun hi => absurd hi (Nat.not_lt_zero 0), fun m hm x => ?_⟩
    · rw [retreat, hw.vertex_eq (by omega), Option.bind_eq_bind, Option.bind_some, hcrossing 0 hj]
      rfl
    · exact .inr ⟨m, hm, le_rfl⟩
  | succ j ih =>
    have hunfold : retreat f w q (j + 1) =
        if meet f q (w.vertex (j + 1)) ≤ w.start (j + 1) then retreat f w q j
        else some (j + 1, meet f q (w.vertex (j + 1))) := by
      rw [retreat, hw.vertex_eq (by omega), Option.bind_eq_bind, Option.bind_some,
        hcrossing (j + 1) hj, hw.start_eq (by omega)]
      simp [GridNumber.le]
    rw [hunfold]
    split
    · rename_i hover
      obtain ⟨i, hi, hretreat, hstart, hlow⟩ := ih (by omega)
      refine ⟨i, by omega, hretreat, hstart, fun m hm x => ?_⟩
      rcases Nat.lt_or_ge m (j + 1) with hmj | hmj
      · exact hlow m (by omega) x
      · obtain rfl : m = j + 1 := by omega
        -- on the left its neighbour is as low, and on the right the new one is
        rcases le_total x (w.start (j + 1)) with hx | hx
        · rw [h.start_eq j (by omega)] at hx
          have hleft := (height_le_height_iff' (f := f) (h.vertex_lt j (by omega))).mpr hx
          rcases hlow j (Nat.le_refl j) x with hnew | ⟨l, hl, hlj⟩
          · exact .inl (hnew.trans hleft)
          · exact .inr ⟨l, hl, hlj.trans hleft⟩
        · exact .inl ((height_le_height_iff (h.vertex_le (j + 1) hj)).mpr (hover.trans hx))
    · rename_i hbefore
      exact ⟨j + 1, Nat.le_refl _, rfl, fun _ => not_le.mp hbefore,
        fun m hm x => .inr ⟨m, hm, le_rfl⟩⟩

/-- **One more parabola** leaves an envelope of one more sample. -/
theorem exists_extend (h : IsEnvelope f w q k) (hq : q < f.size) (hw : w.Fits N)
    (hN : f.size ≤ N) : ∃ k' w', extend f (k, w) q = some (k', w') ∧ w'.Fits N ∧
      IsEnvelope f w' (q + 1) k' := by
  obtain ⟨i, hi, hretreat, hbefore, hlow⟩ := exists_retreat h hq hw hN k (Nat.le_refl k)
  have hlt := h.lt
  obtain ⟨w', henter, hfits, hentered⟩ :=
    exists_enter hw (k := i + 1) (by omega) q (meet f q (w.vertex i))
  refine ⟨i + 1, w', ?_, hfits, ?_⟩
  · rw [extend, hretreat, Option.bind_eq_bind, Option.bind_some]
    dsimp only
    rw [henter]
    rfl
  -- up to number `i` the working space is as before
  have hnew : w'.vertex (i + 1) = q := by rw [hentered.vertex, if_pos rfl]
  have hvertex (j : Nat) (hj : j ≤ i) : w'.vertex j = w.vertex j := by
    rw [hentered.vertex, if_neg (by omega)]
  have hstart (j : Nat) (hj : j ≤ i) : w'.start j = w.start j := by
    rw [hentered.start, if_neg (by omega), if_neg (by omega)]
  have hstartNew : w'.start (i + 1) = meet f q (w.vertex i) := by
    rw [hentered.start, if_neg (by omega), if_pos rfl]
  exact {
    lt := by omega
    vertex_lt := fun j hj => by
      rcases Nat.lt_or_ge j i with hji | hji
      · rw [hvertex j (by omega), hvertex (j + 1) (by omega)]
        exact h.vertex_lt j (by omega)
      · obtain rfl : j = i := by omega
        rw [hnew, hvertex j (Nat.le_refl j)]
        exact h.vertex_le j hi
    vertex_le := fun j hj => by
      rcases Nat.lt_or_ge i j with hij | hij
      · obtain rfl : j = i + 1 := by omega
        rw [hnew]
        exact Nat.lt_succ_self q
      · rw [hvertex j hij]
        exact Nat.lt_succ_of_lt (h.vertex_le j (by omega))
    start_eq := fun j hj => by
      rcases Nat.lt_or_ge j i with hji | hji
      · rw [hstart (j + 1) (by omega), hvertex j (by omega), hvertex (j + 1) (by omega)]
        exact h.start_eq j (by omega)
      · obtain rfl : j = i := by omega
        rw [hstartNew, hnew, hvertex j (Nat.le_refl j)]
    start_lt := fun j hj => by
      rcases Nat.lt_or_ge (j + 1) i with hji | hji
      · rw [hstart (j + 1) (by omega), hstart (j + 2) (by omega)]
        exact h.start_lt j (by omega)
      · obtain rfl : i = j + 1 := by omega
        rw [hstart (j + 1) (Nat.le_refl _), hstartNew]
        exact hbefore (Nat.succ_pos j)
    start_last := by rw [hentered.start, if_pos rfl]
    lowest := fun p hp x => by
      rcases Nat.lt_or_ge p q with hpq | hpq
      · obtain ⟨m, hm, hle⟩ := h.lowest p hpq x
        rcases hlow m hm x with hle' | ⟨l, hl, hle'⟩
        · exact ⟨i + 1, Nat.le_refl _, by rw [hnew]; exact hle'.trans hle⟩
        · exact ⟨l, by omega, by rw [hvertex l hl]; exact hle'.trans hle⟩
      · obtain rfl : p = q := by omega
        exact ⟨i + 1, Nat.le_refl _, by rw [hnew]⟩ }

/-- **The first pass** leaves the envelope of the whole line. -/
theorem exists_build (hpos : 0 < f.size) (hw : w.Fits N) (hN : f.size ≤ N) :
    ∃ k w', build f w = some (k, w') ∧ w'.Fits N ∧ IsEnvelope f w' f.size k := by
  obtain ⟨w₁, henter, hfits, hentered⟩ := exists_enter hw (k := 0) (by omega) 0 (neg far)
  obtain ⟨⟨k, w'⟩, hfold, hfits', henvelope⟩ := exists_foldlM_range' (m := 1) (n := f.size - 1)
    (g := extend f) (P := fun m t => t.2.Fits N ∧ IsEnvelope f t.2 m t.1) (t := (0, w₁))
    (fun i _ hi t ht => by
      obtain ⟨k', w', hextend, hfits', henvelope'⟩ :=
        exists_extend ht.2 (show i < f.size by omega) ht.1 hN
      exact ⟨(k', w'), hextend, hfits', henvelope'⟩)
    ⟨hfits, isEnvelope_one hentered⟩
  refine ⟨k, w', ?_, hfits', ?_⟩
  · rw [build, henter, Option.bind_eq_bind, Option.bind_some, hfold]
  · rwa [Nat.add_sub_cancel' hpos] at henvelope

/-! ### Reading -/

/-- Parabolas begin from left to right. -/
theorem IsEnvelope.start_mono (h : IsEnvelope f w n k) {i j : Nat} (hij : i ≤ j) (hj : j < k) :
    w.start (i + 1) ≤ w.start (j + 1) := by
  induction j, hij using Nat.le_induction with
  | base => exact le_rfl
  | succ j hij ih => exact (ih (by omega)).trans (h.start_lt j hj).le

/-- To the right of where it begins, a parabola is as low as all visible ones before it. -/
theorem IsEnvelope.height_le_of_start_le (h : IsEnvelope f w n k) {i : Nat} (hi : i ≤ k)
    (hx : ∀ j < i, w.start (j + 1) ≤ x) {j : Nat} (hj : j ≤ i) :
    height f (w.vertex i) x ≤ height f (w.vertex j) x := by
  induction i with
  | zero =>
    obtain rfl := Nat.le_zero.mp hj
    exact le_rfl
  | succ i ih =>
    rcases Nat.lt_or_ge i j with hij | hij
    · obtain rfl : j = i + 1 := by omega
      exact le_rfl
    · have hstart := hx i (Nat.lt_succ_self i)
      rw [h.start_eq i hi] at hstart
      have hstep := (height_le_height_iff (f := f) (h.vertex_lt i hi)).mpr hstart
      exact hstep.trans (ih (by omega) (fun l hl => hx l (by omega)) hij)

/-- To the left of where the next one begins, a parabola is as low as all visible ones after it. -/
theorem IsEnvelope.height_le_of_le_start (h : IsEnvelope f w n k) {i j : Nat}
    (hx : x ≤ w.start (i + 1)) (hij : i ≤ j) (hj : j ≤ k) :
    height f (w.vertex i) x ≤ height f (w.vertex j) x := by
  induction j, hij using Nat.le_induction with
  | base => exact le_rfl
  | succ j hij ih =>
    have hstart := hx.trans (h.start_mono hij hj)
    rw [h.start_eq j hj] at hstart
    exact (ih (by omega)).trans ((height_le_height_iff' (f := f) (h.vertex_lt j hj)).mpr hstart)

/-- **The lowest parabola** at a place is the last visible one that begins to the left of it. -/
theorem IsEnvelope.isLeast (h : IsEnvelope f w n k) {i : Nat} (hi : i ≤ k)
    (hbefore : ∀ j < i, w.start (j + 1) < x) (hafter : x ≤ w.start (i + 1)) :
    IsLeast ((fun p => height f p x) '' Set.Iio n) (height f (w.vertex i) x) := by
  refine ⟨⟨w.vertex i, h.vertex_le i hi, rfl⟩, ?_⟩
  rintro _ ⟨p, hp, rfl⟩
  obtain ⟨j, hj, hle⟩ := h.lowest p hp x
  refine le_trans ?_ hle
  rcases Nat.le_total j i with hji | hji
  · exact h.height_le_of_start_le hi (fun l hl => (hbefore l hl).le) hji
  · exact h.height_le_of_le_start hafter hji hj

theorem Scratch.Fits.advance_eq (hw : w.Fits N) {i : Nat} (hi : i < N) (q : Nat) :
    advance w.breaks q i =
      if w.start (i + 1) < q then advance w.breaks q (i + 1) else some i := by
  have hlt : i + 1 < w.breaks.size := Nat.lt_of_lt_of_le (Nat.succ_lt_succ hi) hw.breaks
  have hstart : w.breaks[i + 1] = w.start (i + 1) := by
    rw [Scratch.start, Array.getElem?_eq_getElem hlt, Option.getD_some]
  rw [advance, dif_pos hlt, hstart]
  simp [GridNumber.lt, GridNumber.ofNat]

/-- The second pass goes on until the next visible parabola does not begin to the left of the
position, and at the latest until there is none. -/
theorem IsEnvelope.exists_advance (h : IsEnvelope f w n k) (hw : w.Fits N) (hN : n ≤ N)
    (hq : q ≤ 10 ^ 20) {i : Nat} (hi : i ≤ k) (hbefore : ∀ j < i, w.start (j + 1) < q) :
    ∃ i' ≤ k, advance w.breaks q i = some i' ∧ (∀ j < i', w.start (j + 1) < q) ∧
      q ≤ w.start (i' + 1) := by
  have hlt := h.lt
  -- the induction is on the number of parabolas that are left
  induction hleft : k - i generalizing i with
  | zero =>
    obtain rfl : i = k := by omega
    have hstop : (q : Rat) ≤ w.start (i + 1) := by
      rw [h.start_last, far_eq]
      exact_mod_cast hq
    refine ⟨i, le_rfl, ?_, hbefore, hstop⟩
    rw [hw.advance_eq (by omega), if_neg (not_lt.mpr hstop)]
  | succ m ih =>
    rw [hw.advance_eq (by omega)]
    split
    · rename_i hnext
      refine ih (by omega) (fun j hj => ?_) (by omega)
      rcases Nat.lt_or_ge j i with hji | hji
      · exact hbefore j hji
      · obtain rfl : j = i := by omega
        exact hnext
    · rename_i hstop
      exact ⟨i, hi, rfl, hbefore, not_lt.mp hstop⟩

/-- The array `d` holds the least height of a parabola at every position of the line. -/
structure IsTransformOf (f d : Array Rat) : Prop where
  size : d.size = f.size
  least : ∀ q < f.size, IsLeast ((fun p => height f p q) '' Set.Iio f.size) (d[q]?.getD 0)

/-- How far the second pass has come before it reads position `q`: the visible parabolas before the
one at hand begin to the left of `q`, and the least heights up to `q` are found. -/
structure Reads (f : Array Rat) (w : Scratch Rat) (k q : Nat) (t : Nat × Array Rat) : Prop where
  le : t.1 ≤ k
  passed : ∀ j < t.1, w.start (j + 1) < q
  size : t.2.size = q
  least : ∀ q' < q, IsLeast ((fun p => height f p q') '' Set.Iio f.size) (t.2[q']?.getD 0)

/-- One more position is read. -/
theorem Reads.exists_evaluate {t : Nat × Array Rat} (ht : Reads f w k q t)
    (h : IsEnvelope f w f.size k) (hw : w.Fits N) (hN : f.size ≤ N) (hfar : f.size ≤ 10 ^ 20)
    (hq : q < f.size) : ∃ t', evaluate f w t q = some t' ∧ Reads f w k (q + 1) t' := by
  have hlt := h.lt
  obtain ⟨i, hi, hadvance, hpassed, hstop⟩ :=
    h.exists_advance hw hN (show q ≤ 10 ^ 20 by omega) ht.le ht.passed
  have hvertex := h.vertex_le i hi
  refine ⟨(i, t.2.push (height f (w.vertex i) q)), ?_, hi, fun j hj => ?_, ?_, fun q' hq' => ?_⟩
  · rw [evaluate, hadvance, Option.bind_eq_bind, Option.bind_some, hw.vertex_eq (by omega),
      Option.bind_some, Array.getElem?_eq_getElem hvertex, height,
      Array.getElem?_eq_getElem hvertex, pow_two]
    rfl
  · have hstart := hpassed j hj
    push_cast
    linarith
  · rw [Array.size_push, ht.size]
  · rw [Array.getElem?_push]
    split
    · rename_i hlast
      obtain rfl : q' = q := hlast.trans ht.size
      exact h.isLeast hi hpassed hstop
    · exact ht.least q' (by have := ht.size; omega)

/-- **The second pass** reads the least heights off the envelope of the line. -/
theorem IsEnvelope.exists_evaluate (h : IsEnvelope f w f.size k) (hw : w.Fits N)
    (hN : f.size ≤ N) (hfar : f.size ≤ 10 ^ 20) :
    ∃ i d, (List.range f.size).foldlM (evaluate f w) (0, #[]) = some (i, d) ∧
      IsTransformOf f d := by
  have hstart : Reads f w k 0 (0, #[]) :=
    ⟨Nat.zero_le k, fun j hj => absurd hj (Nat.not_lt_zero j), rfl,
      fun q hq => absurd hq (Nat.not_lt_zero q)⟩
  obtain ⟨⟨i, d⟩, hfold, hreads⟩ := exists_foldlM_range
    (fun q hq t ht => ht.exists_evaluate h hw hN hfar hq) hstart
  exact ⟨i, d, hfold, hreads.size, hreads.least⟩

/-- **The transform of a line.** -/
theorem exists_transform (hw : w.Fits N) (hN : f.size ≤ N) (hfar : f.size ≤ 10 ^ 20) :
    ∃ d w', transform f w = some (d, w') ∧ w'.Fits N ∧ IsTransformOf f d := by
  rcases Nat.eq_zero_or_pos f.size with hempty | hpos
  · refine ⟨#[], w, ?_, hw, hempty.symm, fun q hq => by omega⟩
    rw [transform, if_pos (by simpa using hempty)]
  · obtain ⟨k, w', hbuild, hfits, henvelope⟩ := exists_build hpos hw hN
    obtain ⟨i, d, hfold, htransform⟩ := henvelope.exists_evaluate hfits hN hfar
    refine ⟨d, w', ?_, hfits, htransform⟩
    rw [transform, if_neg (by simpa using Nat.ne_of_gt hpos), hbuild, Option.bind_eq_bind,
      Option.bind_some]
    dsimp only
    rw [hfold]
    rfl

end Typecase.Envelope
