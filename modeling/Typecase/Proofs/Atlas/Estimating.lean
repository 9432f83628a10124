import Typecase.Proofs.Atlas.Shelving

/-!
# What an estimate is worth

A packer estimates whether a number of rectangles of one size would all be placed. For rectangles
of just that size the estimate is exact (`canPack_iff_takes`). The rectangles that come may be
smaller. They are placed as well, unless they make use of room that the estimate passed by
(`takes_all_iff`).

* **Steps.** An estimate for one more rectangle places that rectangle, and estimates from there
  (`canPack_succ`).
* **Smaller rectangles.** Two packers run side by side: one places the rectangles that come, the
  other those of the full size. The first one never gets further than the second (`Precedes`): it is
  on a shelf above, which ends in time even if a rectangle of the full height comes to stand on it,
  or at most as far to the right and at most as far down. Every rectangle keeps this
  (`Precedes.pack`), with one exception.
* **The exception** is a shelf that is lower than the full height, with room on the right that is
  too narrow for the full width. The estimate turns to a new shelf at once. A narrower rectangle
  still fits on the old one, and raises it, so that all shelves below start lower than estimated.
  The worst that can come is a rectangle of the full height that fills the old shelf up.
-/

namespace Typecase

namespace Shelf

variable {s a e : Shelf} {w w' k k' count : Nat} {sizes : List (Nat × Nat)}

/-! ### Steps -/

theorem wrap_of_le (h : s.cursorX + w ≤ s.width) : s.wrap w = s := if_neg (Nat.not_lt.mpr h)

theorem wrap_of_lt (h : s.width < s.cursorX + w) :
    s.wrap w = { s with cursorX := 0, cursorY := s.cursorY + s.rowHeight, rowHeight := 0 } :=
  if_pos h

/-- A rectangle is placed where it fits. -/
theorem pack_of_fits (hs : s.full = false) (hw : w ≤ s.width)
    (hk : (s.wrap w).cursorY + k ≤ s.height) :
    s.pack w k = (some ⟨(s.wrap w).cursorX, (s.wrap w).cursorY, w, k⟩,
      { s.wrap w with
        cursorX := (s.wrap w).cursorX + w, rowHeight := max (s.wrap w).rowHeight k }) := by
  rw [pack_eq, if_neg (by rw [hs]; exact Bool.false_ne_true), if_neg (by omega)]

/-- Only a rectangle that fits is placed. -/
theorem fits_of_pack (h : (s.pack w k).1.isSome = true) :
    s.full = false ∧ w ≤ s.width ∧ (s.wrap w).cursorY + k ≤ s.height := by
  rw [pack_eq] at h
  split at h
  · contradiction
  · rename_i hs
    split at h
    · contradiction
    · rename_i hfit
      obtain ⟨hk, hw⟩ := not_or.mp hfit
      exact ⟨Bool.eq_false_iff.mpr hs, Nat.le_of_not_lt hw, Nat.le_of_not_lt hk⟩

/-- **An estimate looks one rectangle ahead**, and goes on from there. -/
theorem canPack_succ (s : Shelf) (count w k : Nat) : s.canPack (count + 1) w k =
    ((s.pack w k).1.isSome && (s.pack w k).2.canPack count w k) := by
  cases hp : (s.pack w k).1.isSome with
  | false =>
    rw [Bool.false_and, canPack]
    split
    · rfl
    · rename_i hguard
      obtain ⟨hs, hw⟩ : s.full = false ∧ w ≤ s.width := by simpa using hguard
      have hk : ¬(s.wrap w).cursorY + k ≤ s.height := fun hk => by
        rw [pack_of_fits hs hw hk] at hp
        contradiction
      rw [hasRoomFrom]
      split
      · rename_i hwrap
        rw [wrap_of_lt hwrap] at hk
        exact if_pos (by simpa using hk)
      · rename_i hwrap
        rw [wrap_of_le (Nat.le_of_not_lt hwrap)] at hk
        exact if_pos (Nat.lt_of_not_le hk)
  | true =>
    obtain ⟨hs, hw, hk⟩ := fits_of_pack hp
    have hguard : ¬(s.full || decide (s.width < w)) = true := by simpa [hs] using hw
    have hfull : (s.wrap w).full = false := (full_wrap s w).trans hs
    rw [Bool.true_and, pack_of_fits hs hw hk, canPack, if_neg hguard, canPack]
    simp only [hfull, width_wrap, height_wrap]
    rw [if_neg (by simpa using hw), hasRoomFrom]
    split
    · rename_i hwrap
      rw [wrap_of_lt hwrap] at hk ⊢
      rw [if_neg (Nat.not_lt.mpr hk), Nat.zero_add, Nat.zero_max]
    · rename_i hwrap
      rw [wrap_of_le (Nat.le_of_not_lt hwrap)] at hk ⊢
      rw [if_neg (Nat.not_lt.mpr hk)]

/-- Whether all rectangles of the given sizes are placed. -/
def Takes (s : Shelf) (sizes : List (Nat × Nat)) : Prop :=
  ∀ answer ∈ (s.packAll sizes).1, answer.isSome = true

instance (s : Shelf) (sizes : List (Nat × Nat)) : Decidable (s.Takes sizes) :=
  inferInstanceAs (Decidable (∀ answer ∈ (s.packAll sizes).1, answer.isSome = true))

theorem takes_nil (s : Shelf) : s.Takes [] := fun answer h => by contradiction

theorem takes_cons_iff {size : Nat × Nat} {rest : List (Nat × Nat)} : s.Takes (size :: rest) ↔
    (s.pack size.1 size.2).1.isSome = true ∧ (s.pack size.1 size.2).2.Takes rest := by
  rw [Takes, packAll_cons]
  exact List.forall_mem_cons

/-- If rectangles of the full size are all placed, then the estimate says so. -/
theorem canPack_of_takes (h : s.Takes (List.replicate count (w, k))) :
    s.canPack count w k = true := by
  induction count generalizing s with
  | zero => exact canPack_zero s w k
  | succ count ih =>
    rw [List.replicate_succ] at h
    obtain ⟨hfirst, hrest⟩ := takes_cons_iff.mp h
    rw [canPack_succ, hfirst, ih hrest]
    rfl

/-- If the estimate says so, then rectangles of the full size are all placed. -/
theorem takes_of_canPack (h : s.canPack count w k = true) :
    s.Takes (List.replicate count (w, k)) := by
  induction count generalizing s with
  | zero => exact takes_nil s
  | succ count ih =>
    rw [canPack_succ, Bool.and_eq_true] at h
    obtain ⟨hfirst, hrest⟩ := h
    rw [List.replicate_succ]
    exact takes_cons_iff.mpr ⟨hfirst, ih hrest⟩

/-- **An estimate foretells the packing of equal rectangles**, from every state of a packer: those
that it gets into, and all others. The estimate is true if and only if that number of rectangles of
that size, asked for one after the other from that state, are all placed. A full packer, and one
narrower than the rectangles, promise none. -/
theorem canPack_iff_takes (s : Shelf) (count w k : Nat) :
    s.canPack count w k = true ↔ s.Takes (List.replicate count (w, k)) :=
  ⟨takes_of_canPack, canPack_of_takes⟩

/-! ### Smaller rectangles -/

/-- The packer `a` has got no further than `e`, as far as rectangles of height at most `k` are
concerned. -/
structure Precedes (k : Nat) (a e : Shelf) : Prop where
  width : a.width = e.width
  height : a.height = e.height
  going : a.full = false
  position : a.cursorY + max a.rowHeight k ≤ e.cursorY ∨
    a.cursorX ≤ e.cursorX ∧ a.cursorY ≤ e.cursorY ∧
      a.cursorY + a.rowHeight ≤ e.cursorY + e.rowHeight

/-- The estimate does not pass by any room on the current shelf of `e` that a rectangle of width
`w'` could use on the current shelf of `a`, or the shelf of `e` is not raised by such use. -/
def IsThrifty (a e : Shelf) (w k w' : Nat) : Prop :=
  e.cursorX + w ≤ e.width ∨ k ≤ e.rowHeight ∨ a.width < a.cursorX + w'

theorem Precedes.wrap (h : Precedes k a e) (hthrifty : IsThrifty a e w k w') (hw : w' ≤ w) :
    Precedes k (a.wrap w') (e.wrap w) := by
  obtain ⟨hwidth, hheight, hgoing, hposition⟩ := h
  rw [IsThrifty] at hthrifty
  rcases Nat.lt_or_ge e.width (e.cursorX + w) with hewrap | hewrap <;>
    rcases Nat.lt_or_ge a.width (a.cursorX + w') with hawrap | hawrap
  · rw [wrap_of_lt hewrap, wrap_of_lt hawrap]
    refine ⟨hwidth, hheight, hgoing, .inr ⟨Nat.le_refl 0, ?_⟩⟩
    dsimp only
    omega
  · -- the shelf of `a` may still be raised, to a height that the shelf of `e` has already
    rw [wrap_of_lt hewrap, wrap_of_le hawrap]
    refine ⟨hwidth, hheight, hgoing, .inl ?_⟩
    dsimp only
    omega
  · rw [wrap_of_le hewrap, wrap_of_lt hawrap]
    refine ⟨hwidth, hheight, hgoing, .inr ⟨Nat.zero_le _, ?_⟩⟩
    dsimp only
    omega
  · rw [wrap_of_le hewrap, wrap_of_le hawrap]
    exact ⟨hwidth, hheight, hgoing, hposition⟩

theorem Precedes.place (h : Precedes k a e) (hroom : e.cursorY + k ≤ e.height) (hw : w' ≤ w)
    (hk : k' ≤ k) : a.cursorY + k' ≤ a.height ∧
      Precedes k { a with cursorX := a.cursorX + w', rowHeight := max a.rowHeight k' }
        { e with cursorX := e.cursorX + w, rowHeight := max e.rowHeight k } := by
  obtain ⟨hwidth, hheight, hgoing, hposition⟩ := h
  constructor
  · omega
  · refine ⟨hwidth, hheight, hgoing, ?_⟩
    dsimp only
    omega

/-- **A smaller rectangle gets no further than one of the full size.** -/
theorem Precedes.pack (h : Precedes k a e) (hthrifty : IsThrifty a e w k w')
    (he : (e.pack w k).1.isSome = true) (hw : w' ≤ w) (hk : k' ≤ k) :
    (a.pack w' k').1.isSome = true ∧ Precedes k (a.pack w' k').2 (e.pack w k).2 ∧
      k ≤ (e.pack w k).2.rowHeight := by
  obtain ⟨hefull, hewidth, heheight⟩ := fits_of_pack he
  obtain ⟨hroom, hnext⟩ := (h.wrap hthrifty hw).place (by rwa [height_wrap]) hw hk
  have hfits : w' ≤ a.width := h.width ▸ Nat.le_trans hw hewidth
  rw [height_wrap] at hroom
  rw [pack_of_fits h.going hfits hroom, pack_of_fits hefull hewidth heheight]
  exact ⟨rfl, hnext, Nat.le_max_right _ _⟩

/-- **What the estimate foretells for one packer comes true for another** that has got no
further. -/
theorem Precedes.takes (h : Precedes k a e) (hhigh : e.cursorX + w ≤ e.width ∨ k ≤ e.rowHeight)
    (hcan : e.canPack sizes.length w k = true)
    (hsizes : ∀ size ∈ sizes, size.1 ≤ w ∧ size.2 ≤ k) : a.Takes sizes := by
  induction sizes generalizing a e with
  | nil => exact takes_nil a
  | cons size rest ih =>
    rw [List.length_cons, canPack_succ, Bool.and_eq_true] at hcan
    obtain ⟨hsize, hrest⟩ := List.forall_mem_cons.mp hsizes
    have hthrifty : IsThrifty a e w k size.1 := hhigh.imp_right .inl
    obtain ⟨hplaced, hnext, hraised⟩ := h.pack hthrifty hcan.1 hsize.1 hsize.2
    exact takes_cons_iff.mpr ⟨hplaced, ih hnext (.inr hraised) hcan.2 hrest⟩

/-! ### The exception -/

/-- The packer once a rectangle of height `k` fills up the current shelf. -/
def fillUp (s : Shelf) (k : Nat) : Shelf := (s.pack (s.width - s.cursorX) k).2

/-- An estimate for rectangles of width `w` and height `k` passes by no room on the current shelf
that could be used to raise it; or it comes out the same when one of the rectangles fills it up. -/
def IsReliable (s : Shelf) (count w k : Nat) : Prop :=
  s.cursorX + w ≤ s.width ∨ k ≤ s.rowHeight ∨ (s.fillUp k).canPack (count - 1) w k = true

theorem precedes_refl (hs : s.full = false) (k : Nat) : Precedes k s s :=
  ⟨rfl, rfl, hs, .inr ⟨Nat.le_refl _, Nat.le_refl _, Nat.le_refl _⟩⟩

/-- A rectangle that still goes on the current shelf gets no further than one that fills it up. -/
theorem precedes_fillUp (hs : s.full = false) (hroom : s.cursorY + s.rowHeight + k ≤ s.height)
    (hfits : s.cursorX + w' ≤ s.width) (hk : k' ≤ k) :
    (s.pack w' k').1.isSome = true ∧ Precedes k (s.pack w' k').2 (s.fillUp k) ∧
      k ≤ (s.fillUp k).rowHeight := by
  have hwrap : s.cursorX + (s.width - s.cursorX) ≤ s.width := by omega
  have hfill : (s.pack (s.width - s.cursorX) k).1.isSome = true := by
    rw [pack_of_fits hs (by omega) (by rw [wrap_of_le hwrap]; omega)]
    rfl
  exact (precedes_refl hs k).pack (.inl hwrap) hfill (by omega) hk

/-- A reliable estimate comes true. -/
theorem IsReliable.takes (h : s.IsReliable sizes.length w k)
    (hcan : s.canPack sizes.length w k = true)
    (hsizes : ∀ size ∈ sizes, size.1 ≤ w ∧ size.2 ≤ k) : s.Takes sizes := by
  cases sizes with
  | nil => exact takes_nil s
  | cons size rest =>
    have hsteps := hcan
    rw [List.length_cons, canPack_succ, Bool.and_eq_true] at hsteps
    obtain ⟨hfirst, hcan'⟩ := hsteps
    obtain ⟨hs, -, hroom⟩ := fits_of_pack hfirst
    obtain ⟨hsize, hrest⟩ := List.forall_mem_cons.mp hsizes
    by_cases hhigh : s.cursorX + w ≤ s.width ∨ k ≤ s.rowHeight
    · exact (precedes_refl hs k).takes hhigh hcan hsizes
    · obtain ⟨hnarrow, hlow⟩ := not_or.mp hhigh
      have hfill : (s.fillUp k).canPack rest.length w k = true :=
        (h.resolve_left hnarrow).resolve_left hlow
      refine takes_cons_iff.mpr ?_
      rcases Nat.lt_or_ge s.width (s.cursorX + size.1) with hwrap | hwrap
      · -- the first rectangle starts a new shelf, as in the estimate
        obtain ⟨hplaced, hnext, hraised⟩ :=
          (precedes_refl hs k).pack (.inr (.inr hwrap)) hfirst hsize.1 hsize.2
        exact ⟨hplaced, hnext.takes (.inr hraised) hcan' hrest⟩
      · rw [wrap_of_lt (Nat.lt_of_not_le hnarrow)] at hroom
        obtain ⟨hplaced, hnext, hraised⟩ := precedes_fillUp hs hroom hwrap hsize.2
        exact ⟨hplaced, hnext.takes (.inr hraised) hfill hrest⟩

/-- **An estimate is worth as much as its reliability.** After any rectangles were asked for, all
rectangles up to a size are placed, however many smaller ones there are among them, if and only if
the estimate for their number in the full size says so and is reliable: the full width still fits on
the current shelf, or this shelf has the full height already, or the estimate stays the same when
one of the rectangles fills up the current shelf.

The sums of places and sizes are taken to fit into numbers of thirty-two bits. Where they wrap around
instead, a height close to the largest number looks small, and is estimated to fit. -/
theorem takes_all_iff (width height : Nat) (before : List (Nat × Nat)) (count w k : Nat) :
    let s : Shelf := ((empty width height).packAll before).2
    (∀ sizes : List (Nat × Nat), sizes.length = count →
      (∀ size ∈ sizes, size.1 ≤ w ∧ size.2 ≤ k) → s.Takes sizes) ↔
    s.canPack count w k = true ∧ s.IsReliable count w k := by
  intro s
  have hcursor : s.cursorX ≤ s.width := ((isInBounds_empty width height).packAll before).cursor
  constructor
  · intro h
    have hfull (n : Nat) : ∀ size ∈ List.replicate n (w, k), size.1 ≤ w ∧ size.2 ≤ k :=
      fun size hsize => List.eq_of_mem_replicate hsize ▸ ⟨Nat.le_refl w, Nat.le_refl k⟩
    refine ⟨canPack_of_takes (h _ List.length_replicate (hfull count)), ?_⟩
    by_cases hnarrow : s.cursorX + w ≤ s.width
    · exact .inl hnarrow
    refine .inr (.inr ?_)
    cases count with
    | zero => exact canPack_zero _ w k
    | succ n =>
      -- the worst case: one rectangle fills up the shelf, and the others have the full size
      have hworst := h ((s.width - s.cursorX, k) :: List.replicate n (w, k)) (by simp)
        (List.forall_mem_cons.mpr ⟨⟨by omega, Nat.le_refl k⟩, hfull n⟩)
      exact canPack_of_takes (takes_cons_iff.mp hworst).2
  · rintro ⟨hcan, hreliable⟩ sizes rfl hsizes
    exact hreliable.takes hcan hsizes

/-- A rectangle of the full height fills up the low shelf beside the first rectangle, and the two
that are left still share the next shelf, so that the estimate for three is reliable. -/
theorem takes_all_beside_low :
    let s := ((empty 10 7).packAll [(6, 1)]).2
    (s.canPack 3 5 3 = true ∧ s.IsReliable 3 5 3) ∧ s.Takes [(4, 3), (5, 3), (5, 2)] := by
  intro s
  have hestimate : s.canPack 3 5 3 = true ∧ s.IsReliable 3 5 3 :=
    ⟨by decide, .inr (.inr (by decide))⟩
  have hall := (takes_all_iff 10 7 [(6, 1)] 3 5 3).mpr hestimate
  exact ⟨hestimate, hall [(4, 3), (5, 3), (5, 2)] rfl (by decide)⟩

/-- **An estimate can be too good.** A low rectangle has left room for four more columns. The
estimate for two squares of side five starts a new shelf for both of them. But a rectangle that is
one column narrower goes beside the low one and raises its shelf, and then no square fits below. -/
theorem not_takes_of_canPack :
    ¬∀ (width height : Nat) (before : List (Nat × Nat)) (count w k : Nat),
      ((empty width height).packAll before).2.canPack count w k = true →
        ∀ sizes : List (Nat × Nat), sizes.length = count →
          (∀ size ∈ sizes, size.1 ≤ w ∧ size.2 ≤ k) →
            ((empty width height).packAll before).2.Takes sizes := by
  intro h
  exact absurd (h 10 6 [(6, 1)] 2 5 5 (by decide) [(4, 5), (5, 5)] rfl (by decide)) (by decide)

end Shelf

end Typecase
