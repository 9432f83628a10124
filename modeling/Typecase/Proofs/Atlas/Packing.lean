import Typecase.Atlas.Shelf

/-!
# What the packer reserves

`Shelf.Packed` ties the state of a packer to the rectangles that it has placed: they lie in the
texture, no two of them share a texel, and each lies above the current shelf or to the left of the
next free place on it. Placing one more rectangle keeps this (`Packed.pack`), and so does finding
no room (`Packed.refuse`).

A full packer never packs again, although it still answers that no rectangle at all would fit
(`canPack_zero`).
-/

namespace Typecase

namespace Rect

/-- No texel belongs to both rectangles. -/
def Apart (a b : Rect) : Prop := ∀ u v, a.Covers u v → ¬b.Covers u v

theorem Apart.symm {a b : Rect} (h : a.Apart b) : b.Apart a := fun u v hb ha => h u v ha hb

end Rect

namespace Shelf

variable {s : Shelf} {rects : List Rect} {w k : Nat}

/-- The rectangles lie in the texture and apart from one another, and out of the way of the next
one: above the current shelf, or on it to the left of the next free place. -/
structure Packed (s : Shelf) (rects : List Rect) : Prop where
  within : ∀ r ∈ rects, r.Within s.width s.height
  apart : rects.Pairwise Rect.Apart
  clear : ∀ r ∈ rects, r.y + r.height ≤ s.cursorY ∨
    r.x + r.width ≤ s.cursorX ∧ r.y + r.height ≤ s.cursorY + s.rowHeight

theorem packed_empty (width height : Nat) : (empty width height).Packed [] :=
  ⟨by simp, List.Pairwise.nil, by simp⟩

@[simp] theorem width_wrap (s : Shelf) (w : Nat) : (s.wrap w).width = s.width := by
  rw [wrap]
  split <;> rfl

@[simp] theorem height_wrap (s : Shelf) (w : Nat) : (s.wrap w).height = s.height := by
  rw [wrap]
  split <;> rfl

@[simp] theorem full_wrap (s : Shelf) (w : Nat) : (s.wrap w).full = s.full := by
  rw [wrap]
  split <;> rfl

/-- After wrapping, a rectangle that is no wider than the texture fits on the shelf. -/
theorem cursorX_wrap_le (h : w ≤ s.width) : (s.wrap w).cursorX + w ≤ s.width := by
  rw [wrap]
  split
  · simpa using h
  · omega

/-- A new shelf starts below every rectangle. -/
theorem Packed.wrap (h : s.Packed rects) (w : Nat) : (s.wrap w).Packed rects := by
  rw [Shelf.wrap]
  split
  · -- whatever lay on the old shelf ends above the new one
    refine ⟨h.within, h.apart, fun r hr => .inl ?_⟩
    change r.y + r.height ≤ s.cursorY + s.rowHeight
    rcases h.clear r hr with hy | ⟨-, hy⟩ <;> omega
  · exact h

/-- What packing does: nothing when the texture is full; otherwise it wraps, and places the
rectangle if it fits. -/
theorem pack_eq (s : Shelf) (w k : Nat) : s.pack w k =
    if s.full then (none, s)
    else if s.height < (s.wrap w).cursorY + k ∨ s.width < w then
      (none, { s.wrap w with full := true })
    else
      (some ⟨(s.wrap w).cursorX, (s.wrap w).cursorY, w, k⟩,
        { s.wrap w with
          cursorX := (s.wrap w).cursorX + w
          rowHeight := max (s.wrap w).rowHeight k }) := by
  simp only [pack, width_wrap, height_wrap]

@[simp] theorem width_pack (s : Shelf) (w k : Nat) : (s.pack w k).2.width = s.width := by
  rw [pack_eq]
  split
  · rfl
  · split <;> exact width_wrap s w

@[simp] theorem height_pack (s : Shelf) (w k : Nat) : (s.pack w k).2.height = s.height := by
  rw [pack_eq]
  split
  · rfl
  · split <;> exact height_wrap s w

/-- A rectangle that is placed has the size asked for, and does not fill the packer up. -/
theorem spec_of_pack_eq_some {r : Rect} (h : (s.pack w k).1 = some r) :
    r.width = w ∧ r.height = k ∧ (s.pack w k).2.full = false := by
  rw [pack_eq] at h ⊢
  split
  · rename_i hfull
    rw [if_pos hfull] at h
    contradiction
  · rename_i hfull
    rw [if_neg hfull] at h
    split
    · rename_i hfit
      rw [if_pos hfit] at h
      contradiction
    · rename_i hfit
      rw [if_neg hfit] at h
      obtain rfl := Option.some.inj h
      exact ⟨rfl, rfl, (full_wrap s w).trans (Bool.eq_false_iff.mpr hfull)⟩

/-- **Finding no room keeps everything in place.** -/
theorem Packed.refuse (h : s.Packed rects) (hp : (s.pack w k).1 = none) :
    (s.pack w k).2.Packed rects := by
  rw [pack_eq] at hp ⊢
  split
  · exact h
  · rename_i hfull
    rw [if_neg hfull] at hp
    split
    · obtain ⟨hwithin, hapart, hclear⟩ := h.wrap w
      exact ⟨hwithin, hapart, hclear⟩
    · rename_i hfit
      rw [if_neg hfit] at hp
      contradiction

/-- A rectangle at the next free place lies apart from all others if it fits there. -/
private theorem Packed.place (h : s.Packed rects) (hx : s.cursorX + w ≤ s.width)
    (hy : s.cursorY + k ≤ s.height) :
    { s with cursorX := s.cursorX + w, rowHeight := max s.rowHeight k }.Packed
      (⟨s.cursorX, s.cursorY, w, k⟩ :: rects) := by
  refine ⟨List.forall_mem_cons.mpr ⟨⟨hx, hy⟩, h.within⟩, ?_, ?_⟩
  · refine List.Pairwise.cons (fun a ha u v hnew hold => ?_) h.apart
    -- an old rectangle ends above the new one or to the left of it
    obtain ⟨⟨hxu, -⟩, hyv, -⟩ := hnew
    obtain ⟨⟨-, hua⟩, -, hva⟩ := hold
    simp only at hxu hyv
    rcases h.clear a ha with hup | ⟨hleft, -⟩ <;> omega
  · refine List.forall_mem_cons.mpr ⟨.inr ⟨Nat.le_refl _, ?_⟩, fun a ha => ?_⟩
    · exact Nat.add_le_add_left (Nat.le_max_right _ _) _
    · rcases h.clear a ha with hup | ⟨hleft, hup⟩
      · exact .inl hup
      · refine .inr ⟨Nat.le_add_right_of_le hleft, Nat.le_trans hup ?_⟩
        exact Nat.add_le_add_left (Nat.le_max_left _ _) _

/-- **A rectangle is placed apart from all others**, and has the size asked for. -/
theorem Packed.pack {r : Rect} (h : s.Packed rects) (hp : (s.pack w k).1 = some r) :
    (s.pack w k).2.Packed (r :: rects) ∧ r.width = w ∧ r.height = k := by
  rw [pack_eq] at hp ⊢
  split
  · rename_i hfull
    rw [if_pos hfull] at hp
    contradiction
  · rename_i hfull
    rw [if_neg hfull] at hp
    split
    · rename_i hfit
      rw [if_pos hfit] at hp
      contradiction
    · rename_i hfit
      rw [if_neg hfit] at hp
      obtain rfl := Option.some.inj hp
      obtain ⟨hheight, hwidth⟩ := not_or.mp hfit
      refine ⟨(h.wrap w).place ?_ ?_, rfl, rfl⟩
      · rw [width_wrap]
        exact cursorX_wrap_le (Nat.le_of_not_lt hwidth)
      · rw [height_wrap]
        exact Nat.le_of_not_lt hheight

/-- Even a full packer has room for no further rectangle. -/
@[simp] theorem canPack_zero (s : Shelf) (w k : Nat) : s.canPack 0 w k = true := by
  rw [canPack]
  split <;> rfl

end Shelf

end Typecase
