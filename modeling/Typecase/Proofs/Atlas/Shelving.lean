import Typecase.Proofs.Atlas.Packing

/-!
# A packer at work

A packer is asked for rectangles of any sizes, one after the other, and in between whether a number
of equal rectangles would fit.

* **Rectangles.** `packAll` asks for rectangles in order. The answers are rectangles first and
  refusals behind them (`Packed.packAll`): what was given lies in the texture, and apart from all
  that was given before; and the packer is full exactly when it has refused something.
* **Bounds.** Neither the next free place nor the lower edge of the current shelf ever lies outside
  the texture (`IsInBounds`). So the sums that the packer forms for a rectangle exceed the texture
  by no more than the sides of that rectangle.
* **Estimates** are answered from the packer as it is, and leave it so (`serveAll_eq`).
-/

namespace Typecase

/-- The width and the height of a rectangle. -/
def Rect.size (r : Rect) : Nat × Nat := (r.width, r.height)

namespace Shelf

variable {s : Shelf} {rects : List Rect} {w k : Nat}

/-! ### Bounds -/

/-- The next free place and the current shelf lie in the texture. -/
structure IsInBounds (s : Shelf) : Prop where
  cursor : s.cursorX ≤ s.width
  shelf : s.cursorY + s.rowHeight ≤ s.height

theorem isInBounds_empty (width height : Nat) : (empty width height).IsInBounds :=
  ⟨Nat.zero_le width, Nat.zero_le height⟩

theorem IsInBounds.wrap (h : s.IsInBounds) (w : Nat) : (s.wrap w).IsInBounds := by
  rw [Shelf.wrap]
  split
  · exact ⟨Nat.zero_le s.width, h.shelf⟩
  · exact h

theorem IsInBounds.pack (h : s.IsInBounds) (w k : Nat) : (s.pack w k).2.IsInBounds := by
  rw [pack_eq]
  split
  · exact h
  · obtain ⟨hcursor, hshelf⟩ := h.wrap w
    split
    · exact ⟨hcursor, hshelf⟩
    · rename_i hfit
      obtain ⟨hheight, hwidth⟩ := not_or.mp hfit
      have hright := cursorX_wrap_le (Nat.le_of_not_lt hwidth)
      constructor
      · rw [← width_wrap s w] at hright
        exact hright
      · rw [height_wrap] at hshelf
        simp only [height_wrap]
        omega

/-! ### Rectangles one after the other -/

/-- Asks for rectangles of the given widths and heights, in order. -/
def packAll (s : Shelf) : List (Nat × Nat) → List (Option Rect) × Shelf
  | [] => ([], s)
  | size :: rest =>
    let (answer, s) := s.pack size.1 size.2
    let (answers, s) := s.packAll rest
    (answer :: answers, s)

theorem packAll_cons (s : Shelf) (size : Nat × Nat) (rest : List (Nat × Nat)) :
    s.packAll (size :: rest) = ((s.pack size.1 size.2).1 ::
      ((s.pack size.1 size.2).2.packAll rest).1, ((s.pack size.1 size.2).2.packAll rest).2) := rfl

@[simp] theorem width_packAll (s : Shelf) (sizes : List (Nat × Nat)) :
    (s.packAll sizes).2.width = s.width := by
  induction sizes generalizing s with
  | nil => rfl
  | cons size rest ih => rw [packAll_cons, ih, width_pack]

@[simp] theorem height_packAll (s : Shelf) (sizes : List (Nat × Nat)) :
    (s.packAll sizes).2.height = s.height := by
  induction sizes generalizing s with
  | nil => rfl
  | cons size rest ih => rw [packAll_cons, ih, height_pack]

theorem IsInBounds.packAll (h : s.IsInBounds) (sizes : List (Nat × Nat)) :
    (s.packAll sizes).2.IsInBounds := by
  induction sizes generalizing s with
  | nil => exact h
  | cons size rest ih => exact ih (h.pack size.1 size.2)

/-- A full packer refuses everything, and stays as it is. -/
theorem packAll_of_full (h : s.full = true) (sizes : List (Nat × Nat)) :
    s.packAll sizes = (List.replicate sizes.length none, s) := by
  induction sizes with
  | nil => rfl
  | cons size rest ih =>
    rw [packAll_cons, pack_of_full h, ih, List.length_cons, List.replicate_succ]

/-- **Rectangles first, then refusals.** -/
theorem Packed.packAll (h : s.Packed rects) (hs : s.full = false) (sizes : List (Nat × Nat)) :
    ∃ (placed : List Rect) (refused : Nat),
      (s.packAll sizes).1 = placed.map some ++ List.replicate refused none ∧
      placed.map Rect.size <+: sizes ∧ placed.length + refused = sizes.length ∧
      (s.packAll sizes).2.Packed (placed.reverse ++ rects) ∧
      ((s.packAll sizes).2.full = true ↔ 0 < refused) := by
  induction sizes generalizing s rects with
  | nil => exact ⟨[], 0, rfl, List.nil_prefix, rfl, h, by simp [Shelf.packAll, hs]⟩
  | cons size rest ih =>
    rw [packAll_cons]
    cases hp : (s.pack size.1 size.2).1 with
    | none =>
      have hfull := full_of_pack_eq_none hp
      rw [packAll_of_full hfull]
      refine ⟨[], rest.length + 1, ?_, List.nil_prefix, Nat.zero_add _, h.refuse hp, ?_⟩
      · rw [List.replicate_succ]
        rfl
      · exact iff_of_true hfull (Nat.succ_pos _)
    | some r =>
      obtain ⟨hpacked, hwidth, hheight⟩ := h.pack hp
      obtain ⟨-, -, hopen⟩ := spec_of_pack_eq_some hp
      obtain ⟨placed, refused, hanswers, hsizes, hlength, hplaced, hfull⟩ := ih hpacked hopen
      refine ⟨r :: placed, refused, ?_, ?_, ?_, ?_, hfull⟩
      · rw [hanswers]
        rfl
      · rw [List.map_cons, List.cons_prefix_cons]
        exact ⟨Prod.ext hwidth hheight, hsizes⟩
      · rw [List.length_cons, List.length_cons, ← hlength, Nat.add_right_comm]
      · rwa [List.reverse_cons, List.append_assoc]

/-! ### Questions of both kinds -/

/-- What a packer can be asked. -/
inductive Query where
  /-- For a rectangle. -/
  | place (w k : Nat)
  /-- Whether a number of equal rectangles would be placed. -/
  | estimate (count w k : Nat)

/-- What a packer answers. -/
inductive Answer where
  /-- A rectangle, or a refusal. -/
  | placed (r : Option Rect)
  /-- Whether the rectangles would be placed. -/
  | estimated (fits : Bool)

/-- Answers one question. -/
def serve (s : Shelf) : Query → Answer × Shelf
  | .place w k => (.placed (s.pack w k).1, (s.pack w k).2)
  | .estimate count w k => (.estimated (s.canPack count w k), s)

/-- Answers questions in order. -/
def serveAll (s : Shelf) : List Query → List Answer × Shelf
  | [] => ([], s)
  | q :: rest =>
    let (answer, s) := s.serve q
    let (answers, s) := s.serveAll rest
    (answer :: answers, s)

/-- The sizes of the rectangles that are asked for, in order. -/
def sizesOf (queries : List Query) : List (Nat × Nat) :=
  queries.filterMap fun
    | .place w k => some (w, k)
    | .estimate .. => none

/-- The answers to those who asked for a rectangle, in order. -/
def grantsOf (answers : List Answer) : List (Option Rect) :=
  answers.filterMap fun
    | .placed r => some r
    | .estimated _ => none

/-- **Estimates leave no trace.** The rectangles given, and the packer afterwards, are as if nobody
had asked for an estimate. -/
theorem serveAll_eq (s : Shelf) (queries : List Query) :
    grantsOf (s.serveAll queries).1 = (s.packAll (sizesOf queries)).1 ∧
      (s.serveAll queries).2 = (s.packAll (sizesOf queries)).2 := by
  induction queries generalizing s with
  | nil => exact ⟨rfl, rfl⟩
  | cons q rest ih =>
    cases q with
    | place w k =>
      obtain ⟨hgrants, hs⟩ := ih (s.pack w k).2
      exact ⟨congrArg ((s.pack w k).1 :: ·) hgrants, hs⟩
    | estimate count w k => exact ih s

/-- **What a packer gives lies apart.** A new packer is asked for rectangles of any sizes, and for
estimates in between. It gives rectangles of the sizes asked for until it refuses one, and refuses
everything from then on. The rectangles lie in the texture, and no two of them share a texel. The
packer is full exactly when it has refused a rectangle; then it stays as it is, whatever it is asked
for. Its state is the one without the estimates, and its next free place and its current shelf never
leave the texture. -/
theorem packed_after_any_queries (width height : Nat) (queries : List Query) :
    let sizes := sizesOf queries
    let run := (empty width height).serveAll queries
    (∃ (rects : List Rect) (refused : Nat),
      grantsOf run.1 = rects.map some ++ List.replicate refused none ∧
      rects.map Rect.size <+: sizes ∧ rects.length + refused = sizes.length ∧
      (∀ r ∈ rects, r.Within width height) ∧ rects.Pairwise Rect.Apart ∧
      (run.2.full = true ↔ 0 < refused)) ∧
    (run.2.full = true → ∀ more, (run.2.serveAll more).2 = run.2 ∧
      ∀ answer ∈ grantsOf (run.2.serveAll more).1, answer = none) ∧
    run.2 = ((empty width height).packAll sizes).2 ∧
    run.2.cursorX ≤ width ∧ run.2.cursorY + run.2.rowHeight ≤ height := by
  intro sizes run
  obtain ⟨hgrants, hrun⟩ := serveAll_eq (empty width height) queries
  have hrun : run.2 = ((empty width height).packAll sizes).2 := hrun
  obtain ⟨hcursor, hshelf⟩ := (isInBounds_empty width height).packAll sizes
  rw [width_packAll] at hcursor
  rw [height_packAll] at hshelf
  obtain ⟨rects, refused, hanswers, hsizes, hlength, hpacked, hfull⟩ :=
    (packed_empty width height).packAll rfl sizes
  refine ⟨⟨rects, refused, hgrants.trans hanswers, hsizes, hlength, fun r hr => ?_, ?_, ?_⟩,
    fun hs more => ?_, hrun, ?_⟩
  · have hwithin := hpacked.within r (by simp [hr])
    rwa [width_packAll, height_packAll] at hwithin
  · have hapart := hpacked.apart
    rw [List.append_nil, List.pairwise_reverse] at hapart
    exact hapart.imp Rect.Apart.symm
  · rw [hrun]
    exact hfull
  · obtain ⟨hmore, hstay⟩ := serveAll_eq run.2 more
    rw [packAll_of_full hs] at hmore hstay
    refine ⟨hstay, fun answer hanswer => ?_⟩
    rw [hmore] at hanswer
    exact List.eq_of_mem_replicate hanswer
  · rw [hrun]
    exact ⟨hcursor, hshelf⟩

/-- A rectangle without texels and one of mixed height stand on the first shelf, so that the third
one goes below the taller of them. The fourth finds no room, and from then on nothing does. -/
theorem packed_after_refusal :
    let queries : List Query := [.place 0 3, .place 4 3, .estimate 2 4 5, .place 2 5, .place 3 2,
      .place 3 4, .place 1 1]
    let run := (empty 6 8).serveAll queries
    grantsOf run.1 = [some ⟨0, 0, 0, 3⟩, some ⟨0, 0, 4, 3⟩, some ⟨4, 0, 2, 5⟩, some ⟨0, 5, 3, 2⟩,
        none, none] ∧
      run.2.full = true ∧ (run.2.serveAll [.estimate 1 1 1, .place 1 1]).2 = run.2 := by
  intro queries run
  have hfull : run.2.full = true := by decide
  obtain ⟨-, hstay, -⟩ := packed_after_any_queries 6 8 queries
  exact ⟨by decide, hfull, (hstay hfull [.estimate 1 1 1, .place 1 1]).1⟩

end Shelf

end Typecase
