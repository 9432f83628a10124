/-!
# Choosing a font by weight

Within a block every font has a weight, and weight zero disables it. The fonts are asked for a
glyph from the largest weight down, and of several fonts with one weight only the earliest is
ever asked: each step looks for weights strictly below the one just tried.

`Choice.descend` runs the steps and records which fonts were asked. `ladder` is the same list
of fonts given outright: one rung for every distinct non-zero weight, the largest first, each
holding the earliest font with that weight.
-/

namespace Typecase

/-- The outcome of asking fonts in turn: those asked, in order, and the one that had the
glyph. -/
structure Choice where
  asked : List Nat
  font : Option Nat
  deriving DecidableEq, Repr

namespace Choice

/-- Whether a weight may still be tried: it is not zero and lies strictly below the weight
tried last, if there is one. -/
def admissible (ceiling : Option Nat) (weight : Nat) : Bool :=
  0 < weight && ceiling.all fun c => weight < c

/-- The position and the weight of the earliest font with the largest admissible weight, given
the best pair found so far and the position of the first weight in the list. -/
def heaviestFrom (ceiling : Option Nat) (best : Option (Nat × Nat)) (i : Nat) :
    List Nat → Option (Nat × Nat)
  | [] => best
  | w :: rest =>
    if admissible ceiling w && best.all fun b => b.2 < w then
      heaviestFrom ceiling (some (i, w)) (i + 1) rest
    else heaviestFrom ceiling best (i + 1) rest

/-- The position and the weight of the earliest font with the largest admissible weight. -/
def heaviest (ceiling : Option Nat) (weights : List Nat) : Option (Nat × Nat) :=
  heaviestFrom ceiling none 0 weights

theorem mem_of_heaviestFrom {ceiling : Option Nat} {best : Option (Nat × Nat)} {i : Nat}
    {weights : List Nat} {p : Nat × Nat} (h : heaviestFrom ceiling best i weights = some p) :
    best = some p ∨ (p.2 ∈ weights ∧ admissible ceiling p.2 = true) := by
  induction weights generalizing best i with
  | nil => exact .inl h
  | cons w rest ih =>
    rw [heaviestFrom] at h
    split at h
    · rename_i hw
      rcases ih h with h' | h'
      · obtain rfl := Option.some.inj h'
        simp only [Bool.and_eq_true] at hw
        exact .inr ⟨by simp, hw.1⟩
      · exact .inr ⟨by simp [h'.1], h'.2⟩
    · rcases ih h with h' | h'
      · exact .inl h'
      · exact .inr ⟨by simp [h'.1], h'.2⟩

/-- The weight found occurs in the list, is not zero and lies below the ceiling. -/
theorem admissible_of_heaviest {ceiling : Option Nat} {weights : List Nat} {p : Nat × Nat}
    (h : heaviest ceiling weights = some p) :
    p.2 ∈ weights ∧ admissible ceiling p.2 = true := by
  simpa using mem_of_heaviestFrom h

/-- An upper bound for the weights that may still be tried. -/
def bound (weights : List Nat) (ceiling : Option Nat) : Nat :=
  ceiling.getD (weights.foldr (fun w m => max w m) 0 + 1)

theorem lt_bound_of_heaviest {ceiling : Option Nat} {weights : List Nat} {p : Nat × Nat}
    (h : heaviest ceiling weights = some p) : p.2 < bound weights ceiling := by
  obtain ⟨hmem, hadm⟩ := admissible_of_heaviest h
  cases ceiling with
  | some c =>
    simp only [admissible, Option.all_some, Bool.and_eq_true, decide_eq_true_eq] at hadm
    exact hadm.2
  | none =>
    have hle : ∀ l : List Nat, p.2 ∈ l → p.2 ≤ l.foldr (fun w m => max w m) 0 := by
      intro l
      induction l with
      | nil => simp
      | cons w rest ih =>
        simp only [List.mem_cons, List.foldr_cons]
        rintro (rfl | h)
        · exact Nat.le_max_left _ _
        · exact Nat.le_trans (ih h) (Nat.le_max_right _ _)
    exact Nat.lt_succ_of_le (hle weights hmem)

/-- Asks the fonts from the largest admissible weight down until one has the glyph. -/
def descendFrom (weights : List Nat) (has : Nat → Bool) (ceiling : Option Nat) : Choice :=
  match h : heaviest ceiling weights with
  | none => ⟨[], none⟩
  | some p =>
    if has p.1 then ⟨[p.1], some p.1⟩
    else
      have := lt_bound_of_heaviest h
      let r := descendFrom weights has (some p.2)
      { r with asked := p.1 :: r.asked }
termination_by bound weights ceiling

/-- Asks the fonts of a block in the order of their weights. -/
def descend (weights : List Nat) (has : Nat → Bool) : Choice := descendFrom weights has none

/-- The earliest font with the largest weight of a block. -/
def preferred (weights : List Nat) : Option Nat := (heaviest none weights).map Prod.fst

/-- The distinct non-zero weights, the largest first. -/
def rungs (weights : List Nat) : List Nat :=
  ((weights.filter (0 < ·)).mergeSort (fun a b => b ≤ a)).eraseReps

/-- The fonts that can be asked, in order: for every distinct non-zero weight, from the largest
down, the earliest font with that weight. -/
def ladder (weights : List Nat) : List Nat := (rungs weights).map fun w => weights.idxOf w

example : ladder [5, 7, 0, 7, 9, 5] = [4, 1, 0] := by cbv
example : descend [5, 7, 0, 7, 9, 5] (· == 3) = ⟨[4, 1, 0], none⟩ := by cbv
example : descend [5, 7, 0, 7, 9, 5] (· == 1) = ⟨[4, 1], some 1⟩ := by cbv

end Choice

end Typecase
