import Typecase.Field.Envelope

/-!
# Distances in a grid

The squared distance from every pixel of a grid to the nearest feature pixel. The squared
distance is a sum over the two axes, so it is found by transforming the columns and then the
rows of the grid that is zero at the features and `far` elsewhere.

`leastSquare` is the distance by definition: the least over all feature pixels.
-/

namespace Typecase.Envelope

open GridNumber

variable {α : Type} [GridNumber α]

/-- A grid of samples, row by row. -/
structure Grid (α : Type) where
  width : Nat
  height : Nat
  cells : Array α

namespace Grid

/-- Column `x`, read from the top. -/
def column (g : Grid α) (x : Nat) : Option (Array α) :=
  (Array.range g.height).mapM fun y => g.cells[y * g.width + x]?

/-- Row `y`, read from the left. -/
def row (g : Grid α) (y : Nat) : Array α :=
  g.cells.extract (y * g.width) ((y + 1) * g.width)

/-- Replaces column `x`. -/
def setColumn (g : Grid α) (x : Nat) (cells : Array α) : Grid α :=
  { g with cells := (List.range g.height).foldl (fun c y =>
      match cells[y]? with
      | some a => c.setIfInBounds (y * g.width + x) a
      | none => c) g.cells }

/-- Transforms column `x` in place. -/
@[specialize] def sweepColumn (state : Grid α × Scratch α) (x : Nat) :
    Option (Grid α × Scratch α) := do
  let column ← state.1.column x
  let (d, w) ← transform column state.2
  return (state.1.setColumn x d, w)

/-- Transforms every column. -/
@[specialize] def sweepColumns (g : Grid α) (w : Scratch α) : Option (Grid α × Scratch α) :=
  (List.range g.width).foldlM sweepColumn (g, w)

/-- Transforms row `y` and puts it below the rows done before. -/
@[specialize] def sweepRow (g : Grid α) (state : Array α × Scratch α) (y : Nat) :
    Option (Array α × Scratch α) := do
  let (d, w) ← transform (g.row y) state.2
  return (state.1 ++ d, w)

/-- Transforms every row. -/
@[specialize] def sweepRows (g : Grid α) (w : Scratch α) : Option (Array α) := do
  let (cells, _) ← (List.range g.height).foldlM (sweepRow g) (#[], w)
  return cells

end Grid

/-- The grid to transform: zero at the features and `far` elsewhere. -/
def featureGrid (width height : Nat) (features : Array Bool) : Grid α :=
  ⟨width, height, features.map fun isFeature => if isFeature then ofNat 0 else far⟩

/-- The squared distance from every pixel to the nearest feature. -/
@[specialize] def squaredDistances (width height : Nat) (features : Array Bool) :
    Option (Array α) := do
  let (g, w) ← (featureGrid width height features).sweepColumns
    (Scratch.ofLength (max width height))
  g.sweepRows w

/-! ### The distance by definition -/

/-- The square of the distance between two pixels. -/
def squareBetween (x y x' y' : Nat) : Nat :=
  let dx := ((x : Int) - x').natAbs
  let dy := ((y : Int) - y').natAbs
  dx * dx + dy * dy

/-- The pixels that are features. -/
def featurePixels (width height : Nat) (features : Array Bool) : List (Nat × Nat) :=
  ((List.range height).flatMap fun y => (List.range width).map fun x => (x, y)).filter
    fun p => features.getD (p.2 * width + p.1) false

/-- The least squared distance from a pixel to a feature, if there is one. -/
def leastSquare (width height : Nat) (features : Array Bool) (x y : Nat) : Option Nat :=
  ((featurePixels width height features).map fun p => squareBetween x y p.1 p.2).min?

end Typecase.Envelope
