/-!
# Distances along a line

The squared distance transform of a line of samples `f` gives, at every position `q`, the least
value of `(q - p)² + f p` over all positions `p`. Every sample is the lowest point of a
parabola, and the least values lie on the lower envelope of these parabolas.

The envelope is built from left to right in a `Scratch`: the positions of the parabolas that
are visible so far, and the places where one gives way to the next. Each new parabola first
hides those that it crosses before they begin (`retreat`) and is then added (`extend`). A second
pass walks along the envelope and reads off the values (`evaluate`).

The scratch space is reused from line to line and may hold anything at the start. A read or
write outside the arrays is reported as `none`.

The arithmetic is left open: `GridNumber` names the operations used, which double-precision
numbers have as well as exact rational numbers.
-/

namespace Typecase

/-- The arithmetic of squared distances. -/
class GridNumber (α : Type) where
  ofNat : Nat → α
  neg : α → α
  add : α → α → α
  sub : α → α → α
  mul : α → α → α
  div : α → α → α
  le : α → α → Bool
  lt : α → α → Bool

/-- Double-precision arithmetic. -/
instance : GridNumber Float where
  ofNat := Float.ofNat
  neg x := -x
  add x y := x + y
  sub x y := x - y
  mul x y := x * y
  div x y := x / y
  le x y := x ≤ y
  lt x y := x < y

/-- Exact arithmetic. -/
instance : GridNumber Rat where
  ofNat n := n
  neg x := -x
  add x y := x + y
  sub x y := x - y
  mul x y := x * y
  div x y := x / y
  le x y := x ≤ y
  lt x y := x < y

namespace Envelope

open GridNumber

variable {α : Type} [GridNumber α]

/-- The squared distance that stands for "nothing in reach". -/
def far : α := ofNat 100000000000000000000

/-- Working space: the positions of the visible parabolas, from left to right, and the places
where each of them begins to be visible, followed by a place past every line. -/
structure Scratch (α : Type) where
  vertices : Array Nat
  breaks : Array α

/-- Working space for lines of at most `n` samples. -/
def Scratch.ofLength (n : Nat) : Scratch α :=
  ⟨Array.replicate n 0, Array.replicate (n + 1) (ofNat 0)⟩

/-- The place where the parabolas at `q` and `p` cross. -/
@[specialize] def crossing (f : Array α) (q p : Nat) : Option α := do
  let fq ← f[q]?
  let fp ← f[p]?
  let x : α := ofNat q
  let y : α := ofNat p
  return div (sub (add fq (mul x x)) (add fp (mul y y)))
    (sub (mul (ofNat 2) x) (mul (ofNat 2) y))

/-- Looks for the parabola that the one at `q` takes over from, starting with the visible
parabola number `k`. A parabola that begins at or after the crossing is passed over. Gives the
number of the parabola and the place of the crossing. -/
@[specialize] def retreat (f : Array α) (w : Scratch α) (q : Nat) : Nat → Option (Nat × α)
  | 0 => do
    let p ← w.vertices[0]?
    let s ← crossing f q p
    return (0, s)
  | k + 1 => do
    let p ← w.vertices[k + 1]?
    let s ← crossing f q p
    let z ← w.breaks[k + 1]?
    if le s z then retreat f w q k else return (k + 1, s)

/-- Enters the parabola at `q` as visible parabola number `k`, beginning at `s`. -/
def enter (w : Scratch α) (k q : Nat) (s : α) : Option (Scratch α) :=
  if k < w.vertices.size ∧ k + 1 < w.breaks.size then
    some ⟨w.vertices.setIfInBounds k q, (w.breaks.setIfInBounds k s).setIfInBounds (k + 1) far⟩
  else none

/-- Adds the parabola at `q` to an envelope whose last visible parabola has number `k`. -/
@[specialize] def extend (f : Array α) (state : Nat × Scratch α) (q : Nat) :
    Option (Nat × Scratch α) := do
  let (k, s) ← retreat f state.2 q state.1
  let w ← enter state.2 (k + 1) q s
  return (k + 1, w)

/-- Builds the envelope of a line with at least one sample. -/
@[specialize] def build (f : Array α) (w : Scratch α) : Option (Nat × Scratch α) := do
  let w ← enter w 0 0 (neg far)
  (List.range' 1 (f.size - 1)).foldlM (extend f) (0, w)

/-- Goes on from visible parabola number `k` to the one that is visible at `q`. -/
@[specialize] def advance (breaks : Array α) (q k : Nat) : Option Nat :=
  if h : k + 1 < breaks.size then
    if lt breaks[k + 1] (ofNat q) then advance breaks q (k + 1) else some k
  else none
termination_by breaks.size - k

/-- Reads the value of the envelope at `q`, having come as far as parabola number `state.1`. -/
@[specialize] def evaluate (f : Array α) (w : Scratch α) (state : Nat × Array α) (q : Nat) :
    Option (Nat × Array α) := do
  let k ← advance w.breaks q state.1
  let p ← w.vertices[k]?
  let fp ← f[p]?
  let distance : α := sub (ofNat q) (ofNat p)
  return (k, state.2.push (add (mul distance distance) fp))

/-- The squared distance transform of a line, and the scratch space it leaves. -/
@[specialize] def transform (f : Array α) (w : Scratch α) : Option (Array α × Scratch α) :=
  if f.isEmpty then some (#[], w)
  else do
    let (_, w) ← build f w
    let (_, d) ← (List.range f.size).foldlM (evaluate f w) (0, #[])
    return (d, w)

end Envelope

end Typecase
