import Typecase.Buffer.Strip

/-!
# Buffer pools

Glyph pictures come in a handful of recurring sizes, so the buffers given back are kept and
handed out again. A `Pool` keeps them on shelves, one shelf per exact size and at most
`Pool.shelfLimit` buffers on each; the buffer put back last is handed out first.

The kept buffers still hold their old bytes. `reserve` clears what it hands out, and nothing
else does: that reuse cannot be seen in the bytes is a theorem about the pool, not part of
its representation.
-/

namespace Typecase

/-- The free buffers of each size, the one put back last in front. -/
structure Pool where
  shelves : List (Nat × List Bytes)
  deriving DecidableEq, Repr

namespace Pool

/-- The number of free buffers kept per size. -/
def shelfLimit : Nat := 32

/-- A pool without free buffers. -/
def empty : Pool := ⟨[]⟩

/-- The free buffers filed under a size. -/
def shelf (p : Pool) (size : Nat) : List Bytes := (p.shelves.lookup size).getD []

/-- Replaces one shelf in a list of shelves, adding it at the end if it is new. -/
def replaceIn (size : Nat) (buffers : List Bytes) :
    List (Nat × List Bytes) → List (Nat × List Bytes)
  | [] => [(size, buffers)]
  | s :: rest =>
    if s.1 = size then (size, buffers) :: rest else s :: replaceIn size buffers rest

/-- Replaces the shelf of a size. -/
def setShelf (p : Pool) (size : Nat) (buffers : List Bytes) : Pool :=
  ⟨replaceIn size buffers p.shelves⟩

/-- Takes a cleared buffer of `size` bytes from its shelf, or makes a new one. -/
def reserve (p : Pool) (size : Nat) : Bytes × Pool :=
  match p.shelf size with
  | [] => (Array.replicate size 0, p)
  | b :: rest => (b.map fun _ => 0, p.setShelf size rest)

/-- Puts a buffer back on the shelf of its size, unless the shelf is full. -/
def release (p : Pool) (b : Bytes) : Pool :=
  if (p.shelf b.size).length < shelfLimit then p.setShelf b.size (b :: p.shelf b.size) else p

/-- Reserves a second buffer of the same size and copies the bytes into it. -/
def copy (p : Pool) (b : Bytes) : Bytes × Pool :=
  let (c, p) := p.reserve b.size
  (Strip.lay c ⟨0, b.toList⟩, p)

/-- The number of free buffers on all shelves. -/
def freeCount (p : Pool) : Nat := p.shelves.foldr (fun s n => s.2.length + n) 0

/-- The text that describes a pool. -/
def describe (p : Pool) : String := "BufferPool \x7b free: " ++ toString p.freeCount ++ " \x7d"

/-- The text that describes a buffer of a pool. -/
def describeBuffer (b : Bytes) : String :=
  "PooledBuffer \x7b len: " ++ toString b.size ++ ", .. \x7d"

/-! ### Shelves -/

@[simp] theorem shelf_empty (size : Nat) : empty.shelf size = [] := rfl

theorem lookup_replaceIn (size : Nat) (buffers : List Bytes) (shelves : List (Nat × List Bytes))
    (n : Nat) : (replaceIn size buffers shelves).lookup n =
      if n = size then some buffers else shelves.lookup n := by
  induction shelves with
  | nil =>
    by_cases h : n = size
    · simp [replaceIn, h]
    · have hb : (n == size) = false := by simpa using h
      simp [replaceIn, List.lookup_cons, h, hb]
  | cons s rest ih =>
    obtain ⟨m, l⟩ := s
    by_cases hm : m = size
    · by_cases h : n = size
      · simp [replaceIn, hm, h]
      · have hb : (n == size) = false := by simpa using h
        simp [replaceIn, List.lookup_cons, hm, h, hb]
    · rw [replaceIn, if_neg hm, List.lookup_cons, List.lookup_cons, ih]
      by_cases h : n = size
      · have hb : (n == m) = false := by simpa [h] using fun e : size = m => hm e.symm
        simp only [hb, if_pos h]
      · simp only [if_neg h]

@[simp] theorem shelf_setShelf (p : Pool) (size : Nat) (buffers : List Bytes) (n : Nat) :
    (p.setShelf size buffers).shelf n = if n = size then buffers else p.shelf n := by
  rw [shelf, setShelf, lookup_replaceIn]
  split <;> rfl

end Pool

end Typecase
