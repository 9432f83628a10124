/-!
# Unicode blocks

A block is a named inclusive range of code points, and membership `c ∈ b` is lying in the
range. Blocks are the unit in which the coverage of fonts is weighed.

A list of blocks can be searched by bisection when it is *ordered*: every block starts at or
before its end and after the end of the block before it. `Block.IsOrdered` says so for a whole
list; `Block.looksOrdered` is the quicker test of neighbouring pairs, and `Block.greedy` keeps
what fits when the blocks are taken from left to right. `Block.arrange` combines them: a list
that passes the quick test is kept as it is, any other is filtered.
-/

namespace Typecase

/-- The largest value of a thirty-two bit counter. -/
def counterLimit : Nat := 0xFFFFFFFF

/-- The last code point of Unicode. -/
def lastCodePoint : Nat := 0x10FFFF

/-- A named inclusive range of code points. -/
structure Block where
  name : String
  first : Nat
  last : Nat
  deriving DecidableEq, Repr

namespace Block

instance : Membership Nat Block where
  mem b c := b.first ≤ c ∧ c ≤ b.last

theorem mem_iff {b : Block} {c : Nat} : c ∈ b ↔ b.first ≤ c ∧ c ≤ b.last := Iff.rfl

instance (b : Block) (c : Nat) : Decidable (c ∈ b) :=
  inferInstanceAs (Decidable (b.first ≤ c ∧ c ≤ b.last))

/-- The number of code points in the block, held at the counter limit. A range that ends
before it starts counts as one code point. -/
def size (b : Block) : Nat := min counterLimit (b.last - b.first + 1)

/-- Every block starts at or before its end and after the end of the block before it. -/
def IsOrdered (blocks : List Block) : Prop :=
  (∀ b ∈ blocks, b.first ≤ b.last) ∧ blocks.Pairwise fun a b => a.last < b.first

/-- The quick test for order: in every neighbouring pair the first block is not inverted and
ends before the second starts. The last block is not looked at on its own. -/
def looksOrdered : List Block → Bool
  | a :: b :: rest => a.first ≤ a.last && a.last < b.first && looksOrdered (b :: rest)
  | _ => true

/-- The outcome of arranging a list: the blocks kept and the blocks dropped, each in order. -/
structure Arrangement where
  kept : List Block
  dropped : List Block
  deriving DecidableEq, Repr

/-- Whether a block can follow `previous` in an ordered list. -/
def mayFollow (previous : Option Block) (b : Block) : Bool :=
  b.first ≤ b.last && previous.all fun p => p.last < b.first

/-- Keeps, from left to right, every block that can follow the last block kept. -/
def greedy (previous : Option Block) : List Block → Arrangement
  | [] => ⟨[], []⟩
  | b :: rest =>
    if mayFollow previous b then
      let r := greedy (some b) rest
      { r with kept := b :: r.kept }
    else
      let r := greedy previous rest
      { r with dropped := b :: r.dropped }

/-- A list that passes the quick test is kept whole; any other is filtered greedily. -/
def arrange (blocks : List Block) : Arrangement :=
  if looksOrdered blocks then ⟨blocks, []⟩ else greedy none blocks

/-! ### Bisection -/

/-- Bisects the positions `start, …, start + size - 1` for the place where `below` stops
holding, halving the range until one position is left. -/
def bisect (below : Nat → Bool) (start size : Nat) : Nat :=
  if size ≤ 1 then
    if size = 1 ∧ below start then start + 1 else start
  else
    bisect below (if below (start + size / 2) then start + size / 2 else start) (size - size / 2)
termination_by size

/-- The position of the block that has the code point, found by bisecting on the ends of the
blocks. -/
def find? (blocks : List Block) (code : Nat) : Option Nat :=
  let i := bisect (fun i => blocks[i]?.any fun b => b.last < code) 0 blocks.length
  if blocks[i]?.any fun b => code ∈ b then some i else none

/-- The position of the first block that has the code point, found by trying one block after
the other. -/
def scan? (blocks : List Block) (code : Nat) : Option Nat :=
  blocks.findIdx? fun b => code ∈ b

example : bisect (fun i => i < 3) 0 5 = 3 := by decide +kernel
example : bisect (fun i => i < 3) 0 0 = 0 := by decide +kernel

theorem mem_of_find? {blocks : List Block} {code i : Nat} (h : find? blocks code = some i) :
    ∃ b, blocks[i]? = some b ∧ code ∈ b := by
  simp only [find?] at h
  split at h
  · rename_i hb
    obtain rfl := Option.some.inj h
    simpa [Option.any_eq_true] using hb
  · contradiction

end Block

end Typecase
