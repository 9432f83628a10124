import Typecase.Coverage.Choice
import Typecase.Coverage.Override
import Typecase.Unicode.Block

/-!
# Font coverage of Unicode blocks

A `Coverage` holds, for every block kept, one weight per font: the number of code points that
the font maps in the block, unless an override decides. Fonts are added one after the other,
and a code point is then resolved by finding its block and asking the fonts of the block in
the order of their weights.

* `tally` counts the code points of a font in each block in one pass over both ascending
  lists; `hits` is the same count for one block alone.
* `weigh` applies the overrides. They matter only in blocks where the font maps a code point
  at all; a whitelist entry wins over a blacklist entry, and later fonts get the larger bonus.
* `resolve` remembers the block of the last look-up and tries it first, `resolveStateless`
  does not.
-/

namespace Typecase

namespace Coverage

/-- A block with its weights, one per font; fonts past the end of the list weigh nothing. -/
structure Row where
  block : Block
  weights : List Nat
  deriving DecidableEq, Repr

/-- Counts code points block by block, both lists being passed through once: `count` is the
number counted so far for the first block. -/
def tallyFrom (count : Nat) : List Block → List Nat → List Nat
  | [], _ => []
  | _ :: blocks, [] => count :: blocks.map fun _ => 0
  | b :: blocks, code :: codes =>
    if b.last < code then count :: tallyFrom 0 blocks (code :: codes)
    else tallyFrom (if code ∈ b then count + 1 else count) (b :: blocks) codes
termination_by blocks codes => blocks.length + codes.length

/-- The number of code points in each block, for ascending code points. -/
def tally (blocks : List Block) (codes : List Nat) : List Nat := tallyFrom 0 blocks codes

/-- The number of code points in one block. -/
def hits (b : Block) (codes : List Nat) : Nat := codes.countP fun code => code ∈ b

/-- The overrides given with a font. -/
structure Overrides where
  whitelist : List Override
  blacklist : List Override
  deriving DecidableEq, Repr

/-- The weight of the font called `name`, added as number `index`, in a block where it maps
`count > 0` code points. -/
def weigh (o : Overrides) (name : String) (index : Nat) (b : Block) (count : Nat) : Nat :=
  if o.whitelist.any (·.concerns name b.name) then min counterLimit (b.size + (index + 1))
  else if o.blacklist.any (·.concerns name b.name) then 0
  else count

/-- Enters the weight of font number `index`. Nothing is entered where the font maps no code
point. -/
def Row.enter (row : Row) (o : Overrides) (name : String) (index count : Nat) : Row :=
  if count = 0 then row
  else { row with weights :=
    row.weights.rightpad index 0 ++ [weigh o name index row.block count] }

/-- The weight of font number `font`. -/
def Row.weight (row : Row) (font : Nat) : Nat := row.weights.getD font 0

end Coverage

/-- The weights of all fonts in all blocks, and the block of the last look-up. -/
structure Coverage where
  rows : List Coverage.Row
  fontCount : Nat
  hint : Option Nat
  deriving DecidableEq, Repr

namespace Coverage

/-- The coverage of a list of blocks before any font was added. -/
def ofBlocks (blocks : List Block) : Coverage :=
  ⟨(Block.arrange blocks).kept.map fun b => ⟨b, []⟩, 0, none⟩

/-- The blocks kept. -/
def blocks (c : Coverage) : List Block := c.rows.map Row.block

/-- The weights entered for a block; a block that does not exist has none. -/
def weights (c : Coverage) (block : Nat) : List Nat := (c.rows[block]?.map Row.weights).getD []

/-- The earliest font with the largest weight in a block. -/
def preferred (c : Coverage) (block : Nat) : Option Nat := Choice.preferred (c.weights block)

/-- Adds the next font, given its code points in ascending order; gives its number as well. -/
def addFont (c : Coverage) (name : String) (codes : List Nat) (o : Overrides) : Nat × Coverage :=
  (c.fontCount,
    { c with
      rows := List.zipWith (fun row count => row.enter o name c.fontCount count) c.rows
        (tally c.blocks codes)
      fontCount := c.fontCount + 1 })

/-- Asks the fonts of a block. -/
def chooseIn (c : Coverage) (block : Nat) (has : Nat → Bool) : Choice :=
  Choice.descend (c.weights block) has

/-- Finds the font for a code point, without regard to earlier look-ups. -/
def resolveStateless (c : Coverage) (code : Nat) (has : Nat → Bool) : Choice :=
  match Block.find? c.blocks code with
  | some block => c.chooseIn block has
  | none => ⟨[], none⟩

/-- The remembered block, if it has the code point. -/
def hinted? (c : Coverage) (code : Nat) : Option Nat :=
  c.hint.filter fun i => c.rows[i]?.any fun row => code ∈ row.block

/-- Finds the font for a code point, trying the remembered block first and remembering the
block found. -/
def resolve (c : Coverage) (code : Nat) (has : Nat → Bool) : Choice × Coverage :=
  match c.hinted? code with
  | some block => (c.chooseIn block has, c)
  | none =>
    match Block.find? c.blocks code with
    | some block => (c.chooseIn block has, { c with hint := some block })
    | none => (⟨[], none⟩, c)

@[simp] theorem resolve_fontCount (c : Coverage) (code : Nat) (has : Nat → Bool) :
    (c.resolve code has).2.fontCount = c.fontCount := by
  unfold resolve
  split
  · rfl
  · split <;> rfl

@[simp] theorem resolve_rows (c : Coverage) (code : Nat) (has : Nat → Bool) :
    (c.resolve code has).2.rows = c.rows := by
  unfold resolve
  split
  · rfl
  · split <;> rfl

end Coverage

end Typecase
