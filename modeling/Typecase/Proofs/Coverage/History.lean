import Typecase.Coverage.Resolver
import Typecase.Proofs.Unicode.Ordering

/-!
# Look-ups with and without memory

A coverage remembers the block of the last look-up and tries it first. `Coverage.Act` lists what
can be done to a coverage, and `Coverage.performAll` carries out acts in order; whatever was done
before, the memory cannot be seen in an answer.

* **What a look-up does.** Both ways of looking up ask the fonts of one block, or none at all:
  `blockFor?` is the block that `resolve` settles on (`resolve_eq`), and bisection gives the one
  for `resolveStateless` (`resolveStateless_eq`).
* **Where they agree.** As soon as the blocks are ordered, both blocks are the one that a linear
  scan finds (`blockFor?_eq_scan?`). The remembered block need not even be the one found last:
  a code point lies in at most one block.
* **Every history.** Acts change neither the blocks nor their order, so the agreement holds in
  every state that is reached from a list without inverted blocks (`resolve_after_any_history`).
-/

namespace Typecase

namespace Coverage

/-- Something done to a coverage. -/
inductive Act where
  | addFont (name : String) (codes : List Nat) (o : Overrides)
  | resolve (code : Nat) (has : Nat → Bool)
  | resolveStateless (code : Nat) (has : Nat → Bool)

/-- The coverage after an act. -/
def perform (c : Coverage) : Act → Coverage
  | .addFont name codes o => (c.addFont name codes o).2
  | .resolve code has => (c.resolve code has).2
  | .resolveStateless _ _ => c

/-- The coverage after acts carried out in order. -/
def performAll (c : Coverage) (acts : List Act) : Coverage := acts.foldl perform c

/-- Asks the fonts of a block, if there is one. -/
def chooseAt (c : Coverage) (block : Option Nat) (has : Nat → Bool) : Choice :=
  block.elim ⟨[], none⟩ fun i => c.chooseIn i has

/-- The block that a look-up with memory settles on. -/
def blockFor? (c : Coverage) (code : Nat) : Option Nat :=
  (c.hinted? code).or (Block.find? c.blocks code)

/-! ### The block of a look-up -/

/-- The remembered block is used only where it has the code point. -/
theorem hinted?_eq_some_iff {c : Coverage} {code i : Nat} : c.hinted? code = some i ↔
    c.hint = some i ∧ ∃ b, c.blocks[i]? = some b ∧ code ∈ b := by
  rw [hinted?, Option.filter_eq_some_iff, blocks, List.getElem?_map, Option.any_eq_true]
  refine and_congr_right fun _ => ⟨?_, ?_⟩
  · rintro ⟨row, hrow, hmem⟩
    exact ⟨row.block, by rw [hrow]; rfl, by simpa using hmem⟩
  · rintro ⟨b, hb, hmem⟩
    obtain ⟨row, hrow, rfl⟩ := Option.map_eq_some_iff.mp hb
    exact ⟨row, hrow, by simpa using hmem⟩

/-- A look-up with memory asks the fonts of its block and remembers it. -/
theorem resolve_eq (c : Coverage) (code : Nat) (has : Nat → Bool) : c.resolve code has =
    (c.chooseAt (c.blockFor? code) has, { c with hint := (c.blockFor? code).or c.hint }) := by
  rw [resolve, blockFor?]
  cases hh : c.hinted? code with
  | some i =>
    have hi : c.hint = some i := (hinted?_eq_some_iff.mp hh).1
    -- the block is remembered already
    refine Prod.ext rfl ?_
    change c = { c with hint := some i }
    rw [← hi]
  | none =>
    cases Block.find? c.blocks code with
    | some i => rfl
    | none => simp [chooseAt]

/-- A look-up that finds no block leaves the coverage as it is. -/
theorem resolve_of_miss {c : Coverage} {code : Nat} (h : c.blockFor? code = none)
    (has : Nat → Bool) : c.resolve code has = (⟨[], none⟩, c) := by
  rw [resolve_eq, h]
  rfl

/-- Without a remembered block a look-up settles on the block that bisection finds. -/
theorem blockFor?_of_hint_eq_none {c : Coverage} (h : c.hint = none) (code : Nat) :
    c.blockFor? code = Block.find? c.blocks code := by
  rw [blockFor?, hinted?, h]
  rfl

theorem resolveStateless_eq (c : Coverage) (code : Nat) (has : Nat → Bool) :
    c.resolveStateless code has = c.chooseAt (Block.find? c.blocks code) has := by
  rw [resolveStateless]
  cases Block.find? c.blocks code <;> rfl

/-- In ordered blocks a look-up with memory settles on the block that a linear scan finds,
whatever it remembers. -/
theorem blockFor?_eq_scan? {c : Coverage} (h : Block.IsOrdered c.blocks) (code : Nat) :
    c.blockFor? code = Block.scan? c.blocks code := by
  rw [blockFor?]
  cases hh : c.hinted? code with
  | some i =>
    obtain ⟨b, hb⟩ := (hinted?_eq_some_iff.mp hh).2
    rw [Option.some_or, (Block.scan?_eq_some_iff h).mpr ⟨b, hb⟩]
  | none => rw [Option.none_or, Block.find?_eq_scan? h]

/-- The block that a look-up settles on exists. -/
theorem lt_of_blockFor? {c : Coverage} {code i : Nat} (h : c.blockFor? code = some i) :
    i < c.blocks.length := by
  have hfound : ∃ b, c.blocks[i]? = some b ∧ code ∈ b := by
    rcases Option.or_eq_some_iff.mp h with hh | ⟨-, hf⟩
    · exact (hinted?_eq_some_iff.mp hh).2
    · exact Block.mem_of_find? hf
  obtain ⟨b, hb, -⟩ := hfound
  exact (List.getElem?_eq_some_iff.mp hb).1

/-! ### What acts leave alone -/

theorem length_tallyFrom (count : Nat) (blocks : List Block) (codes : List Nat) :
    (tallyFrom count blocks codes).length = blocks.length := by
  fun_induction tallyFrom count blocks codes with
  | case1 => rfl
  | case2 => simp
  | case3 count b blocks code codes h ih => simp [ih]
  | case4 count b blocks code codes h ih => simpa using ih

@[simp] theorem block_enter (row : Row) (o : Overrides) (name : String) (index count : Nat) :
    (row.enter o name index count).block = row.block := by
  rw [Row.enter]
  split <;> rfl

@[simp] theorem blocks_addFont (c : Coverage) (name : String) (codes : List Nat) (o : Overrides) :
    (c.addFont name codes o).2.blocks = c.blocks := by
  have hlen : (tally (c.rows.map Row.block) codes).length = c.rows.length := by
    rw [tally, length_tallyFrom, List.length_map]
  refine List.ext_getElem (by simp [addFont, blocks, hlen]) fun i h₁ h₂ => ?_
  simp [addFont, blocks]

@[simp] theorem blocks_resolve (c : Coverage) (code : Nat) (has : Nat → Bool) :
    (c.resolve code has).2.blocks = c.blocks := by rw [blocks, resolve_rows, blocks]

@[simp] theorem blocks_perform (c : Coverage) (act : Act) : (c.perform act).blocks = c.blocks := by
  cases act with
  | addFont name codes o => exact blocks_addFont c name codes o
  | resolve code has => exact blocks_resolve c code has
  | resolveStateless code has => rfl

theorem blocks_performAll (c : Coverage) (acts : List Act) :
    (c.performAll acts).blocks = c.blocks := by
  induction acts generalizing c with
  | nil => rfl
  | cons act acts ih => rw [performAll, List.foldl_cons, ← performAll, ih, blocks_perform]

@[simp] theorem blocks_ofBlocks (blocks : List Block) :
    (ofBlocks blocks).blocks = (Block.arrange blocks).kept := by
  simp [ofBlocks, Coverage.blocks, Function.comp_def]

/-! ### Every history -/

/-- The remembered block exists, if there is one. -/
def HintExists (c : Coverage) : Prop := ∀ i, c.hint = some i → i < c.blocks.length

theorem hintExists_ofBlocks (blocks : List Block) : (ofBlocks blocks).HintExists := by
  intro i hi
  simp [ofBlocks] at hi

theorem HintExists.perform {c : Coverage} (h : c.HintExists) (act : Act) :
    (c.perform act).HintExists := by
  intro i hi
  rw [blocks_perform]
  cases act with
  | addFont name codes o => exact h i hi
  | resolve code has =>
    rw [Coverage.perform, resolve_eq] at hi
    rcases Option.or_eq_some_iff.mp hi with hb | ⟨-, hh⟩
    · exact lt_of_blockFor? hb
    · exact h i hh
  | resolveStateless code has => exact h i hi

theorem HintExists.performAll {c : Coverage} (h : c.HintExists) (acts : List Act) :
    (c.performAll acts).HintExists := by
  induction acts generalizing c with
  | nil => exact h
  | cons act acts ih => exact ih (h.perform act)

/-- **Memory cannot be seen.** Whatever was done to a coverage of blocks none of which is
inverted, both ways of looking a code point up ask the fonts of the block that a linear scan of
the blocks kept finds, in the same order and with the same outcome; the block is remembered, and
a remembered block always exists. -/
theorem resolve_after_any_history (blocks : List Block) (hb : ∀ b ∈ blocks, b.first ≤ b.last)
    (acts : List Act) :
    let c := (ofBlocks blocks).performAll acts
    c.blocks = (Block.arrange blocks).kept ∧
      (∀ i, c.hint = some i → i < c.blocks.length) ∧
      ∀ code has,
        let found := Block.scan? c.blocks code
        (c.resolve code has).1 = c.resolveStateless code has ∧
          c.resolve code has = (c.chooseAt found has, { c with hint := found.or c.hint }) ∧
          Block.find? c.blocks code = found ∧
          c.resolveStateless code has = c.chooseAt found has := by
  intro c
  have hblocks : c.blocks = (Block.arrange blocks).kept :=
    (blocks_performAll _ acts).trans (blocks_ofBlocks blocks)
  have hord : Block.IsOrdered c.blocks := hblocks ▸ Block.isOrdered_kept_arrange hb
  have hhint : c.HintExists := (hintExists_ofBlocks blocks).performAll acts
  refine ⟨hblocks, hhint, fun code has => ?_⟩
  have hresolve := resolve_eq c code has
  have hstateless := resolveStateless_eq c code has
  rw [blockFor?_eq_scan? hord] at hresolve
  rw [Block.find?_eq_scan? hord] at hstateless
  exact ⟨by rw [hresolve, hstateless], hresolve, Block.find?_eq_scan? hord code, hstateless⟩

/-- Adjacent blocks, a block of one code point and a block that is dropped, with look-ups inside,
between and behind the blocks. -/
theorem resolve_after_mixed_history :
    let blocks : List Block :=
      [⟨"Greek", 0x370, 0x3FF⟩, ⟨"Latin", 0, 0x7F⟩, ⟨"Cyrillic", 0x400, 0x4FF⟩, ⟨"One", 0x600, 0x600⟩]
    let c := (ofBlocks blocks).performAll [.addFont "a" [0x3FF, 0x400, 0x600] ⟨[], []⟩,
      .resolve 0x400 fun _ => true, .resolve 0x5FF fun _ => true, .resolve 0x600 fun _ => false]
    (∀ b ∈ blocks, b.first ≤ b.last) ∧
      ∀ code has, (c.resolve code has).1 = c.resolveStateless code has :=
  ⟨by decide, fun code has => ((resolve_after_any_history _ (by decide) _).2.2 code has).1⟩

end Coverage

end Typecase
