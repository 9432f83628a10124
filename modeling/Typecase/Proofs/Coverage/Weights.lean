import Typecase.Proofs.Coverage.History

/-!
# The table of weights

Every font that is added to a coverage gets a weight in every block. `Coverage.Addition` is a font
as it is added, and `Addition.weightIn` the weight that it should have in a block, read off the
font, its number and the block alone.

* **Counting.** The single pass over ascending code points and spaced blocks counts, for each
  block, the code points that lie in it (`tally_eq`).
* **Entering.** Weights are entered only where a font maps something, so the lists of weights are
  ragged. Read with zeros behind their ends they change at the new number only (`weight_enter`).
* **Every sequence of fonts.** `Records` says that a coverage holds the right weights of a list of
  fonts. Adding a font keeps it (`Records.add`), and the table follows for every list
  (`weights_of_additions`).
-/

namespace Typecase

namespace Coverage

/-- A font as it is added: its name, its code points and the overrides given with it. -/
structure Addition where
  name : String
  codes : List Nat
  overrides : Overrides

/-- The code points are ascending. -/
def Addition.IsSorted (f : Addition) : Prop := f.codes.Pairwise (· ≤ ·)

instance (f : Addition) : Decidable f.IsSorted := inferInstanceAs (Decidable (List.Pairwise _ _))

/-- The coverage with one more font. -/
def add (c : Coverage) (f : Addition) : Coverage := (c.addFont f.name f.codes f.overrides).2

/-- The coverage with more fonts, added in order. -/
def addAll (c : Coverage) (fonts : List Addition) : Coverage := fonts.foldl add c

/-- Whether some override names a font and matches a block, by its name or as one for every
block. -/
def Names (list : List Override) (font : String) (b : Block) : Prop :=
  ∃ o ∈ list, o.font = font ∧ (o.scope = .everyBlock ∨ o.scope = .named b.name)

instance (list : List Override) (font : String) (b : Block) : Decidable (Names list font b) :=
  inferInstanceAs (Decidable (∃ o ∈ list, _))

/-- The weight in a block of a font that was added as number `index`. -/
def Addition.weightIn (f : Addition) (index : Nat) (b : Block) : Nat :=
  if ∀ code ∈ f.codes, code ∉ b then 0
  else if Names f.overrides.whitelist f.name b then min counterLimit (b.size + index + 1)
  else if Names f.overrides.blacklist f.name b then 0
  else (f.codes.filter fun code => b.first ≤ code ∧ code ≤ b.last).length

/-! ### Counting -/

theorem hits_cons (b : Block) (code : Nat) (codes : List Nat) :
    hits b (code :: codes) = (if code ∈ b then 1 else 0) + hits b codes := by
  rw [hits, List.countP_cons, Nat.add_comm, hits]
  simp

theorem hits_eq_zero_iff {b : Block} {codes : List Nat} :
    hits b codes = 0 ↔ ∀ code ∈ codes, code ∉ b := by
  simp [hits, List.countP_eq_zero]

private theorem modifyHead_zero_add (counts : List Nat) : counts.modifyHead (0 + ·) = counts := by
  have hid : (fun n : Nat => 0 + n) = id := funext Nat.zero_add
  rw [hid, List.modifyHead_id]
  rfl

/-- The single pass counts for the first block on top of what was counted before, and for every
other block from zero. -/
theorem tallyFrom_eq (count : Nat) {blocks : List Block} {codes : List Nat}
    (hb : Block.IsSpaced blocks) (hc : codes.Pairwise (· ≤ ·)) :
    tallyFrom count blocks codes = (blocks.map fun b => hits b codes).modifyHead (count + ·) := by
  fun_induction tallyFrom count blocks codes with
  | case1 => rfl
  | case2 count b blocks => simp [hits]
  | case3 count b blocks code codes h ih =>
    have hnone : hits b (code :: codes) = 0 := by
      refine hits_eq_zero_iff.mpr fun d hd hmem => ?_
      have hle : code ≤ d := by
        rcases List.mem_cons.mp hd with rfl | hd
        · exact Nat.le_refl d
        · exact List.rel_of_pairwise_cons hc hd
      exact absurd hmem.2 (by omega)
    rw [ih hb.of_cons hc, List.map_cons, List.modifyHead_cons, hnone, modifyHead_zero_add,
      Nat.add_zero]
  | case4 count b blocks code codes h ih =>
    -- a code point up to the end of the first block lies in no later one
    have hlater : ∀ c ∈ blocks, hits c (code :: codes) = hits c codes := by
      intro c hcmem
      have hlt : b.last < c.first := List.rel_of_pairwise_cons hb hcmem
      have hout : code ∉ c := fun hmem => absurd hmem.1 (by omega)
      rw [hits_cons, if_neg hout, Nat.zero_add]
    rw [dite_eq_ite] at ih
    rw [ih hb hc.of_cons, List.map_cons, List.map_cons, List.modifyHead_cons,
      List.modifyHead_cons, List.map_congr_left hlater, hits_cons]
    split <;> simp only [List.cons.injEq, and_true] <;> omega

/-- **The single pass counts block by block.** -/
theorem tally_eq {blocks : List Block} {codes : List Nat} (hb : Block.IsSpaced blocks)
    (hc : codes.Pairwise (· ≤ ·)) : tally blocks codes = blocks.map fun b => hits b codes := by
  rw [tally, tallyFrom_eq 0 hb hc, modifyHead_zero_add]

/-- In spaced blocks every row is entered with its own count. -/
theorem rows_add {c : Coverage} {f : Addition} (hb : Block.IsSpaced c.blocks)
    (hf : f.IsSorted) : (c.add f).rows = c.rows.map fun row =>
      row.enter f.overrides f.name c.fontCount (hits row.block f.codes) := by
  have htally : tally c.blocks f.codes = c.rows.map fun row => hits row.block f.codes := by
    rw [tally_eq hb hf, blocks, List.map_map]
    rfl
  change List.zipWith _ c.rows (tally c.blocks f.codes) = _
  rw [htally, List.zipWith_map_right, List.zipWith_self]

/-! ### Entering -/

theorem length_enter {row : Row} {index : Nat} (h : row.weights.length ≤ index) (o : Overrides)
    (name : String) (count : Nat) :
    (row.enter o name index count).weights.length ≤ index + 1 := by
  rw [Row.enter]
  split
  · omega
  · simp only [List.length_append, List.length_rightpad, List.length_singleton]
    omega

/-- **A new weight changes no other.** Read with zeros behind its end, a row with at most `index`
weights changes only at `index`. -/
theorem weight_enter {row : Row} {index : Nat} (h : row.weights.length ≤ index) (o : Overrides)
    (name : String) (count j : Nat) : (row.enter o name index count).weight j =
      if j = index then if count = 0 then 0 else weigh o name index row.block count
      else row.weight j := by
  have hpast : ∀ k, row.weights.length ≤ k → row.weights.getD k 0 = 0 := fun k hk => by
    rw [List.getD_eq_getElem?_getD, List.getElem?_eq_none hk]
    rfl
  rw [Row.enter, Row.weight]
  split
  · split
    · rename_i hj
      exact hpast j (by omega)
    · rfl
  · have hlen : (row.weights.rightpad index 0).length = index := by
      rw [List.length_rightpad]
      omega
    simp only [List.getD_eq_getElem?_getD, List.getElem?_append, hlen]
    split
    · -- before the new weight the list was filled up with zeros only
      rename_i hlt
      rw [if_neg (by omega), Row.weight, List.rightpad, List.getElem?_append]
      split
      · rw [List.getD_eq_getElem?_getD]
      · rw [hpast j (by omega), List.getElem?_replicate]
        split <;> rfl
    · rename_i hge
      split
      · rename_i hj
        rw [hj, Nat.sub_self]
        rfl
      · rw [Row.weight, hpast j (by omega), List.getElem?_eq_none (by simp; omega)]
        rfl

theorem any_concerns_iff {list : List Override} {font : String} {b : Block} :
    list.any (·.concerns font b.name) = true ↔ Names list font b := by
  simp only [List.any_eq_true, Names]
  refine exists_congr fun o => and_congr_right fun _ => ?_
  rw [Override.concerns, Bool.and_eq_true, beq_iff_eq]
  refine and_congr_right fun _ => ?_
  cases o.scope with
  | everyBlock => simp
  | named n => simp

/-- What is entered for a font is the weight that it should have. -/
theorem weigh_hits (f : Addition) (index : Nat) (b : Block) :
    (if hits b f.codes = 0 then 0 else weigh f.overrides f.name index b (hits b f.codes)) =
      f.weightIn index b := by
  have hcount : hits b f.codes =
      (f.codes.filter fun code => b.first ≤ code ∧ code ≤ b.last).length := by
    rw [hits, List.countP_eq_length_filter]
    rfl
  rw [Addition.weightIn, weigh, Nat.add_assoc, ← hcount]
  simp only [hits_eq_zero_iff, any_concerns_iff]

/-! ### Every sequence of fonts -/

/-- A coverage holds the weights of a list of fonts, and no others. -/
structure Records (c : Coverage) (fonts : List Addition) : Prop where
  count : c.fontCount = fonts.length
  short : ∀ row ∈ c.rows, row.weights.length ≤ fonts.length
  right : ∀ row ∈ c.rows, ∀ i f, fonts[i]? = some f → row.weight i = f.weightIn i row.block

theorem records_ofBlocks (blocks : List Block) : (ofBlocks blocks).Records [] where
  count := rfl
  short := by simp [ofBlocks]
  right := by simp

theorem Records.add {c : Coverage} {fonts : List Addition} {f : Addition} (h : c.Records fonts)
    (hb : Block.IsSpaced c.blocks) (hf : f.IsSorted) : (c.add f).Records (fonts ++ [f]) where
  count := by rw [List.length_append, ← h.count]; rfl
  short := by
    rw [rows_add hb hf, List.forall_mem_map, h.count, List.length_append]
    exact fun row hrow => length_enter (h.short row hrow) f.overrides f.name _
  right := by
    rw [rows_add hb hf, List.forall_mem_map, h.count]
    intro row hrow i g hg
    rw [weight_enter (h.short row hrow), weigh_hits, block_enter]
    -- an earlier font, the new one, or none
    rcases Nat.lt_trichotomy i fonts.length with hlt | heq | hgt
    · rw [List.getElem?_append_left hlt] at hg
      rw [if_neg (by omega), h.right row hrow i g hg]
    · subst heq
      rw [List.getElem?_concat_length] at hg
      obtain rfl := Option.some.inj hg
      rw [if_pos rfl]
    · rw [List.getElem?_eq_none (by simp; omega)] at hg
      contradiction

theorem blocks_add (c : Coverage) (f : Addition) : (c.add f).blocks = c.blocks :=
  blocks_addFont c f.name f.codes f.overrides

theorem Records.addAll {c : Coverage} {done fonts : List Addition} (h : c.Records done)
    (hb : Block.IsSpaced c.blocks) (hf : ∀ f ∈ fonts, f.IsSorted) :
    (c.addAll fonts).Records (done ++ fonts) := by
  induction fonts generalizing c done with
  | nil => rwa [List.append_nil]
  | cons f fonts ih =>
    have hstep := h.add hb (hf f List.mem_cons_self)
    rw [List.append_cons]
    exact ih hstep (by rwa [blocks_add]) fun g hg => hf g (List.mem_cons_of_mem f hg)

theorem records_addAll_ofBlocks {blocks : List Block} {fonts : List Addition}
    (hb : Block.IsSpaced (Block.arrange blocks).kept) (hf : ∀ f ∈ fonts, f.IsSorted) :
    ((ofBlocks blocks).addAll fonts).Records fonts :=
  (records_ofBlocks blocks).addAll (by rwa [blocks_ofBlocks]) hf

theorem weights_eq_of_getElem? {c : Coverage} {n : Nat} {row : Row} (h : c.rows[n]? = some row) :
    c.weights n = row.weights := by simp [weights, h]

/-- The weight of a font that was added is the one read off the font. -/
theorem Records.weight_eq {c : Coverage} {fonts : List Addition} (h : c.Records fonts) {n i : Nat}
    {b : Block} {f : Addition} (hb : c.blocks[n]? = some b) (hi : fonts[i]? = some f) :
    (c.weights n).getD i 0 = f.weightIn i b := by
  rw [blocks, List.getElem?_map] at hb
  obtain ⟨row, hrow, rfl⟩ := Option.map_eq_some_iff.mp hb
  rw [weights_eq_of_getElem? hrow]
  exact h.right row (List.mem_of_getElem? hrow) i f hi

end Coverage

end Typecase
