import Typecase.Proofs.Coverage.Precedence

/-!
# Fonts that do not touch a block

The weight of a whitelisted font grows with its number, so deleting an earlier font changes the
weights of all later favourites. What is chosen in a block stays the same: only the order of the
weights counts, and the fonts that are left keep theirs.

* **Renumbering.** `Choice.Renumbers` says that two lists of weights order the same fonts in the
  same way, under other numbers and up to fonts that weigh nothing. Then the ladders correspond, and
  so does every descent (`Choice.Renumbers.descend_eq`).
* **Deletion.** `survivors` lists the fonts that are left with the numbers that they had. If every
  font that is deleted maps nothing in a block, the weights in the block before and after are a
  renumbering (`renumbers_survivors`): counts are the same numbers, and favourites stay above them
  in the same order.
* **Look-ups** in the block hence ask the same fonts and find the same font, whatever was done in
  the two histories besides adding the fonts (`resolve_of_deletion`).
-/

namespace Typecase

namespace Choice

variable {weights weights' : List Nat} {number : Nat → Nat} {i j k : Nat}

/-! ### Renumbering -/

/-- Font `j` of the second list is font `number j` of the first: fonts that weigh something are in
both lists, in the same order by number and in the same order by weight. -/
structure Renumbers (number : Nat → Nat) (weights weights' : List Nat) : Prop where
  onto : ∀ i, 0 < weights.getD i 0 → ∃ j, 0 < weights'.getD j 0 ∧ number j = i
  pos : ∀ j, 0 < weights'.getD j 0 → 0 < weights.getD (number j) 0
  mono : ∀ j k, 0 < weights'.getD j 0 → 0 < weights'.getD k 0 → j < k → number j < number k
  lt_iff : ∀ j k, 0 < weights'.getD j 0 → 0 < weights'.getD k 0 →
    (weights'.getD j 0 < weights'.getD k 0 ↔
      weights.getD (number j) 0 < weights.getD (number k) 0)

theorem Renumbers.eq_iff (h : Renumbers number weights weights') (hj : 0 < weights'.getD j 0)
    (hk : 0 < weights'.getD k 0) : weights'.getD j 0 = weights'.getD k 0 ↔
      weights.getD (number j) 0 = weights.getD (number k) 0 := by
  have hlt := h.lt_iff j k hj hk
  have hgt := h.lt_iff k j hk hj
  omega

/-- The fonts that can be asked are the same. -/
theorem Renumbers.isForemost_iff (h : Renumbers number weights weights') :
    IsForemost weights i ↔ ∃ j, IsForemost weights' j ∧ number j = i := by
  constructor
  · rintro ⟨hpos, hfirst⟩
    obtain ⟨j, hj, rfl⟩ := h.onto i hpos
    refine ⟨j, ⟨hj, fun k hkj heq => ?_⟩, rfl⟩
    have hk : 0 < weights'.getD k 0 := heq ▸ hj
    exact hfirst (number k) (h.mono k j hk hj hkj) ((h.eq_iff hk hj).mp heq)
  · rintro ⟨j, ⟨hj, hfirst⟩, rfl⟩
    refine ⟨h.pos j hj, fun i hi heq => ?_⟩
    obtain ⟨k, hk, rfl⟩ := h.onto i (heq ▸ h.pos j hj)
    -- the font with the number `k` comes before `j`, for the numbers are in the same order
    have hkj : k < j := by
      rcases Nat.lt_trichotomy k j with hlt | rfl | hlt
      · exact hlt
      · exact absurd hi (Nat.lt_irrefl _)
      · exact absurd hi (Nat.lt_asymm (h.mono j k hj hk hlt))
    exact hfirst k hkj ((h.eq_iff hk hj).mpr heq)

theorem Renumbers.ladder_eq (h : Renumbers number weights weights') :
    ladder weights = (ladder weights').map number := by
  refine (eq_ladder ?_ fun i => ?_).symm
  · refine List.pairwise_map.mpr ((pairwise_ladder weights').imp_of_mem fun hj hk hlt => ?_)
    exact (h.lt_iff _ _ (mem_ladder_iff.mp hk).1 (mem_ladder_iff.mp hj).1).mp hlt
  · rw [List.mem_map, h.isForemost_iff]
    simp only [mem_ladder_iff]

/-- **Renumbered weights, renumbered choices.** -/
theorem Renumbers.descend_eq (h : Renumbers number weights weights') (has : Nat → Bool) :
    descend weights has = (descend weights' fun j => has (number j)).renumber number := by
  rw [descend_eq_askInTurn, descend_eq_askInTurn, h.ladder_eq, askInTurn_map]

end Choice

namespace Coverage

variable {fonts : List Addition} {keep : Nat → Bool} {b : Block} {f : Addition} {i j k : Nat}

/-! ### Deletion -/

/-- The fonts that are left when only some numbers are kept, each with the number that it had. -/
def survivors (keep : Nat → Bool) (fonts : List Addition) : List (Addition × Nat) :=
  fonts.zipIdx.filter fun p => keep p.2

/-- The fonts that are left, under their new numbers. -/
def fontsLeft (keep : Nat → Bool) (fonts : List Addition) : List Addition :=
  (survivors keep fonts).map Prod.fst

/-- The number that the font with a new number had before. -/
def formerNumber (keep : Nat → Bool) (fonts : List Addition) (j : Nat) : Nat :=
  ((survivors keep fonts).map Prod.snd).getD j 0

theorem mem_survivors : (f, i) ∈ survivors keep fonts ↔ fonts[i]? = some f ∧ keep i = true := by
  rw [survivors, List.mem_filter, List.mem_zipIdx_iff_getElem?]

theorem formerNumber_of_getElem? (h : (survivors keep fonts)[j]? = some (f, i)) :
    formerNumber keep fonts j = i := by
  rw [formerNumber, List.getD_eq_getElem?_getD, List.getElem?_map, h]
  rfl

/-- A font that is left has its old number before, and comes with it among the survivors. -/
theorem exists_survivor (h : j < (fontsLeft keep fonts).length) :
    ∃ f, (survivors keep fonts)[j]? = some (f, formerNumber keep fonts j) ∧
      (fontsLeft keep fonts)[j]? = some f ∧ fonts[formerNumber keep fonts j]? = some f := by
  rw [fontsLeft, List.length_map] at h
  obtain ⟨⟨f, i⟩, hp⟩ : ∃ p, (survivors keep fonts)[j]? = some p := ⟨_, List.getElem?_eq_getElem h⟩
  have hi : formerNumber keep fonts j = i := formerNumber_of_getElem? hp
  refine ⟨f, hi ▸ hp, ?_, hi ▸ (mem_survivors.mp (List.mem_of_getElem? hp)).1⟩
  rw [fontsLeft, List.getElem?_map, hp]
  rfl

/-- A font that is left is the font that had its number before. -/
theorem getElem?_fontsLeft (h : j < (fontsLeft keep fonts).length) :
    (fontsLeft keep fonts)[j]? = fonts[formerNumber keep fonts j]? := by
  obtain ⟨f, -, hleft, hbefore⟩ := exists_survivor h
  rw [hleft, hbefore]

theorem pairwise_survivors (keep : Nat → Bool) (fonts : List Addition) :
    (survivors keep fonts).Pairwise fun p q => p.2 < q.2 := by
  have hnumbers : (fonts.zipIdx.map Prod.snd).Pairwise (· < ·) := by
    rw [List.zipIdx_map_snd]
    exact List.pairwise_lt_range'
  exact (List.pairwise_map.mp hnumbers).filter _

/-- The fonts that are left keep their order. -/
theorem formerNumber_lt (hjk : j < k) (hk : k < (fontsLeft keep fonts).length) :
    formerNumber keep fonts j < formerNumber keep fonts k := by
  obtain ⟨_, hj', -, -⟩ := exists_survivor (Nat.lt_trans hjk hk)
  obtain ⟨_, hk', -, -⟩ := exists_survivor hk
  obtain ⟨hjlt, hj'⟩ := List.getElem?_eq_some_iff.mp hj'
  obtain ⟨hklt, hk'⟩ := List.getElem?_eq_some_iff.mp hk'
  have hlt := List.pairwise_iff_getElem.mp (pairwise_survivors keep fonts) j k hjlt hklt hjk
  rwa [hj', hk'] at hlt

theorem lt_length_of_weightOf_pos (h : 0 < weightOf fonts b i) : i < fonts.length := by
  refine Nat.lt_of_not_le fun hle => ?_
  rw [weightOf, List.getElem?_eq_none hle] at h
  exact Nat.lt_irrefl 0 h

/-- A font that weighs something in a block maps some code point in it. -/
theorem touches_of_weightOf_pos (hf : fonts[i]? = some f) (h : 0 < weightOf fonts b i) :
    f.Touches b := by
  rw [weightOf_of_getElem? hf, Addition.weightIn] at h
  split at h
  · exact absurd h (Nat.lt_irrefl 0)
  · rename_i hsome
    simpa [Addition.Touches] using hsome

theorem IsModest.fontsLeft (h : IsModest fonts b) : IsModest (fontsLeft keep fonts) b where
  inside := h.inside
  strict := by
    rintro f hf
    obtain ⟨⟨g, i⟩, hp, rfl⟩ := List.mem_map.mp hf
    exact h.strict g (List.mem_of_getElem? (mem_survivors.mp hp).1)
  few := by
    have hle : (survivors keep fonts).length ≤ fonts.zipIdx.length := List.length_filter_le _ _
    rw [List.length_zipIdx] at hle
    rw [Coverage.fontsLeft, List.length_map]
    exact Nat.lt_of_le_of_lt hle h.few

section

variable (hj : j < (fontsLeft keep fonts).length)

include hj

theorem isFavourite_fontsLeft_iff :
    IsFavourite (fontsLeft keep fonts) b j ↔ IsFavourite fonts b (formerNumber keep fonts j) := by
  rw [IsFavourite, IsFavourite, getElem?_fontsLeft hj]

theorem counted_fontsLeft :
    counted (fontsLeft keep fonts) b j = counted fonts b (formerNumber keep fonts j) := by
  rw [counted, counted, getElem?_fontsLeft hj]

/-- The weight of a font that is left is as large as before, except that a favourite loses the
numbers of the fonts deleted before it. -/
theorem weightOf_fontsLeft (hm : IsModest fonts b) :
    (¬IsFavourite fonts b (formerNumber keep fonts j) ∧
        weightOf (fontsLeft keep fonts) b j = weightOf fonts b (formerNumber keep fonts j)) ∨
      (IsFavourite fonts b (formerNumber keep fonts j) ∧
        weightOf (fontsLeft keep fonts) b j = b.size + j + 1) := by
  by_cases h : IsFavourite fonts b (formerNumber keep fonts j)
  · have h' := (isFavourite_fontsLeft_iff hj).mpr h
    exact .inr ⟨h, weightOf_of_isFavourite hm.fontsLeft h'⟩
  · have h' := mt (isFavourite_fontsLeft_iff hj).mp h
    refine .inl ⟨h, ?_⟩
    rw [weightOf_of_not_isFavourite h, weightOf_of_not_isFavourite h', counted_fontsLeft hj]

theorem weightOf_fontsLeft_pos_iff (hm : IsModest fonts b) :
    0 < weightOf (fontsLeft keep fonts) b j ↔ 0 < weightOf fonts b (formerNumber keep fonts j) := by
  rcases weightOf_fontsLeft hj hm with ⟨-, h⟩ | ⟨hfavourite, h⟩
  · rw [h]
  · rw [h, weightOf_of_isFavourite hm hfavourite]
    omega

/-- The fonts that are left are in the same order by weight. -/
theorem weightOf_fontsLeft_lt_iff (hk : k < (fontsLeft keep fonts).length) (hm : IsModest fonts b) :
    weightOf (fontsLeft keep fonts) b j < weightOf (fontsLeft keep fonts) b k ↔
      weightOf fonts b (formerNumber keep fonts j) <
        weightOf fonts b (formerNumber keep fonts k) := by
  rcases weightOf_fontsLeft hj hm with ⟨hj', hwj⟩ | ⟨hj', hwj⟩ <;>
    rcases weightOf_fontsLeft hk hm with ⟨hk', hwk⟩ | ⟨hk', hwk⟩
  · rw [hwj, hwk]
  · -- only the second is a favourite, so it is heavier before and after
    have hbefore := weightOf_lt_of_isFavourite hm hk' hj'
    have hcount := counted_le_size hm (formerNumber keep fonts j)
    rw [← weightOf_of_not_isFavourite hj'] at hcount
    exact iff_of_true (by omega) hbefore
  · have hbefore := weightOf_lt_of_isFavourite hm hj' hk'
    have hcount := counted_le_size hm (formerNumber keep fonts k)
    rw [← weightOf_of_not_isFavourite hk'] at hcount
    exact iff_of_false (by omega) (by omega)
  · -- two favourites are in the order of their numbers
    rw [hwj, hwk, weightOf_of_isFavourite hm hj', weightOf_of_isFavourite hm hk']
    rcases Nat.lt_trichotomy j k with hjk | rfl | hjk
    · have := formerNumber_lt hjk hk
      omega
    · omega
    · have := formerNumber_lt hjk hj
      omega

end

/-- **Deleting fonts that map nothing in a block renumbers its weights.** -/
theorem renumbers_survivors (hm : IsModest fonts b)
    (hdeleted : ∀ i f, fonts[i]? = some f → keep i = false → ¬f.Touches b)
    {weights weights' : List Nat} (hw : ∀ i, weights.getD i 0 = weightOf fonts b i)
    (hw' : ∀ j, weights'.getD j 0 = weightOf (fontsLeft keep fonts) b j) :
    Choice.Renumbers (formerNumber keep fonts) weights weights' := by
  constructor
  case onto =>
    intro i hpos
    rw [hw] at hpos
    obtain ⟨f, hf⟩ : ∃ f, fonts[i]? = some f :=
      ⟨_, List.getElem?_eq_getElem (lt_length_of_weightOf_pos hpos)⟩
    have hkeep : keep i = true := by
      by_contra hnot
      exact hdeleted i f hf (Bool.eq_false_iff.mpr hnot) (touches_of_weightOf_pos hf hpos)
    obtain ⟨j, hj⟩ := List.mem_iff_getElem?.mp (mem_survivors.mpr ⟨hf, hkeep⟩)
    have hi : formerNumber keep fonts j = i := formerNumber_of_getElem? hj
    have hlt : j < (fontsLeft keep fonts).length := by
      rw [fontsLeft, List.length_map]
      exact (List.getElem?_eq_some_iff.mp hj).1
    refine ⟨j, ?_, hi⟩
    rw [hw', weightOf_fontsLeft_pos_iff hlt hm, hi]
    exact hpos
  case pos =>
    intro j hpos
    rw [hw'] at hpos
    rw [hw]
    exact (weightOf_fontsLeft_pos_iff (lt_length_of_weightOf_pos hpos) hm).mp hpos
  case mono =>
    intro j k _ hk hjk
    rw [hw'] at hk
    exact formerNumber_lt hjk (lt_length_of_weightOf_pos hk)
  case lt_iff =>
    intro j k hj hk
    rw [hw'] at hj hk
    rw [hw', hw', hw, hw]
    exact weightOf_fontsLeft_lt_iff (lt_length_of_weightOf_pos hj) (lt_length_of_weightOf_pos hk) hm

/-- **What is chosen in a block depends only on the fonts that touch it.** Take two histories over
the same ordered blocks inside Unicode, the first adding fewer than 2^31 fonts with strictly
ascending code points, the second the same fonts without some that map nothing in a block. Then a
look-up of any code point of the block asks the same fonts in both, in the same order, and finds the
same font, up to the numbers. -/
theorem resolve_of_deletion (blocks : List Block)
    (hord : Block.IsOrdered (Block.arrange blocks).kept)
    (hinside : ∀ b ∈ (Block.arrange blocks).kept, b.last ≤ lastCodePoint) (acts acts' : List Act)
    (hstrict : ∀ f ∈ additions acts, f.IsStrict) (hfew : (additions acts).length < 0x80000000)
    (keep : Nat → Bool) (hacts : additions acts' = fontsLeft keep (additions acts)) :
    let c := (ofBlocks blocks).performAll acts
    let d := (ofBlocks blocks).performAll acts'
    let number := formerNumber keep (additions acts)
    c.blocks = (Block.arrange blocks).kept ∧ d.blocks = c.blocks ∧
      ∀ b ∈ c.blocks,
        (∀ i f, (additions acts)[i]? = some f → keep i = false → ¬f.Touches b) →
        ∀ code ∈ b, ∀ has,
          (c.resolve code has).1 =
              (d.resolve code fun j => has (number j)).1.renumber number ∧
            c.resolveStateless code has =
              (d.resolveStateless code fun j => has (number j)).renumber number := by
  intro c d number
  have hblocks : c.blocks = (Block.arrange blocks).kept := blocks_performAll_ofBlocks blocks acts
  have hblocks' : d.blocks = (Block.arrange blocks).kept := blocks_performAll_ofBlocks blocks acts'
  refine ⟨hblocks, hblocks'.trans hblocks.symm, fun b hb hdeleted code hcode has => ?_⟩
  have hm : IsModest (additions acts) b := ⟨hinside b (hblocks ▸ hb), hstrict, hfew⟩
  have hstrict' : ∀ f ∈ additions acts', f.IsStrict := hacts ▸ hm.fontsLeft.strict
  have hrec : c.Records (additions acts) :=
    records_performAll_ofBlocks hord fun f hf => (hstrict f hf).isSorted
  have hrec' : d.Records (fontsLeft keep (additions acts)) :=
    hacts ▸ records_performAll_ofBlocks hord fun f hf => (hstrict' f hf).isSorted
  obtain ⟨n, hn⟩ := List.mem_iff_getElem?.mp hb
  have hn' : d.blocks[n]? = some b := by rw [hblocks', ← hblocks, hn]
  have hrenumbers : Choice.Renumbers number (c.weights n) (d.weights n) :=
    renumbers_survivors hm hdeleted (hrec.getD_weights hn) (hrec'.getD_weights hn')
  obtain ⟨hresolve, hstateless⟩ := resolve_of_mem (hblocks ▸ hord) hn hcode has
  obtain ⟨hresolve', hstateless'⟩ :=
    resolve_of_mem (hblocks' ▸ hord) hn' hcode fun j => has (number j)
  rw [hresolve, hstateless, hresolve', hstateless', and_self]
  exact hrenumbers.descend_eq has

/-- Without the first font, which maps nothing in the first block, the two favourites of that block
lose one each, and are asked as before. -/
theorem resolve_of_deletion_of_first :
    let o : Overrides := ⟨[⟨.named "One", "b"⟩, ⟨.everyBlock, "c"⟩], [⟨.named "Two", "d"⟩]⟩
    let later : List Act := [.addFont "b" [1] o, .resolve 21 fun _ => false,
      .addFont "c" [1, 2, 3] o, .addFont "d" [1, 2, 22] o]
    let acts : List Act := .addFont "a" [20, 21] o :: later
    let c := (ofBlocks [⟨"One", 0, 9⟩, ⟨"Two", 20, 29⟩]).performAll acts
    let d := (ofBlocks [⟨"One", 0, 9⟩, ⟨"Two", 20, 29⟩]).performAll later
    let number := formerNumber (0 < ·) (additions acts)
    (List.range 3).map number = [1, 2, 3] ∧
      (List.range 3).map (fun j => weightOf (additions acts) ⟨"One", 0, 9⟩ (number j)) =
        [12, 13, 2] ∧
      (List.range 3).map (weightOf (additions later) ⟨"One", 0, 9⟩) = [11, 12, 2] ∧
      ∀ has, (c.resolve 2 has).1 = (d.resolve 2 fun j => has (number j)).1.renumber number := by
  intro o later acts c d number
  have hord : Block.IsOrdered (Block.arrange [⟨"One", 0, 9⟩, ⟨"Two", 20, 29⟩]).kept :=
    Block.isOrdered_kept_arrange (by decide)
  obtain ⟨hblocks, -, hresolve⟩ := resolve_of_deletion _ hord (by decide) acts later (by decide)
    (by decide) (0 < ·) rfl
  have hdeleted : ∀ i f, (additions acts)[i]? = some f → decide (0 < i) = false →
      ¬f.Touches ⟨"One", 0, 9⟩ := by
    intro i f hf hi
    obtain rfl : i = 0 := by simpa using hi
    obtain rfl := Option.some.inj hf
    decide
  refine ⟨by decide, by decide, by decide, fun has => ?_⟩
  exact (hresolve ⟨"One", 0, 9⟩ (hblocks ▸ by decide) hdeleted 2 (by decide) has).1

end Coverage

end Typecase
