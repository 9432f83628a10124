import Typecase.Proofs.Coverage.Ladder
import Typecase.Proofs.Coverage.Weights

/-!
# Whitelisted fonts first

A weight is a number of code points, unless the font is whitelisted: then it is the size of the
block and, on top of it, the number of the font. This module shows that the numbers do what they are
meant for.

* **Every history.** Look-ups change no weights, so the weights after any acts are those in the
  table of the fonts that were added (`Records.performAll`).
* **Two kinds of weights.** A *favourite* of a block is a font that is whitelisted for it and maps a
  code point in it. Inside Unicode, and with fewer than 2^31 fonts, no sum is cut at the counter
  limit, so a favourite is heavier than every count can be, and the later of two favourites is the
  heavier one (`weightOf_of_isFavourite`, `counted_le_size`).
* **Precedence.** The ladder of a block hence begins with the favourites, the latest first
  (`ladder_eq_favourites_append`). That fixes the preferred font, who is asked first, and that a
  font which is kept out everywhere is never asked (`precedence_of_overrides`).
-/

namespace Typecase

namespace Coverage

variable {c : Coverage} {done fonts : List Addition} {b : Block} {f : Addition} {n i j : Nat}

/-! ### Every history -/

/-- The font that an act adds, if it adds one. -/
def Act.addition? : Act → Option Addition
  | .addFont name codes o => some ⟨name, codes, o⟩
  | .resolve _ _ | .resolveStateless _ _ => none

/-- The fonts that acts add, in order. -/
def additions (acts : List Act) : List Addition := acts.filterMap Act.addition?

theorem Records.perform (h : c.Records done) (hb : Block.IsSpaced c.blocks) (act : Act)
    (hf : ∀ f ∈ act.addition?, f.IsSorted) :
    (c.perform act).Records (done ++ act.addition?.toList) := by
  cases act with
  | addFont name codes o => exact h.add hb (hf ⟨name, codes, o⟩ rfl)
  | resolve code has =>
    change ((c.resolve code has).2).Records (done ++ [])
    rw [List.append_nil]
    constructor
    case count => rw [resolve_fontCount, h.count]
    case short => rw [resolve_rows]; exact h.short
    case right => rw [resolve_rows]; exact h.right
  | resolveStateless code has =>
    change c.Records (done ++ [])
    rwa [List.append_nil]

theorem Records.performAll (h : c.Records done) (hb : Block.IsSpaced c.blocks) {acts : List Act}
    (hf : ∀ f ∈ additions acts, f.IsSorted) :
    (c.performAll acts).Records (done ++ additions acts) := by
  induction acts generalizing c done with
  | nil => rwa [additions, List.filterMap_nil, List.append_nil]
  | cons act acts ih =>
    have hsplit : additions (act :: acts) = act.addition?.toList ++ additions acts := by
      cases h : act.addition? <;> simp [additions, h]
    rw [hsplit, List.forall_mem_append] at hf
    have hstep := h.perform hb act fun f hf' => hf.1 f (Option.mem_toList.mpr hf')
    rw [hsplit, ← List.append_assoc]
    exact ih hstep (by rwa [blocks_perform]) hf.2

theorem blocks_performAll_ofBlocks (blocks : List Block) (acts : List Act) :
    ((ofBlocks blocks).performAll acts).blocks = (Block.arrange blocks).kept := by
  rw [blocks_performAll, blocks_ofBlocks]

/-- After any acts on ordered blocks, the rows are right for the fonts that were added. -/
theorem records_performAll_ofBlocks {blocks : List Block}
    (hord : Block.IsOrdered (Block.arrange blocks).kept) {acts : List Act}
    (hf : ∀ f ∈ additions acts, f.IsSorted) :
    ((ofBlocks blocks).performAll acts).Records (additions acts) := by
  have hspaced : Block.IsSpaced (ofBlocks blocks).blocks := by
    rw [blocks_ofBlocks]
    exact hord.isSpaced
  exact (records_ofBlocks blocks).performAll hspaced hf

/-- The weight of font number `i` in a block; a number without a font weighs nothing. -/
def weightOf (fonts : List Addition) (b : Block) (i : Nat) : Nat :=
  fonts[i]?.elim 0 fun f => f.weightIn i b

theorem weightOf_of_getElem? (h : fonts[i]? = some f) : weightOf fonts b i = f.weightIn i b := by
  rw [weightOf, h]
  rfl

/-- Read with zeros behind its end, a row holds the weights of the fonts recorded. -/
theorem Records.getD_weights (h : c.Records fonts) (hn : c.blocks[n]? = some b) (i : Nat) :
    (c.weights n).getD i 0 = weightOf fonts b i := by
  rw [Coverage.blocks, List.getElem?_map] at hn
  obtain ⟨row, hrow, rfl⟩ := Option.map_eq_some_iff.mp hn
  have hmem : row ∈ c.rows := List.mem_of_getElem? hrow
  rw [weights_eq_of_getElem? hrow]
  cases hi : fonts[i]? with
  | some f =>
    rw [weightOf_of_getElem? hi]
    exact h.right row hmem i f hi
  | none =>
    have hlen : fonts.length ≤ i := List.getElem?_eq_none_iff.mp hi
    have hshort : row.weights.length ≤ i := Nat.le_trans (h.short row hmem) hlen
    rw [weightOf, hi, List.getD_eq_getElem?_getD, List.getElem?_eq_none hshort]
    rfl

/-- In ordered blocks both ways of looking a code point up ask the fonts of the block that a linear
scan finds. -/
theorem resolve_eq_chooseAt (hord : Block.IsOrdered c.blocks) (code : Nat) (has : Nat → Bool) :
    (c.resolve code has).1 = c.chooseAt (Block.scan? c.blocks code) has ∧
      c.resolveStateless code has = c.chooseAt (Block.scan? c.blocks code) has := by
  rw [resolve_eq, resolveStateless_eq, blockFor?_eq_scan? hord, Block.find?_eq_scan? hord]
  exact ⟨rfl, rfl⟩

/-- Both ways of looking up a code point of a block descend through the weights of the block. -/
theorem resolve_of_mem (hord : Block.IsOrdered c.blocks) (hn : c.blocks[n]? = some b) {code : Nat}
    (hc : code ∈ b) (has : Nat → Bool) :
    (c.resolve code has).1 = Choice.descend (c.weights n) has ∧
      c.resolveStateless code has = Choice.descend (c.weights n) has := by
  have hscan : Block.scan? c.blocks code = some n :=
    (Block.scan?_eq_some_iff hord).mpr ⟨b, hn, hc⟩
  obtain ⟨hresolve, hstateless⟩ := resolve_eq_chooseAt hord code has
  rw [hresolve, hstateless, hscan]
  exact ⟨rfl, rfl⟩

/-! ### Two kinds of weights -/

/-- The code points are strictly ascending. -/
def Addition.IsStrict (f : Addition) : Prop := f.codes.Pairwise (· < ·)

instance (f : Addition) : Decidable f.IsStrict := inferInstanceAs (Decidable (List.Pairwise _ _))

theorem Addition.IsStrict.isSorted (h : f.IsStrict) : f.IsSorted := h.imp Nat.le_of_lt

/-- The font maps some code point in the block. -/
def Addition.Touches (f : Addition) (b : Block) : Prop := ∃ code ∈ f.codes, code ∈ b

instance (f : Addition) (b : Block) : Decidable (f.Touches b) :=
  inferInstanceAs (Decidable (∃ code ∈ f.codes, code ∈ b))

/-- Font number `i` is whitelisted for the block and maps some code point in it. -/
def IsFavourite (fonts : List Addition) (b : Block) (i : Nat) : Prop :=
  ∃ f ∈ fonts[i]?, f.Touches b ∧ Names f.overrides.whitelist f.name b

instance (fonts : List Addition) (b : Block) : DecidablePred (IsFavourite fonts b) := fun i =>
  inferInstanceAs (Decidable (∃ f ∈ fonts[i]?, _))

/-- The number of code points in the block that count for font number `i`: all of them, or none if
the font is blacklisted for the block. -/
def counted (fonts : List Addition) (b : Block) (i : Nat) : Nat :=
  fonts[i]?.elim 0 fun f => if Names f.overrides.blacklist f.name b then 0 else hits b f.codes

/-- A block inside Unicode, and fewer than 2^31 fonts with strictly ascending code points: nothing
that is summed up reaches the counter limit. -/
structure IsModest (fonts : List Addition) (b : Block) : Prop where
  inside : b.last ≤ lastCodePoint
  strict : ∀ f ∈ fonts, f.IsStrict
  few : fonts.length < 0x80000000

theorem size_of_last_le (h : b.last ≤ lastCodePoint) : b.size = b.last - b.first + 1 := by
  rw [Block.size]
  refine Nat.min_eq_right ?_
  rw [counterLimit]
  rw [lastCodePoint] at h
  omega

/-- Strictly ascending code points hit a block no more often than it is large. -/
theorem hits_le_size {codes : List Nat} (hc : codes.Pairwise (· < ·)) (h : b.last ≤ lastCodePoint) :
    hits b codes ≤ b.size := by
  have hnodup : (codes.filter fun code => code ∈ b).Nodup := (hc.imp Nat.ne_of_lt).filter _
  have hsub : codes.filter (fun code => code ∈ b) ⊆ List.range' b.first b.size := by
    intro code hcode
    obtain ⟨hfirst, hlast⟩ : code ∈ b := of_decide_eq_true (List.mem_filter.mp hcode).2
    rw [List.mem_range'_1, size_of_last_le h]
    omega
  calc hits b codes = (codes.filter fun code => code ∈ b).length := List.countP_eq_length_filter
    _ ≤ (List.range' b.first b.size).length := (List.subperm_of_subset hnodup hsub).length_le
    _ = b.size := List.length_range'

theorem weightOf_of_isFavourite (hm : IsModest fonts b) (h : IsFavourite fonts b i) :
    weightOf fonts b i = b.size + i + 1 := by
  obtain ⟨f, hf, ⟨code, hcode, hmem⟩, hwhite⟩ := h
  have hi : i < fonts.length := (List.getElem?_eq_some_iff.mp hf).1
  have hsum : b.size + i + 1 ≤ counterLimit := by
    have hsize := size_of_last_le hm.inside
    have hinside := hm.inside
    have hfew := hm.few
    rw [lastCodePoint] at hinside
    rw [counterLimit]
    omega
  rw [weightOf_of_getElem? hf, Addition.weightIn, if_neg fun hnone => hnone code hcode hmem,
    if_pos hwhite, Nat.min_eq_right hsum]

theorem weightOf_of_not_isFavourite (h : ¬IsFavourite fonts b i) :
    weightOf fonts b i = counted fonts b i := by
  rw [weightOf, counted]
  cases hf : fonts[i]? with
  | none => rfl
  | some f =>
    change f.weightIn i b = if Names f.overrides.blacklist f.name b then 0 else hits b f.codes
    rw [← weigh_hits, weigh]
    simp only [any_concerns_iff]
    by_cases hzero : hits b f.codes = 0
    · simp [hzero]
    · have htouches : f.Touches b := by
        simpa [hits_eq_zero_iff, Addition.Touches] using hzero
      have hwhite : ¬Names f.overrides.whitelist f.name b := fun hwhite =>
        h ⟨f, hf, htouches, hwhite⟩
      rw [if_neg hzero, if_neg hwhite]

theorem counted_le_size (hm : IsModest fonts b) (i : Nat) : counted fonts b i ≤ b.size := by
  rw [counted]
  cases hf : fonts[i]? with
  | none => exact Nat.zero_le _
  | some f =>
    rw [Option.elim_some]
    split
    · exact Nat.zero_le _
    · exact hits_le_size (hm.strict f (List.mem_of_getElem? hf)) hm.inside

/-- A favourite is heavier than every font that is none. -/
theorem weightOf_lt_of_isFavourite (hm : IsModest fonts b) (hi : IsFavourite fonts b i)
    (hj : ¬IsFavourite fonts b j) : weightOf fonts b j < weightOf fonts b i := by
  rw [weightOf_of_isFavourite hm hi, weightOf_of_not_isFavourite hj]
  have := counted_le_size hm j
  omega

/-! ### Precedence -/

/-- The favourites of a block, the latest first. -/
def favourites (fonts : List Addition) (b : Block) : List Nat :=
  ((List.range fonts.length).filter (IsFavourite fonts b ·)).reverse

theorem mem_favourites_iff : i ∈ favourites fonts b ↔ IsFavourite fonts b i := by
  rw [favourites, List.mem_reverse, List.mem_filter, decide_eq_true_eq, List.mem_range]
  refine and_iff_right_of_imp ?_
  rintro ⟨f, hf, -⟩
  exact (List.getElem?_eq_some_iff.mp hf).1

theorem pairwise_favourites (fonts : List Addition) (b : Block) :
    (favourites fonts b).Pairwise (· > ·) :=
  List.pairwise_reverse.mpr (List.pairwise_lt_range.filter _)

/-- **The ladder begins with the favourites**, the latest first; no favourite stands behind them. -/
theorem ladder_eq_favourites_append (hm : IsModest fonts b) {weights : List Nat}
    (hw : ∀ i, weights.getD i 0 = weightOf fonts b i) :
    Choice.ladder weights = favourites fonts b ++
      (Choice.ladder weights).filter fun i => ¬IsFavourite fonts b i := by
  refine (Choice.eq_ladder ?_ fun i => ?_).symm
  · refine List.pairwise_append.mpr ⟨?_, (Choice.pairwise_ladder weights).filter _, ?_⟩
    · refine (pairwise_favourites fonts b).imp_of_mem fun {i j} hi hj hlt => ?_
      rw [hw, hw, weightOf_of_isFavourite hm (mem_favourites_iff.mp hi),
        weightOf_of_isFavourite hm (mem_favourites_iff.mp hj)]
      omega
    · intro i hi j hj
      have hj' : ¬IsFavourite fonts b j := of_decide_eq_true (List.mem_filter.mp hj).2
      rw [hw, hw]
      exact weightOf_lt_of_isFavourite hm (mem_favourites_iff.mp hi) hj'
  · rw [List.mem_append, mem_favourites_iff, List.mem_filter, Choice.mem_ladder_iff,
      decide_eq_true_eq]
    by_cases hi : IsFavourite fonts b i
    · refine iff_of_true (.inl hi) ⟨?_, fun j hj => ?_⟩
      · rw [hw, weightOf_of_isFavourite hm hi]
        omega
      · rw [hw, hw]
        by_cases hj' : IsFavourite fonts b j
        · rw [weightOf_of_isFavourite hm hi, weightOf_of_isFavourite hm hj']
          omega
        · exact Nat.ne_of_lt (weightOf_lt_of_isFavourite hm hi hj')
    · simp [hi]

/-- What the preferred font of a block should be. -/
inductive IsPreferred (fonts : List Addition) (b : Block) : Option Nat → Prop
  /-- The latest favourite, if there is one. -/
  | favourite {i : Nat} (hi : IsFavourite fonts b i)
    (hlatest : ∀ j, i < j → ¬IsFavourite fonts b j) : IsPreferred fonts b (some i)
  /-- Otherwise the earliest of the fonts for which the most code points count. -/
  | fullest {i : Nat} (hnone : ∀ j, ¬IsFavourite fonts b j) (hpos : 0 < counted fonts b i)
    (hmost : ∀ j, counted fonts b j ≤ counted fonts b i)
    (hearliest : ∀ j, j < i → counted fonts b j < counted fonts b i) : IsPreferred fonts b (some i)
  /-- Otherwise none. -/
  | nobody (hnone : ∀ j, ¬IsFavourite fonts b j) (hzero : ∀ j, counted fonts b j = 0) :
    IsPreferred fonts b none

theorem isPreferred_preferred (hm : IsModest fonts b) {weights : List Nat}
    (hw : ∀ i, weights.getD i 0 = weightOf fonts b i) :
    IsPreferred fonts b (Choice.preferred weights) := by
  cases h : Choice.preferred weights with
  | none =>
    have hzero : ∀ j, weightOf fonts b j = 0 := fun j => by
      rw [← hw, Choice.preferred_eq_none_iff.mp h]
    have hnone : ∀ j, ¬IsFavourite fonts b j := fun j hj => by
      have := weightOf_of_isFavourite hm hj
      have := hzero j
      omega
    exact .nobody hnone fun j => by rw [← weightOf_of_not_isFavourite (hnone j), hzero]
  | some i =>
    obtain ⟨⟨hpos, hfirst⟩, hmax⟩ := Choice.spec_of_preferred_eq_some h
    simp only [hw] at hpos hfirst hmax
    by_cases hi : IsFavourite fonts b i
    · refine .favourite hi fun j hij hj => ?_
      -- a later favourite would be heavier
      have hle := hmax j
      rw [weightOf_of_isFavourite hm hi, weightOf_of_isFavourite hm hj] at hle
      omega
    · have hnone : ∀ j, ¬IsFavourite fonts b j := fun j hj =>
        Nat.not_lt_of_le (hmax j) (weightOf_lt_of_isFavourite hm hj hi)
      simp only [weightOf_of_not_isFavourite (hnone _)] at hpos hfirst hmax
      exact .fullest hnone hpos hmax fun j hj => Nat.lt_of_le_of_ne (hmax j) (hfirst j hj)

/-- The favourites are asked first, the latest first, and other fonts only behind all of them. -/
def AsksFavouritesFirst (fonts : List Addition) (b : Block) (asked : List Nat) : Prop :=
  asked <+: favourites fonts b ∨
    ∃ others, asked = favourites fonts b ++ others ∧ ∀ i ∈ others, ¬IsFavourite fonts b i

theorem asksFavouritesFirst_descend (hm : IsModest fonts b) {weights : List Nat}
    (hw : ∀ i, weights.getD i 0 = weightOf fonts b i) (has : Nat → Bool) :
    AsksFavouritesFirst fonts b (Choice.descend weights has).asked := by
  rw [Choice.descend_eq_askInTurn, ladder_eq_favourites_append hm hw]
  rcases Choice.asked_askInTurn_append has (favourites fonts b) _ with h | ⟨others, hothers, h⟩
  · exact .inl h
  · refine .inr ⟨others, h, fun i hi => ?_⟩
    exact of_decide_eq_true (List.mem_filter.mp (hothers.subset hi)).2

/-- A font that is blacklisted for every block and whitelisted for none weighs nothing. -/
theorem weightOf_of_barred (hf : fonts[i]? = some f)
    (hblack : ⟨.everyBlock, f.name⟩ ∈ f.overrides.blacklist)
    (hwhite : ∀ o ∈ f.overrides.whitelist, o.font ≠ f.name) : weightOf fonts b i = 0 := by
  have hno : ¬IsFavourite fonts b i := by
    rintro ⟨g, hg, -, o, ho, hname, -⟩
    obtain rfl := Option.some.inj (hf.symm.trans hg)
    exact hwhite o ho hname
  have hnames : Names f.overrides.blacklist f.name b := ⟨_, hblack, rfl, .inl rfl⟩
  rw [weightOf_of_not_isFavourite hno, counted, hf, Option.elim_some, if_pos hnames]

/-- **Overrides have precedence over counts.** In ordered blocks inside Unicode, after any acts that
add fewer than 2^31 fonts with strictly ascending code points, each with its overrides: the
preferred font of a block is the latest font that is whitelisted for the block and maps a code point
in it, else the earliest of those for which the most code points count, else none; every look-up in
the block asks the whitelisted fonts first, the latest first; and a font that is blacklisted for
every block and whitelisted for none is never asked and never found. -/
theorem precedence_of_overrides (blocks : List Block)
    (hord : Block.IsOrdered (Block.arrange blocks).kept)
    (hinside : ∀ b ∈ (Block.arrange blocks).kept, b.last ≤ lastCodePoint) (acts : List Act)
    (hstrict : ∀ f ∈ additions acts, f.IsStrict) (hfew : (additions acts).length < 0x80000000) :
    let fonts := additions acts
    let c := (ofBlocks blocks).performAll acts
    c.blocks = (Block.arrange blocks).kept ∧
      (∀ n b, c.blocks[n]? = some b →
        IsPreferred fonts b (c.preferred n) ∧
        ∀ code ∈ b, ∀ has,
          AsksFavouritesFirst fonts b (c.resolve code has).1.asked ∧
          AsksFavouritesFirst fonts b (c.resolveStateless code has).asked) ∧
      ∀ i f, fonts[i]? = some f → ⟨.everyBlock, f.name⟩ ∈ f.overrides.blacklist →
        (∀ o ∈ f.overrides.whitelist, o.font ≠ f.name) → ∀ code has,
          (i ∉ (c.resolve code has).1.asked ∧ (c.resolve code has).1.font ≠ some i) ∧
            i ∉ (c.resolveStateless code has).asked ∧
            (c.resolveStateless code has).font ≠ some i := by
  intro fonts c
  have hblocks : c.blocks = (Block.arrange blocks).kept := blocks_performAll_ofBlocks blocks acts
  have hordered : Block.IsOrdered c.blocks := hblocks ▸ hord
  have hrec : c.Records fonts :=
    records_performAll_ofBlocks hord fun f hf => (hstrict f hf).isSorted
  refine ⟨hblocks, fun n b hn => ?_, fun i f hf hblack hwhite code has => ?_⟩
  · have hw := hrec.getD_weights hn
    have hm : IsModest fonts b :=
      ⟨hinside b (hblocks ▸ List.mem_of_getElem? hn), hstrict, hfew⟩
    refine ⟨isPreferred_preferred hm hw, fun code hcode has => ?_⟩
    obtain ⟨hresolve, hstateless⟩ := resolve_of_mem hordered hn hcode has
    rw [hresolve, hstateless, and_self]
    exact asksFavouritesFirst_descend hm hw has
  · obtain ⟨hresolve, hstateless⟩ := resolve_eq_chooseAt hordered code has
    rw [hresolve, hstateless, and_self]
    cases hscan : Block.scan? c.blocks code with
    | none => exact ⟨List.not_mem_nil, nofun⟩
    | some n =>
      obtain ⟨b, hn, -⟩ := (Block.scan?_eq_some_iff hordered).mp hscan
      refine Choice.not_asked_of_getD_eq_zero ?_ has
      rw [hrec.getD_weights hn, weightOf_of_barred hf hblack hwhite]

/-- Two blocks and four fonts, with a look-up before the last font is added: in the first block `b`
comes before `a`, which was added earlier and maps more, and `c` would have the largest counts but
is kept out of every block. -/
theorem precedence_of_four_fonts :
    let o : Overrides := ⟨[⟨.named "One", "a"⟩, ⟨.everyBlock, "b"⟩],
      [⟨.everyBlock, "b"⟩, ⟨.everyBlock, "c"⟩]⟩
    let acts : List Act := [.addFont "a" [1, 2, 3, 20] o, .addFont "b" [4] o,
      .addFont "c" [0, 1, 2, 3, 4, 20, 21, 22] o, .resolve 2 fun _ => true,
      .addFont "d" [5, 20, 21] o]
    let c := (ofBlocks [⟨"One", 0, 9⟩, ⟨"Two", 20, 29⟩]).performAll acts
    favourites (additions acts) ⟨"One", 0, 9⟩ = [1, 0] ∧
      IsPreferred (additions acts) ⟨"One", 0, 9⟩ (c.preferred 0) ∧
      IsPreferred (additions acts) ⟨"Two", 20, 29⟩ (c.preferred 1) ∧
      (∀ has, AsksFavouritesFirst (additions acts) ⟨"One", 0, 9⟩ (c.resolve 4 has).1.asked) ∧
      ∀ code has, (c.resolve code has).1.font ≠ some 2 := by
  intro o acts c
  have hord : Block.IsOrdered (Block.arrange [⟨"One", 0, 9⟩, ⟨"Two", 20, 29⟩]).kept :=
    Block.isOrdered_kept_arrange (by decide)
  obtain ⟨hblocks, hprecedence, hbarred⟩ := precedence_of_overrides _ hord (by decide) acts
    (by decide) (by decide)
  have hone := hprecedence 0 ⟨"One", 0, 9⟩ (by rw [hblocks]; rfl)
  have htwo := hprecedence 1 ⟨"Two", 20, 29⟩ (by rw [hblocks]; rfl)
  exact ⟨by decide, hone.1, htwo.1, fun has => (hone.2 4 (by decide) has).1,
    fun code has => (hbarred 2 _ rfl (by decide) (by decide) code has).1.2⟩

end Coverage

end Typecase
