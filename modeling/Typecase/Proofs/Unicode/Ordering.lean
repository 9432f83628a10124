import Typecase.Unicode.Block

/-!
# Ordered block lists

What arranging a list of blocks achieves, and what searching an arranged list finds.

* **Arranging.** The greedy filter always keeps an ordered list (`isOrdered_kept_greedy`). The
  quick test of neighbouring pairs looks at every block but the last, so a list that passes it
  is ordered exactly when its last block is not inverted; `isOrdered_kept_arrange_iff` says for
  which lists the blocks kept are ordered, and `isOrdered_kept_arrange` that lists without
  inverted blocks are among them. The blocks kept are `IsSpaced` in any case.
* **Searching.** In an ordered list a code point lies in at most one block, so being found is
  the same as lying in the block: `scan?_eq_some_iff` for the linear scan,
  `find?_eq_some_iff` for the bisection, and hence `find?_eq_scan?`. `IsSearchable` asks for less:
  bisection need not find every block, but a block that it finds is found for all its characters.
-/

namespace Typecase

namespace Block

variable {blocks : List Block} {code : Nat}

/-! ### Arranging -/

theorem isOrdered_nil : IsOrdered [] := ⟨by simp, List.Pairwise.nil⟩

theorem isOrdered_cons_iff {b : Block} : IsOrdered (b :: blocks) ↔
    b.first ≤ b.last ∧ (∀ c ∈ blocks, b.last < c.first) ∧ IsOrdered blocks := by
  simp only [IsOrdered, List.forall_mem_cons, List.pairwise_cons]
  exact ⟨fun ⟨⟨h₁, h₂⟩, h₃, h₄⟩ => ⟨h₁, h₃, h₂, h₄⟩, fun ⟨h₁, h₃, h₂, h₄⟩ => ⟨⟨h₁, h₂⟩, h₃, h₄⟩⟩

/-- The greedy filter keeps an ordered list that starts after the block before it. -/
private theorem greedy_spec (previous : Option Block) (blocks : List Block) :
    IsOrdered (greedy previous blocks).kept ∧
      ∀ p ∈ previous, ∀ b ∈ (greedy previous blocks).kept, p.last < b.first := by
  induction blocks generalizing previous with
  | nil => exact ⟨isOrdered_nil, by simp [greedy]⟩
  | cons b rest ih =>
    rw [greedy]
    split
    · rename_i hb
      simp only [mayFollow, Bool.and_eq_true, decide_eq_true_eq] at hb
      obtain ⟨hord, hafter⟩ := ih (some b)
      have hlt : ∀ c ∈ (greedy (some b) rest).kept, b.last < c.first := hafter b rfl
      -- `b` is kept, and everything kept behind it starts after it
      refine ⟨isOrdered_cons_iff.mpr ⟨hb.1, hlt, hord⟩, fun p hp c hc => ?_⟩
      obtain rfl : previous = some p := hp
      have hpb : p.last < b.first := by simpa using hb.2
      rcases List.mem_cons.mp hc with rfl | hc
      · exact hpb
      · have := hlt c hc
        have := hb.1
        omega
    · exact ih previous

theorem isOrdered_kept_greedy (previous : Option Block) (blocks : List Block) :
    IsOrdered (greedy previous blocks).kept := (greedy_spec previous blocks).1

/-- The quick test sees everything about the order but whether the last block is inverted. -/
theorem isOrdered_iff_looksOrdered : IsOrdered blocks ↔
    looksOrdered blocks = true ∧ ∀ b ∈ blocks.getLast?, b.first ≤ b.last := by
  induction blocks with
  | nil => simp [isOrdered_nil, looksOrdered]
  | cons a rest ih =>
    cases rest with
    | nil => simp [isOrdered_cons_iff, isOrdered_nil, looksOrdered]
    | cons b rest =>
      rw [isOrdered_cons_iff, ih, looksOrdered, List.getLast?_cons_cons]
      simp only [Bool.and_eq_true, decide_eq_true_eq]
      constructor
      · rintro ⟨ha, hlt, hlook, hlast⟩
        exact ⟨⟨⟨ha, hlt b List.mem_cons_self⟩, hlook⟩, hlast⟩
      · rintro ⟨⟨⟨ha, hab⟩, hlook⟩, hlast⟩
        refine ⟨ha, fun c hc => ?_, hlook, hlast⟩
        obtain ⟨hb, hrest, -⟩ := isOrdered_cons_iff.mp (ih.mpr ⟨hlook, hlast⟩)
        rcases List.mem_cons.mp hc with rfl | hc
        · exact hab
        · have := hrest c hc
          omega

/-- **The blocks kept are ordered** unless the list passes the quick test although its last
block is inverted. -/
theorem isOrdered_kept_arrange_iff : IsOrdered (arrange blocks).kept ↔
    (looksOrdered blocks = true → ∀ b ∈ blocks.getLast?, b.first ≤ b.last) := by
  rw [arrange]
  split
  · rename_i h
    rw [isOrdered_iff_looksOrdered]
    exact ⟨fun hk _ => hk.2, fun hk => ⟨h, hk h⟩⟩
  · rename_i h
    exact ⟨fun _ h' => absurd h' h, fun _ => isOrdered_kept_greedy none blocks⟩

/-- Without inverted blocks the blocks kept are ordered. -/
theorem isOrdered_kept_arrange (h : ∀ b ∈ blocks, b.first ≤ b.last) :
    IsOrdered (arrange blocks).kept :=
  isOrdered_kept_arrange_iff.mpr fun _ b hb => h b (List.mem_of_getLast? hb)

/-- Every block starts after the end of the block before it; some of them may be inverted. -/
def IsSpaced (blocks : List Block) : Prop := blocks.Pairwise fun a b => a.last < b.first

theorem IsOrdered.isSpaced (h : IsOrdered blocks) : IsSpaced blocks := h.2

theorem isSpaced_of_looksOrdered (h : looksOrdered blocks = true) : IsSpaced blocks := by
  induction blocks with
  | nil => exact List.Pairwise.nil
  | cons a rest ih =>
    cases rest with
    | nil => exact List.pairwise_singleton _ a
    | cons b rest =>
      simp only [looksOrdered, Bool.and_eq_true, decide_eq_true_eq] at h
      obtain ⟨⟨-, hab⟩, hlook⟩ := h
      refine List.pairwise_cons.mpr ⟨fun c hc => ?_, ih hlook⟩
      rcases List.mem_cons.mp hc with rfl | hc
      · exact hab
      · have hbc : b.last < c.first := List.rel_of_pairwise_cons (ih hlook) hc
        -- another block follows `b`, so the quick test has looked at it
        have hb : b.first ≤ b.last := by
          cases rest with
          | nil => contradiction
          | cons d rest =>
            simp only [looksOrdered, Bool.and_eq_true, decide_eq_true_eq] at hlook
            exact hlook.1.1
        omega

/-- **The blocks kept are always spaced**, whatever the quick test overlooks. -/
theorem isSpaced_kept_arrange (blocks : List Block) : IsSpaced (arrange blocks).kept := by
  rw [arrange]
  split
  · rename_i h
    exact isSpaced_of_looksOrdered h
  · exact (isOrdered_kept_greedy none blocks).isSpaced

/-! ### Bisection -/

/-- **Bisection finds the place where `below` stops holding**, if there is only one such place:
`below` holds up to the result and nowhere from there on. -/
theorem bisect_spec {below : Nat → Bool} (hmono : ∀ i j, i ≤ j → below j → below i)
    (start size : Nat) :
    (∀ i, start ≤ i → i < bisect below start size → below i) ∧
      ∀ i, bisect below start size ≤ i → i < start + size → ¬below i := by
  fun_induction bisect below start size with
  | case1 start size hsize h =>
    refine ⟨fun i hi hlt => ?_, fun i hi hlt => by omega⟩
    obtain rfl : i = start := by omega
    exact h.2
  | case2 start size hsize h =>
    refine ⟨fun i hi hlt => by omega, fun i hi hlt hb => h ?_⟩
    obtain rfl : i = start := by omega
    exact ⟨by omega, hb⟩
  | case3 start size hsize ih =>
    cases hmid : below (start + size / 2) with
    | true =>
      simp only [hmid, ↓reduceDIte, ↓reduceIte] at ih ⊢
      -- everything before the middle lies below as well
      refine ⟨fun i hi hlt => ?_, fun i hi hlt => ih.2 i hi (by omega)⟩
      by_cases hle : i ≤ start + size / 2
      · exact hmono i _ hle hmid
      · exact ih.1 i (by omega) hlt
    | false =>
      simp only [hmid, Bool.false_eq_true, ↓reduceDIte, ↓reduceIte] at ih ⊢
      -- what is cut off lies behind the middle, so none of it lies below
      refine ⟨ih.1, fun i hi hlt hb => ?_⟩
      by_cases hlow : i < start + (size - size / 2)
      · exact ih.2 i hi hlow hb
      · simp [hmono (start + size / 2) i (by omega) hb] at hmid

/-! ### Searching -/

theorem IsSpaced.last_lt_first (h : IsSpaced blocks) {i j : Nat} {a b : Block}
    (ha : blocks[i]? = some a) (hb : blocks[j]? = some b) (hij : i < j) : a.last < b.first := by
  obtain ⟨hi, rfl⟩ := List.getElem?_eq_some_iff.mp ha
  obtain ⟨hj, rfl⟩ := List.getElem?_eq_some_iff.mp hb
  exact List.pairwise_iff_getElem.mp h i j hi hj hij

theorem IsOrdered.first_le_last (h : IsOrdered blocks) {i : Nat} {b : Block}
    (hb : blocks[i]? = some b) : b.first ≤ b.last := h.1 b (List.mem_of_getElem? hb)

/-- A code point lies in at most one block of a spaced list. -/
theorem IsSpaced.index_unique (h : IsSpaced blocks) {i j : Nat} {a b : Block}
    (ha : blocks[i]? = some a) (hb : blocks[j]? = some b) (hca : code ∈ a) (hcb : code ∈ b) :
    i = j := by
  rw [mem_iff] at hca hcb
  rcases Nat.lt_trichotomy i j with hij | hij | hij
  · have := h.last_lt_first ha hb hij
    omega
  · exact hij
  · have := h.last_lt_first hb ha hij
    omega

/-- The linear scan of an ordered list finds the block that has the code point. -/
theorem scan?_eq_some_iff (h : IsOrdered blocks) {i : Nat} :
    scan? blocks code = some i ↔ ∃ b, blocks[i]? = some b ∧ code ∈ b := by
  rw [scan?, List.findIdx?_eq_some_iff_getElem]
  constructor
  · rintro ⟨hi, hmem, -⟩
    exact ⟨blocks[i], List.getElem?_eq_getElem hi, by simpa using hmem⟩
  · rintro ⟨b, hb, hmem⟩
    obtain ⟨hi, rfl⟩ := List.getElem?_eq_some_iff.mp hb
    refine ⟨hi, by simpa using hmem, fun j hj => ?_⟩
    simp only [decide_eq_true_eq]
    intro hmem'
    have := h.isSpaced.index_unique (List.getElem?_eq_getElem (by omega)) hb hmem' hmem
    omega

/-- Bisecting an ordered list finds the block that has the code point. -/
theorem find?_eq_some_iff (h : IsOrdered blocks) {i : Nat} :
    find? blocks code = some i ↔ ∃ b, blocks[i]? = some b ∧ code ∈ b := by
  refine ⟨mem_of_find?, fun ⟨b, hb, hmem⟩ => ?_⟩
  let below : Nat → Bool := fun j => blocks[j]?.any fun c => c.last < code
  have hmono : ∀ j k, j ≤ k → below k = true → below j = true := by
    intro j k hjk hk
    simp only [below, Option.any_eq_true, decide_eq_true_eq] at hk ⊢
    obtain ⟨c, hc, hlt⟩ := hk
    rcases Nat.eq_or_lt_of_le hjk with rfl | hjk
    · exact ⟨c, hc, hlt⟩
    · obtain ⟨hk, -⟩ := List.getElem?_eq_some_iff.mp hc
      have hj : blocks[j]? = some blocks[j] := List.getElem?_eq_getElem (by omega)
      have := h.isSpaced.last_lt_first hj hc hjk
      have := h.first_le_last hc
      exact ⟨_, hj, by omega⟩
  obtain ⟨hbelow, habove⟩ := bisect_spec hmono 0 blocks.length
  generalize hj : bisect below 0 blocks.length = j at hbelow habove
  rw [mem_iff] at hmem
  obtain ⟨hi, -⟩ := List.getElem?_eq_some_iff.mp hb
  -- the bisection can stop neither before nor behind the block that has the code point
  have hstop : j = i := by
    rcases Nat.lt_trichotomy j i with hlt | heq | hlt
    · have hjb : blocks[j]? = some blocks[j] := List.getElem?_eq_getElem (by omega)
      have := h.isSpaced.last_lt_first hjb hb hlt
      have hbj : below j = true := by
        simp only [below, hjb, Option.any_some, decide_eq_true_eq]
        omega
      exact absurd hbj (habove j (Nat.le_refl j) (by omega))
    · exact heq
    · have hlast := hbelow i (Nat.zero_le i) hlt
      simp only [below, hb, Option.any_some, decide_eq_true_eq] at hlast
      omega
  have hfound : find? blocks code =
      if blocks[bisect below 0 blocks.length]?.any fun c => code ∈ c then
        some (bisect below 0 blocks.length) else none := rfl
  rw [hfound, hj, hstop, hb, if_pos (by simpa [mem_iff] using hmem)]

/-- **Bisection and linear scan agree** on ordered lists. -/
theorem find?_eq_scan? (h : IsOrdered blocks) (code : Nat) :
    find? blocks code = scan? blocks code :=
  Option.ext fun _ => (find?_eq_some_iff h).trans (scan?_eq_some_iff h).symm

/-- A block that bisection finds for one of its characters is found for all of them. -/
def IsSearchable (blocks : List Block) : Prop :=
  ∀ (c d : Char) (i : Nat) (b : Block), find? blocks c.toNat = some i → blocks[i]? = some b →
    d.toNat ∈ b → find? blocks d.toNat = some i

theorem IsOrdered.isSearchable (h : IsOrdered blocks) : IsSearchable blocks :=
  fun _ _ _ b _ hb hd => (find?_eq_some_iff h).mpr ⟨b, hb, hd⟩

/-- In a spaced list that is not searchable, some block is found for one of its characters while
nothing at all is found for another one. -/
theorem IsSpaced.exists_of_not_isSearchable (h : IsSpaced blocks) (hs : ¬IsSearchable blocks) :
    ∃ (c d : Char) (i : Nat) (b : Block), find? blocks c.toNat = some i ∧ blocks[i]? = some b ∧
      d.toNat ∈ b ∧ find? blocks d.toNat = none := by
  simp only [IsSearchable, Classical.not_forall] at hs
  obtain ⟨c, d, i, b, hc, hb, hd, hne⟩ := hs
  refine ⟨c, d, i, b, hc, hb, hd, ?_⟩
  cases hfound : find? blocks d.toNat with
  | none => rfl
  | some j =>
    obtain ⟨a, ha, hda⟩ := mem_of_find? hfound
    obtain rfl := h.index_unique ha hb hda hd
    exact absurd hfound hne

end Block

end Typecase
