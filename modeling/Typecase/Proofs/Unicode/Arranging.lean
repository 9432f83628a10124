import Typecase.Proofs.Unicode.Ordering

/-!
# Arranging and filtering

Arranging a list of blocks is filtering it greedily, except that a list which passes the quick test
is kept unread. This module says what the difference comes to.

* **The filter** keeps an ordered list whole (`greedy_of_isOrdered`), and filters a list in two
  parts one after the other, the second behind the last block kept of the first (`greedy_append`).
* **The quick test** looks at everything but the end of the last block: a list passes it when the
  blocks before the last one are ordered and end before the last one starts
  (`looksOrdered_concat_iff`).
* **The difference** is therefore one block at most. `overlooked` is the last block of a list that
  passes the quick test, if it is inverted; it is kept, and the filter drops it. Where no block is
  overlooked, and only there, arranging and filtering are the same (`arrange_spec`).
-/

namespace Typecase

namespace Block

variable {blocks : List Block} {b : Block}

/-! ### The filter -/

theorem mayFollow_iff {previous : Option Block} :
    mayFollow previous b = true ↔ b.first ≤ b.last ∧ ∀ p ∈ previous, p.last < b.first := by
  rw [mayFollow, Bool.and_eq_true, Option.all_eq_true, decide_eq_true_eq]
  simp only [decide_eq_true_eq, Option.mem_def]

/-- The filter keeps an ordered list that starts after the block before it. -/
theorem greedy_of_isOrdered {previous : Option Block} (h : IsOrdered blocks)
    (hstart : ∀ p ∈ previous, ∀ b ∈ blocks.head?, p.last < b.first) :
    greedy previous blocks = ⟨blocks, []⟩ := by
  induction blocks generalizing previous with
  | nil => rfl
  | cons b rest ih =>
    obtain ⟨hb, hlt, hrest⟩ := isOrdered_cons_iff.mp h
    have hmay : mayFollow previous b = true := mayFollow_iff.mpr ⟨hb, fun p hp => hstart p hp b rfl⟩
    have hnext : ∀ p ∈ some b, ∀ c ∈ rest.head?, p.last < c.first := by
      rintro p hp c hc
      obtain rfl := Option.some.inj hp
      exact hlt c (List.mem_of_head? hc)
    rw [greedy, if_pos hmay, ih hrest hnext]

/-- A list in two parts is filtered part by part. -/
theorem greedy_append (previous : Option Block) (front back : List Block) :
    let r := greedy previous front
    let s := greedy (r.kept.getLast?.or previous) back
    greedy previous (front ++ back) = ⟨r.kept ++ s.kept, r.dropped ++ s.dropped⟩ := by
  induction front generalizing previous with
  | nil => rfl
  | cons b rest ih =>
    rw [List.cons_append, greedy, greedy]
    split
    · -- the block is kept, and is the block before the rest
      have hlast : ((b :: (greedy (some b) rest).kept).getLast?.or previous) =
          (greedy (some b) rest).kept.getLast?.or (some b) := by
        rw [List.getLast?_cons]
        cases (greedy (some b) rest).kept.getLast? <;> rfl
      simp only [ih, hlast, List.cons_append]
    · simp only [ih, List.cons_append]

/-! ### The quick test -/

theorem looksOrdered_concat_iff : looksOrdered (blocks ++ [b]) = true ↔
    IsOrdered blocks ∧ ∀ a ∈ blocks.getLast?, a.last < b.first := by
  have hpairs : looksOrdered (blocks ++ [b]) = true ↔ looksOrdered blocks = true ∧
      ∀ a ∈ blocks.getLast?, a.first ≤ a.last ∧ a.last < b.first := by
    induction blocks with
    | nil => simp [looksOrdered]
    | cons a rest ih =>
      cases rest with
      | nil => simp [looksOrdered]
      | cons c rest =>
        rw [List.getLast?_cons_cons, List.cons_append, List.cons_append, looksOrdered,
          ← List.cons_append, looksOrdered]
        simp only [Bool.and_eq_true, ih, and_assoc]
  rw [hpairs, isOrdered_iff_looksOrdered, and_assoc]
  exact and_congr_right fun _ => ⟨fun h => ⟨fun a ha => (h a ha).1, fun a ha => (h a ha).2⟩,
    fun h a ha => ⟨h.1 a ha, h.2 a ha⟩⟩

/-- Behind a list and a block that pass the quick test together, the filter keeps the list and drops
the block if it is inverted. -/
theorem greedy_concat_of_looksOrdered (h : looksOrdered (blocks ++ [b]) = true) :
    greedy none (blocks ++ [b]) =
      if b.last < b.first then ⟨blocks, [b]⟩ else ⟨blocks ++ [b], []⟩ := by
  obtain ⟨hord, hlast⟩ := looksOrdered_concat_iff.mp h
  have hfront : greedy none blocks = ⟨blocks, []⟩ := greedy_of_isOrdered hord (by simp)
  rw [greedy_append, hfront]
  simp only [Option.or_none, List.nil_append]
  split
  · rename_i hinv
    have hno : mayFollow blocks.getLast? b = false :=
      Bool.eq_false_iff.mpr fun hmay => absurd (mayFollow_iff.mp hmay).1 (by omega)
    simp [greedy, hno]
  · rename_i hinv
    have hmay : mayFollow blocks.getLast? b = true :=
      mayFollow_iff.mpr ⟨Nat.le_of_not_lt hinv, hlast⟩
    simp [greedy, hmay]

/-! ### The difference -/

/-- The blocks that the quick test overlooks: the last block of a list that passes it, if that block
is inverted. -/
def overlooked (blocks : List Block) : List Block :=
  if looksOrdered blocks then blocks.getLast?.toList.filter fun b => b.last < b.first else []

theorem overlooked_eq_nil_iff : overlooked blocks = [] ↔
    (looksOrdered blocks = true → ∀ b ∈ blocks.getLast?, b.first ≤ b.last) := by
  rw [overlooked]
  split
  · rename_i h
    simp [h, List.filter_eq_nil_iff]
  · rename_i h
    simp [h]

/-- For a list that passes the quick test, the filter keeps all but what is overlooked. -/
theorem greedy_of_looksOrdered (h : looksOrdered blocks = true) :
    (greedy none blocks).kept ++ overlooked blocks = blocks ∧
      (greedy none blocks).dropped = overlooked blocks := by
  rcases List.eq_nil_or_concat blocks with rfl | ⟨front, b, rfl⟩
  · exact ⟨rfl, rfl⟩
  · rw [List.concat_eq_append] at h ⊢
    rw [greedy_concat_of_looksOrdered h, overlooked, if_pos h, List.getLast?_concat]
    by_cases hinv : b.last < b.first <;> simp [hinv]

/-- The filter keeps a list whole exactly when the list is ordered. -/
theorem kept_greedy_eq_self_iff : (greedy none blocks).kept = blocks ↔ IsOrdered blocks := by
  constructor
  · intro h
    rw [← h]
    exact isOrdered_kept_greedy none blocks
  · intro h
    rw [greedy_of_isOrdered h (by simp)]

/-- **What arranging keeps beyond the filter.** The blocks kept are those that the greedy filter
keeps, followed by the block that the quick test overlooks, if there is one; that block is missing
among the blocks dropped. The blocks kept are ordered, and the quick test accepts exactly the lists
that the filter leaves as they are, if and only if no block is overlooked. -/
theorem arrange_spec (blocks : List Block) :
    (arrange blocks).kept = (greedy none blocks).kept ++ overlooked blocks ∧
      (greedy none blocks).dropped = (arrange blocks).dropped ++ overlooked blocks ∧
      (arrange blocks = greedy none blocks ↔ overlooked blocks = []) ∧
      (IsOrdered (arrange blocks).kept ↔ overlooked blocks = []) ∧
      ((looksOrdered blocks = true ↔ (greedy none blocks).kept = blocks) ↔
        overlooked blocks = []) := by
  have hkept : (arrange blocks).kept = (greedy none blocks).kept ++ overlooked blocks := by
    rw [arrange]
    split
    · rename_i h
      exact (greedy_of_looksOrdered h).1.symm
    · rename_i h
      rw [overlooked, if_neg h, List.append_nil]
  have hdropped : (greedy none blocks).dropped = (arrange blocks).dropped ++ overlooked blocks := by
    rw [arrange]
    split
    · rename_i h
      exact (greedy_of_looksOrdered h).2
    · rename_i h
      rw [overlooked, if_neg h, List.append_nil]
  refine ⟨hkept, hdropped, ⟨fun h => ?_, fun h => ?_⟩, ?_, ?_⟩
  · rw [h, List.self_eq_append_right] at hkept
    exact hkept
  · rw [h, List.append_nil] at hkept hdropped
    calc arrange blocks = ⟨(arrange blocks).kept, (arrange blocks).dropped⟩ := rfl
      _ = greedy none blocks := by rw [hkept, ← hdropped]
  · rw [isOrdered_kept_arrange_iff, overlooked_eq_nil_iff]
  · rw [kept_greedy_eq_self_iff, isOrdered_iff_looksOrdered, overlooked_eq_nil_iff]
    exact ⟨fun h hlook => (h.mp hlook).2, fun h => ⟨fun hlook => ⟨hlook, h hlook⟩, And.left⟩⟩

example : arrange [⟨"Latin", 65, 90⟩, ⟨"Late", 96, 69⟩] =
    ⟨[⟨"Latin", 65, 90⟩, ⟨"Late", 96, 69⟩], []⟩ := by decide
example : greedy none [⟨"Latin", 65, 90⟩, ⟨"Late", 96, 69⟩] =
    ⟨[⟨"Latin", 65, 90⟩], [⟨"Late", 96, 69⟩]⟩ := by decide

end Block

end Typecase
