import Mathlib.Data.List.GetD
import Typecase.Proofs.Coverage.Descent
import Typecase.Proofs.Repeats

/-!
# The ladder of a block

The descent through the fonts of a block looks for the next weight anew in each step.
`Choice.ladder` lists the fonts that it would ask if no font ever had the glyph; here the two are
tied together.

* **Members and order.** On the ladder stand the fonts that weigh something and are the earliest of
  their weight (`mem_ladder_iff`), from the heaviest down (`pairwise_ladder`). No other list does
  that (`eq_ladder`), so a ladder is found by giving a list and checking both.
* **Asking in turn** is a recursion on a list, which commutes with giving the fonts other numbers
  (`askInTurn_map`) and takes a list in two parts one part after the other
  (`asked_askInTurn_append`).
* **The descent** asks the fonts of the ladder one after the other and stops at the first that has
  the glyph (`descend_eq_askInTurn`).
* **The preferred font** is the earliest of the heaviest (`spec_of_preferred_eq_some`), and there is
  none only if no font weighs anything (`preferred_eq_none_iff`).
-/

namespace Typecase.Choice

variable {weights : List Nat} {has : Nat → Bool} {i w : Nat}

/-! ### Members and order -/

/-- A font that can be asked: it weighs something, and no font before it weighs the same. -/
def IsForemost (weights : List Nat) (i : Nat) : Prop :=
  0 < weights.getD i 0 ∧ ∀ j, j < i → weights.getD j 0 ≠ weights.getD i 0

theorem mem_rungs : w ∈ rungs weights ↔ w ∈ weights ∧ 0 < w := by
  rw [rungs, Repeats.mem_eraseReps, List.mem_mergeSort, List.mem_filter, decide_eq_true_eq]

theorem pairwise_rungs (weights : List Nat) : (rungs weights).Pairwise fun v w => w < v := by
  have hsorted := List.pairwise_mergeSort' (r := fun v w : Nat => w ≤ v) (weights.filter (0 < ·))
  refine (Repeats.pairwise_eraseReps hsorted).imp fun h => ?_
  exact Nat.lt_of_le_of_ne h.1 h.2.symm

theorem lt_length_of_getD_pos (h : 0 < weights.getD i 0) : i < weights.length := by
  refine Nat.lt_of_not_le fun hle => ?_
  rw [List.getD_eq_getElem?_getD, List.getElem?_eq_none hle] at h
  exact Nat.lt_irrefl 0 h

theorem getD_mem_of_pos (h : 0 < weights.getD i 0) : weights.getD i 0 ∈ weights := by
  rw [List.getD_eq_getElem _ _ (lt_length_of_getD_pos h)]
  exact List.getElem_mem _

/-- The earliest position of a weight other than zero, with zeros behind the end of the list. -/
theorem idxOf_eq_iff (hw : 0 < w) : w ∈ weights ∧ weights.idxOf w = i ↔
    weights.getD i 0 = w ∧ ∀ j, j < i → weights.getD j 0 ≠ w := by
  constructor
  · rintro ⟨hmem, rfl⟩
    have hlt : weights.idxOf w < weights.length := List.idxOf_lt_length_of_mem hmem
    refine ⟨?_, fun j hj => ?_⟩
    · rw [List.getD_eq_getElem _ _ hlt, List.getElem_idxOf]
    · rw [List.getD_eq_getElem _ _ (Nat.lt_trans hj hlt)]
      simpa using List.not_of_lt_findIdx hj
  · rintro ⟨rfl, hfirst⟩
    have hlt : i < weights.length := lt_length_of_getD_pos hw
    rw [List.getD_eq_getElem _ _ hlt] at hfirst ⊢
    refine ⟨List.getElem_mem hlt, (List.findIdx_eq hlt).mpr ⟨by simp, fun j hj => ?_⟩⟩
    have hne := hfirst j hj
    rw [List.getD_eq_getElem _ _ (Nat.lt_trans hj hlt)] at hne
    exact beq_false_of_ne hne

/-- On the ladder stand the fonts that can be asked. -/
theorem mem_ladder_iff : i ∈ ladder weights ↔ IsForemost weights i := by
  rw [ladder, List.mem_map]
  constructor
  · rintro ⟨w, hw, hi⟩
    obtain ⟨hmem, hpos⟩ := mem_rungs.mp hw
    obtain ⟨rfl, hfirst⟩ := (idxOf_eq_iff hpos).mp ⟨hmem, hi⟩
    exact ⟨hpos, hfirst⟩
  · rintro ⟨hpos, hfirst⟩
    obtain ⟨hmem, hi⟩ := (idxOf_eq_iff hpos).mpr ⟨rfl, hfirst⟩
    exact ⟨weights.getD i 0, mem_rungs.mpr ⟨hmem, hpos⟩, hi⟩

/-- The font on a rung has the weight of that rung. -/
theorem getD_idxOf_of_mem_rungs (hw : w ∈ rungs weights) :
    weights.getD (weights.idxOf w) 0 = w := by
  obtain ⟨hmem, hpos⟩ := mem_rungs.mp hw
  exact ((idxOf_eq_iff hpos).mp ⟨hmem, rfl⟩).1

/-- The weights fall from each font on the ladder to the next. -/
theorem pairwise_ladder (weights : List Nat) :
    (ladder weights).Pairwise fun i j => weights.getD j 0 < weights.getD i 0 := by
  refine List.pairwise_map.mpr ((pairwise_rungs weights).imp_of_mem fun hv hw hlt => ?_)
  rwa [getD_idxOf_of_mem_rungs hv, getD_idxOf_of_mem_rungs hw]

/-- Falling weights and the members of a list determine the list. -/
theorem eq_of_pairwise_weight (weight : Nat → Nat) {l l' : List Nat}
    (h : l.Pairwise fun i j => weight j < weight i)
    (h' : l'.Pairwise fun i j => weight j < weight i)
    (hmem : ∀ i, i ∈ l ↔ i ∈ l') : l = l' := by
  have : Std.Irrefl fun i j => weight j < weight i := ⟨fun i => Nat.lt_irrefl (weight i)⟩
  have : Std.Antisymm fun i j => weight j < weight i :=
    ⟨fun i j hij hji => absurd hij (Nat.lt_asymm hji)⟩
  exact h.eq_of_mem_iff h' hmem

/-- **Only the ladder** has the fonts that can be asked as its members and falling weights. -/
theorem eq_ladder {l : List Nat} (h : l.Pairwise fun i j => weights.getD j 0 < weights.getD i 0)
    (hmem : ∀ i, i ∈ l ↔ IsForemost weights i) : l = ladder weights :=
  eq_of_pairwise_weight _ h (pairwise_ladder weights) fun i => (hmem i).trans mem_ladder_iff.symm

/-! ### Asking in turn -/

/-- Asks the fonts in a list one after the other until one has the glyph. -/
def askInTurn (has : Nat → Bool) : List Nat → Choice
  | [] => ⟨[], none⟩
  | i :: rest =>
    if has i then ⟨[i], some i⟩
    else
      let r := askInTurn has rest
      { r with asked := i :: r.asked }

/-- The choice with other numbers for the fonts. -/
def renumber (number : Nat → Nat) (c : Choice) : Choice := ⟨c.asked.map number, c.font.map number⟩

theorem askInTurn_map (has : Nat → Bool) (number : Nat → Nat) (l : List Nat) :
    askInTurn has (l.map number) = (askInTurn (fun i => has (number i)) l).renumber number := by
  induction l with
  | nil => rfl
  | cons i rest ih =>
    rw [List.map_cons, askInTurn, askInTurn]
    split
    · rfl
    · rw [ih]
      rfl

theorem isPrefix_asked_askInTurn (has : Nat → Bool) (l : List Nat) :
    (askInTurn has l).asked <+: l := by
  induction l with
  | nil => exact List.prefix_refl []
  | cons i rest ih =>
    rw [askInTurn]
    split
    · exact ⟨rest, rfl⟩
    · exact (List.prefix_cons_inj i).mpr ih

/-- The fonts of the second part are asked after all those of the first part, if at all. -/
theorem asked_askInTurn_append (has : Nat → Bool) (l l' : List Nat) :
    (askInTurn has (l ++ l')).asked <+: l ∨
      ∃ others, others <+: l' ∧ (askInTurn has (l ++ l')).asked = l ++ others := by
  induction l with
  | nil => exact .inr ⟨_, isPrefix_asked_askInTurn has l', rfl⟩
  | cons i rest ih =>
    rw [List.cons_append, askInTurn]
    split
    · exact .inl ⟨rest, rfl⟩
    · rcases ih with h | ⟨others, hothers, h⟩
      · exact .inl ((List.prefix_cons_inj i).mpr h)
      · exact .inr ⟨others, hothers, by simp [h]⟩

/-! ### The descent -/

theorem IsHeaviest.getD_eq {ceiling : Option Nat} {p : Nat × Nat}
    (h : IsHeaviest ceiling weights (some p)) : weights.getD p.1 0 = p.2 := by
  obtain ⟨hat, -⟩ := h
  rw [List.getD_eq_getElem?_getD, hat]
  rfl

/-- Read with zeros behind its end, a list has no weight that may be tried and is above the
heaviest. -/
theorem IsHeaviest.getD_le {ceiling : Option Nat} {p : Nat × Nat}
    (h : IsHeaviest ceiling weights (some p)) (ha : admissible ceiling (weights.getD i 0) = true) :
    weights.getD i 0 ≤ p.2 := by
  obtain ⟨-, -, hmax, -⟩ := h
  exact hmax _ (getD_mem_of_pos (admissible_iff.mp ha).1) ha

theorem IsHeaviest.isForemost {ceiling : Option Nat} {p : Nat × Nat}
    (h : IsHeaviest ceiling weights (some p)) : IsForemost weights p.1 := by
  have hweight : weights.getD p.1 0 = p.2 := h.getD_eq
  obtain ⟨-, hadm, -, hfirst⟩ := h
  have hpos : 0 < p.2 := (admissible_iff.mp hadm).1
  refine ⟨hweight ▸ hpos, fun j hj heq => hfirst j hj ?_⟩
  have hlt : j < weights.length := lt_length_of_getD_pos (by omega)
  rw [List.getElem?_eq_getElem hlt, ← List.getD_eq_getElem _ 0 hlt, heq, hweight]

/-- Two fonts that can be asked and weigh the same are one. -/
theorem IsForemost.eq_of_getD_eq {j : Nat} (hi : IsForemost weights i) (hj : IsForemost weights j)
    (h : weights.getD i 0 = weights.getD j 0) : i = j := by
  rcases Nat.lt_trichotomy i j with hlt | heq | hlt
  · exact absurd h (hj.2 i hlt)
  · exact heq
  · exact absurd h.symm (hi.2 j hlt)

/-- The fonts on the ladder that may be asked below a ceiling. -/
private def ladderBelow (weights : List Nat) (ceiling : Option Nat) : List Nat :=
  (ladder weights).filter fun i => admissible ceiling (weights.getD i 0)

private theorem mem_ladderBelow {ceiling : Option Nat} : i ∈ ladderBelow weights ceiling ↔
    IsForemost weights i ∧ admissible ceiling (weights.getD i 0) = true := by
  rw [ladderBelow, List.mem_filter, mem_ladder_iff]

/-- Without a ceiling the whole ladder may be asked. -/
private theorem ladderBelow_none (weights : List Nat) :
    ladderBelow weights none = ladder weights := by
  refine List.filter_eq_self.mpr fun i hi => ?_
  exact admissible_iff.mpr ⟨(mem_ladder_iff.mp hi).1, by simp⟩

/-- Where nothing may be tried, the ladder below the ceiling is empty. -/
private theorem ladderBelow_of_heaviest_eq_none {ceiling : Option Nat}
    (h : heaviest ceiling weights = none) : ladderBelow weights ceiling = [] := by
  have hnone : IsHeaviest ceiling weights none := isHeaviest_iff.mpr h
  refine List.eq_nil_iff_forall_not_mem.mpr fun i hi => ?_
  obtain ⟨hforemost, hadm⟩ := mem_ladderBelow.mp hi
  exact absurd hadm (Bool.eq_false_iff.mp (hnone _ (getD_mem_of_pos hforemost.1)))

/-- The font that one step finds stands at the head of the ladder below the ceiling; behind it stand
the fonts below its own weight. -/
private theorem ladderBelow_of_heaviest {ceiling : Option Nat} {p : Nat × Nat}
    (h : heaviest ceiling weights = some p) :
    ladderBelow weights ceiling = p.1 :: ladderBelow weights (some p.2) := by
  have hheaviest : IsHeaviest ceiling weights (some p) := isHeaviest_iff.mpr h
  have hweight : weights.getD p.1 0 = p.2 := hheaviest.getD_eq
  have hadm : admissible ceiling p.2 = true := hheaviest.2.1
  refine eq_of_pairwise_weight (fun i => weights.getD i 0)
    ((pairwise_ladder weights).filter _) ?_ fun i => ?_
  · refine List.pairwise_cons.mpr ⟨fun i hi => ?_, (pairwise_ladder weights).filter _⟩
    have hbelow : weights.getD i 0 < p.2 := (admissible_iff.mp (mem_ladderBelow.mp hi).2).2 p.2 rfl
    exact hweight.symm ▸ hbelow
  · rw [List.mem_cons, mem_ladderBelow, mem_ladderBelow]
    constructor
    · rintro ⟨hi, hiadm⟩
      rcases Nat.eq_or_lt_of_le (hheaviest.getD_le hiadm) with heq | hlt
      · exact .inl (hi.eq_of_getD_eq hheaviest.isForemost (heq.trans hweight.symm))
      · refine .inr ⟨hi, admissible_iff.mpr ⟨hi.1, fun c hc => ?_⟩⟩
        exact Option.some.inj hc ▸ hlt
    · rintro (rfl | ⟨hi, hiadm⟩)
      · exact ⟨hheaviest.isForemost, hweight.symm ▸ hadm⟩
      · have hlt : weights.getD i 0 < p.2 := (admissible_iff.mp hiadm).2 p.2 rfl
        have hceiling : ∀ c ∈ ceiling, p.2 < c := (admissible_iff.mp hadm).2
        exact ⟨hi, admissible_iff.mpr ⟨hi.1, fun c hc => Nat.lt_trans hlt (hceiling c hc)⟩⟩

private theorem descendFrom_eq_askInTurn (weights : List Nat) (has : Nat → Bool)
    (ceiling : Option Nat) :
    descendFrom weights has ceiling = askInTurn has (ladderBelow weights ceiling) := by
  fun_induction descendFrom weights has ceiling with
  | case1 ceiling hp =>
    rw [ladderBelow_of_heaviest_eq_none hp]
    rfl
  | case2 ceiling p hp hhas => rw [ladderBelow_of_heaviest hp, askInTurn, if_pos hhas]
  | case3 ceiling p hp hmissed _ r ih =>
    rw [ladderBelow_of_heaviest hp, askInTurn, if_neg hmissed, ← ih]

/-- **The descent asks the ladder in turn.** -/
theorem descend_eq_askInTurn (weights : List Nat) (has : Nat → Bool) :
    descend weights has = askInTurn has (ladder weights) := by
  rw [descend, descendFrom_eq_askInTurn, ladderBelow_none]

/-- Only fonts that stand on the ladder are asked. -/
theorem isForemost_of_mem_asked (h : i ∈ (descend weights has).asked) : IsForemost weights i := by
  rw [descend_eq_askInTurn] at h
  exact mem_ladder_iff.mp ((isPrefix_asked_askInTurn has (ladder weights)).subset h)

/-- A font that weighs nothing is neither asked nor picked. -/
theorem not_asked_of_getD_eq_zero (h : weights.getD i 0 = 0) (has : Nat → Bool) :
    i ∉ (descend weights has).asked ∧ (descend weights has).font ≠ some i :=
  ⟨fun hasked => Nat.ne_of_gt (isForemost_of_mem_asked hasked).1 h,
    fun hfound => Nat.ne_of_gt (font_descend_sound hfound).2 h⟩

/-! ### The preferred font -/

theorem preferred_eq_none_iff : preferred weights = none ↔ ∀ i, weights.getD i 0 = 0 := by
  rw [preferred, Option.map_eq_none_iff]
  cases h : heaviest none weights with
  | none =>
    refine iff_of_true rfl fun i => Nat.eq_zero_of_not_pos fun hpos => ?_
    have hno : admissible none (weights.getD i 0) = false :=
      isHeaviest_iff.mpr h _ (getD_mem_of_pos hpos)
    rw [admissible_iff.mpr ⟨hpos, by simp⟩] at hno
    contradiction
  | some p =>
    refine iff_of_false (by simp) fun hzero => ?_
    exact Nat.ne_of_gt (isHeaviest_iff.mpr h).isForemost.1 (hzero p.1)

/-- The preferred font is the earliest of the heaviest. -/
theorem spec_of_preferred_eq_some (h : preferred weights = some i) :
    IsForemost weights i ∧ ∀ j, weights.getD j 0 ≤ weights.getD i 0 := by
  obtain ⟨p, hp, rfl⟩ := Option.map_eq_some_iff.mp h
  have hheaviest : IsHeaviest none weights (some p) := isHeaviest_iff.mpr hp
  refine ⟨hheaviest.isForemost, fun j => ?_⟩
  rcases Nat.eq_zero_or_pos (weights.getD j 0) with hzero | hpos
  · omega
  · rw [hheaviest.getD_eq]
    exact hheaviest.getD_le (admissible_iff.mpr ⟨hpos, by simp⟩)

end Typecase.Choice
