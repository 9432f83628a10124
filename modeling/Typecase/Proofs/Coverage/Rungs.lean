import Typecase.Coverage.Resolver
import Typecase.Proofs.Coverage.Ladder

/-!
# The descent comes to an end

Asking the fonts of a block is a loop. In each round it looks through all weights for the largest
below the weight of the font asked last, asks the earliest font with that weight, and stops at the
first that has the glyph, or when no weight is left.

* **Runs** (`Choice.Runs`) are the finite sequences of such rounds, with no word on how a round
  finds its font. There is exactly one run, and the descent gives its outcome (`Choice.runs_iff`):
  the weights fall from round to round, so that no run goes on for ever.
* **Rungs.** The fonts asked are those of the ladder up to the first that has the glyph
  (`Choice.askInTurn_eq`), and on the ladder stands one font for each weight
  (`Choice.map_weight_ladder`).
-/

namespace Typecase

namespace Choice

variable {weights : List Nat} {has : Nat → Bool} {ceiling : Option Nat} {r : Choice}

/-! ### Runs -/

/-- The outcomes of the rounds below a ceiling. -/
inductive Runs (weights : List Nat) (has : Nat → Bool) : Option Nat → Choice → Prop
  | exhausted {ceiling : Option Nat} (h : IsHeaviest ceiling weights none) :
      Runs weights has ceiling ⟨[], none⟩
  | found {ceiling : Option Nat} {i w : Nat} (h : IsHeaviest ceiling weights (some (i, w)))
      (hhas : has i = true) : Runs weights has ceiling ⟨[i], some i⟩
  | missed {ceiling : Option Nat} {i w : Nat} {r : Choice}
      (h : IsHeaviest ceiling weights (some (i, w))) (hhas : has i = false)
      (hrest : Runs weights has (some w) r) : Runs weights has ceiling ⟨i :: r.asked, r.font⟩

theorem Runs.descendFrom_eq (h : Runs weights has ceiling r) :
    descendFrom weights has ceiling = r := by
  induction h with
  | exhausted h => exact descendFrom_of_eq_none (isHeaviest_iff.mp h) has
  | found h hhas => rw [descendFrom_of_eq_some (isHeaviest_iff.mp h), if_pos hhas]
  | missed h hhas _ ih =>
    rw [descendFrom_of_eq_some (isHeaviest_iff.mp h), if_neg (Bool.eq_false_iff.mp hhas), ih]

theorem runs_descendFrom (weights : List Nat) (has : Nat → Bool) (ceiling : Option Nat) :
    Runs weights has ceiling (descendFrom weights has ceiling) := by
  -- the recursion is on the bound of the weights that are left, which falls in each round
  fun_induction descendFrom weights has ceiling with
  | case1 ceiling hp => exact .exhausted (isHeaviest_iff.mpr hp)
  | case2 ceiling p hp hhas => exact .found (isHeaviest_iff.mpr hp) hhas
  | case3 ceiling p hp hmissed _ _ ih =>
    exact .missed (isHeaviest_iff.mpr hp) (Bool.eq_false_iff.mpr hmissed) ih

/-- **There is exactly one run**, and the descent gives its outcome. -/
theorem runs_iff : Runs weights has ceiling r ↔ r = descendFrom weights has ceiling := by
  constructor
  · exact fun h => h.descendFrom_eq.symm
  · rintro rfl
    exact runs_descendFrom weights has ceiling

/-! ### Rungs -/

/-- Asking in turn ends with the first font that has the glyph. -/
theorem askInTurn_eq (has : Nat → Bool) (l : List Nat) : askInTurn has l =
    ⟨l.takeWhile (fun i => !has i) ++ (l.find? has).toList, l.find? has⟩ := by
  induction l with
  | nil => rfl
  | cons i rest ih =>
    rw [askInTurn]
    cases hi : has i with
    | true => simp [hi]
    | false => simp [hi, ih]

/-- For each weight other than zero there is one font on the ladder. -/
theorem map_weight_ladder (weights : List Nat) :
    (ladder weights).map (fun i => weights.getD i 0) = rungs weights := by
  rw [ladder, List.map_map]
  exact (List.map_congr_left fun w hw => getD_idxOf_of_mem_rungs hw).trans (List.map_id _)

end Choice

namespace Coverage

/-- **The fonts of a block are asked rung by rung.** The loop comes to an end, in one way only. The
ladder has the earliest font of every distinct weight other than zero, from the largest weight down,
and no other font. The fonts asked are those of the ladder up to the first that has the glyph, and
this one is given; if none has it, all of them are asked and none is given. So no font is asked
twice, and none is asked that weighs nothing or weighs the same as an earlier font. -/
theorem asked_rung_by_rung (c : Coverage) (block : Nat) (has : Nat → Bool) :
    let weights := c.weights block
    let order := Choice.ladder weights
    let r := c.chooseIn block has
    (∀ outcome, Choice.Runs weights has none outcome ↔ outcome = r) ∧
    (∀ i, i ∈ order ↔
      0 < weights.getD i 0 ∧ ∀ j, j < i → weights.getD j 0 ≠ weights.getD i 0) ∧
    (order.Pairwise fun i j => weights.getD j 0 < weights.getD i 0) ∧
    (∀ w, w ∈ order.map (fun i => weights.getD i 0) ↔ w ∈ weights ∧ 0 < w) ∧
    r.asked = order.takeWhile (fun i => !has i) ++ (order.find? has).toList ∧
    r.font = order.find? has ∧
    r.asked.Nodup ∧
    ∀ i ∈ r.asked, 0 < weights.getD i 0 ∧ ∀ j, j < i → weights.getD j 0 ≠ weights.getD i 0 := by
  intro weights order r
  have hr : r = Choice.askInTurn has order := Choice.descend_eq_askInTurn weights has
  have hasked : r.asked <+: order := hr ▸ Choice.isPrefix_asked_askInTurn has order
  have hfalls : order.Pairwise fun i j => weights.getD j 0 < weights.getD i 0 :=
    Choice.pairwise_ladder weights
  refine ⟨fun outcome => Choice.runs_iff, fun i => Choice.mem_ladder_iff, hfalls, fun w => ?_, ?_,
    ?_, ?_, fun i hi => Choice.mem_ladder_iff.mp (hasked.subset hi)⟩
  · rw [Choice.map_weight_ladder]
    exact Choice.mem_rungs
  · rw [hr, Choice.askInTurn_eq]
  · rw [hr, Choice.askInTurn_eq]
  · -- falling weights leave no room for a repetition
    refine (hfalls.sublist hasked.sublist).imp fun hlt => ?_
    rintro rfl
    exact Nat.lt_irrefl _ hlt

end Coverage

end Typecase
