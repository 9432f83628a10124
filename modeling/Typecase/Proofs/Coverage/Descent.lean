import Typecase.Coverage.Choice

/-!
# Who is asked, and who is picked

The fonts of a block are asked by descending weights. `Choice.IsHeaviest` says what one step looks
for, and `isHeaviest_iff` that this is what it finds: the largest weight that may still be tried, at
the earliest of its positions.

* **Soundness.** A font that is picked has the glyph, and its weight is not zero
  (`font_descend_sound`).
* **Completeness.** Of the fonts with one weight only the earliest is asked. If that one has the
  glyph, then the font picked is at least as heavy (`font_descend_complete`). Later fonts with the
  same weight may have the glyph in vain.
-/

namespace Typecase.Choice

variable {weights done : List Nat} {ceiling : Option Nat} {has : Nat → Bool} {f g v w : Nat}

theorem admissible_iff : admissible ceiling w = true ↔ 0 < w ∧ ∀ c ∈ ceiling, w < c := by
  rw [admissible, Bool.and_eq_true, decide_eq_true_eq]
  cases ceiling with
  | none => simp
  | some c => simp

/-! ### One step -/

/-- The largest of the weights that may still be tried, at the earliest of its positions; nothing if
no weight may be tried. -/
def IsHeaviest (ceiling : Option Nat) (weights : List Nat) : Option (Nat × Nat) → Prop
  | none => ∀ v ∈ weights, admissible ceiling v = false
  | some (i, w) => weights[i]? = some w ∧ admissible ceiling w = true ∧
      (∀ v ∈ weights, admissible ceiling v = true → v ≤ w) ∧ ∀ j, j < i → weights[j]? ≠ some w

theorem isHeaviest_nil (ceiling : Option Nat) : IsHeaviest ceiling [] none := by
  intro v hv
  simp at hv

/-- What may be tried weighs no more than the heaviest. -/
theorem IsHeaviest.exists_le {best : Option (Nat × Nat)} (h : IsHeaviest ceiling weights best)
    (hv : v ∈ weights) (ha : admissible ceiling v = true) : ∃ b ∈ best, v ≤ b.2 := by
  cases best with
  | none =>
    have hnone : admissible ceiling v = false := h v hv
    rw [hnone] at ha
    contradiction
  | some b =>
    obtain ⟨-, -, hmax, -⟩ := h
    exact ⟨b, rfl, hmax v hv ha⟩

/-- One more weight is the heaviest if it may be tried and is heavier than the heaviest so far. -/
theorem IsHeaviest.concat_of_forall_lt {best : Option (Nat × Nat)}
    (h : IsHeaviest ceiling done best) (hw : admissible ceiling w = true)
    (hlt : ∀ b ∈ best, b.2 < w) : IsHeaviest ceiling (done ++ [w]) (some (done.length, w)) := by
  have hbefore : ∀ v ∈ done, admissible ceiling v = true → v < w := by
    intro v hv ha
    obtain ⟨b, hb, hle⟩ := h.exists_le hv ha
    exact Nat.lt_of_le_of_lt hle (hlt b hb)
  refine ⟨List.getElem?_concat_length, hw, fun v hv ha => ?_, fun j hj hjw => ?_⟩
  · rcases List.mem_append.mp hv with hv | hv
    · exact Nat.le_of_lt (hbefore v hv ha)
    · exact Nat.le_of_eq (List.mem_singleton.mp hv)
  · rw [List.getElem?_append_left hj] at hjw
    exact Nat.lt_irrefl w (hbefore w (List.mem_of_getElem? hjw) hw)

/-- Otherwise the heaviest stays the heaviest. -/
theorem IsHeaviest.concat_of_exists_le {best : Option (Nat × Nat)}
    (h : IsHeaviest ceiling done best)
    (hw : admissible ceiling w = true → ∃ b ∈ best, w ≤ b.2) :
    IsHeaviest ceiling (done ++ [w]) best := by
  cases best with
  | none =>
    intro v hv
    rcases List.mem_append.mp hv with hv | hv
    · exact h v hv
    · rw [List.mem_singleton.mp hv]
      refine Bool.eq_false_iff.mpr fun ha => ?_
      obtain ⟨b, hb, -⟩ := hw ha
      contradiction
  | some b =>
    obtain ⟨hb, hadm, hmax, hfirst⟩ := h
    have hlt : b.1 < done.length := (List.getElem?_eq_some_iff.mp hb).1
    refine ⟨?_, hadm, fun v hv ha => ?_, fun j hj => ?_⟩
    · rw [List.getElem?_append_left hlt, hb]
    · rcases List.mem_append.mp hv with hv | hv
      · exact hmax v hv ha
      · obtain rfl := List.mem_singleton.mp hv
        obtain ⟨b', hb', hle⟩ := hw ha
        obtain rfl := Option.some.inj hb'
        exact hle
    · rw [List.getElem?_append_left (Nat.lt_trans hj hlt)]
      exact hfirst j hj

theorem isHeaviest_heaviestFrom {best : Option (Nat × Nat)} (h : IsHeaviest ceiling done best)
    (weights : List Nat) :
    IsHeaviest ceiling (done ++ weights) (heaviestFrom ceiling best done.length weights) := by
  induction weights generalizing done best with
  | nil => rwa [List.append_nil]
  | cons w rest ih =>
    have hlength : (done ++ [w]).length = done.length + 1 := by simp
    rw [List.append_cons, heaviestFrom]
    split
    · rename_i hw
      obtain ⟨hadm, hall⟩ := Bool.and_eq_true_iff.mp hw
      have hlt : ∀ b ∈ best, b.2 < w :=
        fun b hb => of_decide_eq_true ((Option.all_eq_true _ _).mp hall b hb)
      exact hlength ▸ ih (h.concat_of_forall_lt hadm hlt)
    · rename_i hw
      have hle : admissible ceiling w = true → ∃ b ∈ best, w ≤ b.2 := by
        simpa only [Bool.and_eq_true, Option.all_eq_true, decide_eq_true_eq, not_and,
          Classical.not_forall, Nat.not_lt, exists_prop, Option.mem_def] using hw
      exact hlength ▸ ih (h.concat_of_exists_le hle)

/-- **Each step finds what it looks for.** -/
theorem isHeaviest_heaviest (ceiling : Option Nat) (weights : List Nat) :
    IsHeaviest ceiling weights (heaviest ceiling weights) :=
  isHeaviest_heaviestFrom (isHeaviest_nil ceiling) weights

/-- There is only one thing to find. -/
theorem IsHeaviest.eq {best other : Option (Nat × Nat)} (h : IsHeaviest ceiling weights best)
    (h' : IsHeaviest ceiling weights other) : best = other := by
  have hmem {p : Nat × Nat} (hp : IsHeaviest ceiling weights (some p)) :
      p.2 ∈ weights ∧ admissible ceiling p.2 = true := ⟨List.mem_of_getElem? hp.1, hp.2.1⟩
  match best, other with
  | none, none => rfl
  | none, some p => exact absurd (hmem h').2 (Bool.eq_false_iff.mp (h _ (hmem h').1))
  | some p, none => exact absurd (hmem h).2 (Bool.eq_false_iff.mp (h' _ (hmem h).1))
  | some (i, w), some (j, v) =>
    obtain ⟨hi, hw, hmax, hfirst⟩ := h
    obtain ⟨hj, hv, hmax', hfirst'⟩ := h'
    obtain rfl : w = v := Nat.le_antisymm (hmax' w (List.mem_of_getElem? hi) hw)
      (hmax v (List.mem_of_getElem? hj) hv)
    rcases Nat.lt_trichotomy i j with hlt | rfl | hlt
    · exact absurd hi (hfirst' i hlt)
    · rfl
    · exact absurd hj (hfirst j hlt)

theorem isHeaviest_iff {best : Option (Nat × Nat)} :
    IsHeaviest ceiling weights best ↔ heaviest ceiling weights = best := by
  constructor
  · exact fun h => (isHeaviest_heaviest ceiling weights).eq h
  · rintro rfl
    exact isHeaviest_heaviest ceiling weights

/-! ### The whole descent -/

theorem descendFrom_of_eq_none (h : heaviest ceiling weights = none) (has : Nat → Bool) :
    descendFrom weights has ceiling = ⟨[], none⟩ := by
  rw [descendFrom]
  split
  · rfl
  · rename_i hp
    rw [h] at hp
    contradiction

/-- One step asks one font, and the descent goes on below its weight if it has no glyph. -/
theorem descendFrom_of_eq_some {p : Nat × Nat} (h : heaviest ceiling weights = some p) :
    descendFrom weights has ceiling =
      if has p.1 then ⟨[p.1], some p.1⟩
      else ⟨p.1 :: (descendFrom weights has (some p.2)).asked,
        (descendFrom weights has (some p.2)).font⟩ := by
  rw [descendFrom]
  split
  · rename_i hp
    rw [h] at hp
    contradiction
  · rename_i hp
    obtain rfl := Option.some.inj (h.symm.trans hp)
    rfl

theorem font_descendFrom_sound (h : (descendFrom weights has ceiling).font = some g) :
    has g = true ∧ ∃ w, weights[g]? = some w ∧ 0 < w := by
  fun_induction descendFrom weights has ceiling with
  | case1 => contradiction
  | case2 ceiling p hp hhas =>
    obtain rfl := Option.some.inj h
    obtain ⟨hi, hadm, -, -⟩ := isHeaviest_iff.mpr hp
    exact ⟨hhas, p.2, hi, (admissible_iff.mp hadm).1⟩
  | case3 ceiling p hp hhas _ _ ih => exact ih h

/-- **Soundness**: a font that is picked has the glyph, and its weight is not zero. -/
theorem font_descend_sound (h : (descend weights has).font = some g) :
    has g = true ∧ 0 < weights.getD g 0 := by
  obtain ⟨hhas, w, hw, hpos⟩ := font_descendFrom_sound h
  rw [List.getD_eq_getElem?_getD, hw]
  exact ⟨hhas, hpos⟩

/-- If the earliest font with an admissible weight has the glyph, a font that is at least as heavy is
picked. -/
theorem font_descendFrom_complete (hw : weights[f]? = some w)
    (hadm : admissible ceiling w = true) (hfirst : ∀ e, e < f → weights[e]? ≠ some w)
    (hhas : has f = true) :
    ∃ g v, (descendFrom weights has ceiling).font = some g ∧ weights[g]? = some v ∧ w ≤ v := by
  have hmem : w ∈ weights := List.mem_of_getElem? hw
  fun_induction descendFrom weights has ceiling with
  | case1 ceiling hp =>
    have hnone : admissible ceiling w = false := isHeaviest_iff.mpr hp w hmem
    rw [hnone] at hadm
    contradiction
  | case2 ceiling p hp hpicked =>
    obtain ⟨hi, -, hmax, -⟩ := isHeaviest_iff.mpr hp
    exact ⟨p.1, p.2, rfl, hi, hmax w hmem hadm⟩
  | case3 ceiling p hp hmissed _ _ ih =>
    obtain ⟨hi, -, hmax, hearliest⟩ := isHeaviest_iff.mpr hp
    have hle : w ≤ p.2 := hmax w hmem hadm
    -- the font just asked is heavier, for otherwise it would be `f` itself
    have hne : w ≠ p.2 := by
      intro heq
      have hpf : ¬p.1 < f := fun hlt => hfirst p.1 hlt (heq ▸ hi)
      have hfp : ¬f < p.1 := fun hlt => hearliest f hlt (heq ▸ hw)
      have hsame : p.1 = f := by omega
      exact hmissed (hsame ▸ hhas)
    have hpos : 0 < w := (admissible_iff.mp hadm).1
    refine ih (admissible_iff.mpr ⟨hpos, fun c hc => ?_⟩)
    obtain rfl : p.2 = c := Option.some.inj hc
    omega

/-- **Completeness**: if the earliest font with a weight other than zero has the glyph, a font that
is at least as heavy is picked. -/
theorem font_descend_complete (hpos : 0 < weights.getD f 0)
    (hfirst : ∀ e, e < f → weights.getD e 0 ≠ weights.getD f 0) (hhas : has f = true) :
    ∃ g, (descend weights has).font = some g ∧ weights.getD f 0 ≤ weights.getD g 0 := by
  simp only [List.getD_eq_getElem?_getD] at hpos hfirst ⊢
  obtain ⟨w, hw⟩ : ∃ w, weights[f]? = some w := by
    cases hf : weights[f]? with
    | none => simp [hf] at hpos
    | some w => exact ⟨w, rfl⟩
  rw [hw, Option.getD_some] at hpos hfirst ⊢
  have hadm : admissible none w = true := admissible_iff.mpr ⟨hpos, by simp⟩
  obtain ⟨g, v, hg, hv, hle⟩ := font_descendFrom_complete hw hadm
    (fun e he heq => hfirst e he (by rw [heq, Option.getD_some])) hhas
  exact ⟨g, hg, by rwa [hv, Option.getD_some]⟩

end Typecase.Choice
