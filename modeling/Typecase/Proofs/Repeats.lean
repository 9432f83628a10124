import Mathlib.Data.List.Sort

/-!
# Leaving out repetitions

`List.eraseReps` leaves out whatever equals the element before it. Nothing else is lost
(`mem_eraseReps`), and what is left of a list in order has no repetitions at all
(`pairwise_eraseReps`, and `pairwise_lt_eraseReps` for ascending numbers).

The library function collects what it keeps in reverse; `loop_eq` takes the collected part out.
-/

namespace Typecase.Repeats

variable {α : Type} [DecidableEq α]

/-- What is kept of a list behind `a`: `a`, and whatever differs from the element before it. -/
private def keep (a : α) : List α → List α
  | [] => [a]
  | b :: rest => if a = b then keep a rest else a :: keep b rest

private theorem loop_eq (a : α) (l acc : List α) :
    List.eraseRepsBy.loop (· == ·) a l acc = acc.reverse ++ keep a l := by
  induction l generalizing a acc with
  | nil => simp [List.eraseRepsBy.loop, keep]
  | cons b rest ih =>
    rw [List.eraseRepsBy.loop, keep]
    by_cases hab : a = b
    · simp [hab, ih]
    · have hbeq : (a == b) = false := beq_false_of_ne hab
      simp [hab, hbeq, ih]

private theorem eraseReps_cons (a : α) (l : List α) : (a :: l).eraseReps = keep a l :=
  loop_eq a l []

private theorem mem_keep {a c : α} {l : List α} : c ∈ keep a l ↔ c = a ∨ c ∈ l := by
  induction l generalizing a with
  | nil => simp [keep]
  | cons b rest ih =>
    rw [keep, List.mem_cons]
    split
    · rename_i hab
      rw [ih, hab, ← or_assoc, or_self]
    · rw [List.mem_cons, ih]

theorem mem_eraseReps {c : α} {l : List α} : c ∈ l.eraseReps ↔ c ∈ l := by
  cases l with
  | nil => exact Iff.rfl
  | cons a rest => rw [eraseReps_cons, mem_keep, List.mem_cons]

variable {r : α → α → Prop} [Std.Antisymm r]

private theorem pairwise_keep {a : α} {l : List α} (h : (a :: l).Pairwise r) :
    (keep a l).Pairwise fun b c => r b c ∧ b ≠ c := by
  induction l generalizing a with
  | nil => exact List.pairwise_singleton _ a
  | cons b rest ih =>
    obtain ⟨ha, hrest⟩ := List.pairwise_cons.mp h
    rw [keep]
    split
    · rename_i hab
      exact hab ▸ ih (hab ▸ hrest)
    · rename_i hab
      refine List.pairwise_cons.mpr ⟨fun c hc => ?_, ih hrest⟩
      have hac : r a c := ha c (List.mem_cons.mpr (mem_keep.mp hc))
      refine ⟨hac, ?_⟩
      rintro rfl
      -- otherwise `a` came again behind `b`, which is between the two
      rcases mem_keep.mp hc with hcb | hc
      · exact hab hcb
      · exact hab (antisymm (ha b List.mem_cons_self) (List.rel_of_pairwise_cons hrest hc))

/-- A list in order has no two equal elements once its repetitions are left out. -/
theorem pairwise_eraseReps {l : List α} (h : l.Pairwise r) :
    l.eraseReps.Pairwise fun b c => r b c ∧ b ≠ c := by
  cases l with
  | nil => exact List.Pairwise.nil
  | cons a rest =>
    rw [eraseReps_cons]
    exact pairwise_keep h

/-- An ascending list without its repetitions is strictly ascending. -/
theorem pairwise_lt_eraseReps {l : List Nat} (h : l.Pairwise (· ≤ ·)) :
    l.eraseReps.Pairwise (· < ·) :=
  (pairwise_eraseReps h).imp fun hbc => Nat.lt_of_le_of_ne hbc.1 hbc.2

/-- A strictly ascending list has no repetitions to leave out. -/
theorem eraseReps_of_pairwise_lt {l : List Nat} (h : l.Pairwise (· < ·)) : l.eraseReps = l := by
  have hkeep : ∀ (a : Nat) (l : List Nat), (a :: l).Pairwise (· < ·) → keep a l = a :: l := by
    intro a l
    induction l generalizing a with
    | nil => exact fun _ => rfl
    | cons b rest ih =>
      intro h
      have hlt : a < b := List.rel_of_pairwise_cons h List.mem_cons_self
      rw [keep, if_neg (Nat.ne_of_lt hlt), ih b h.of_cons]
  cases l with
  | nil => rfl
  | cons a rest => rw [eraseReps_cons, hkeep a rest h]

end Typecase.Repeats
