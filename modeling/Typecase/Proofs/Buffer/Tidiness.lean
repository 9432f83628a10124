import Typecase.Buffer.Pool

/-!
# Tidy pools

A pool files every free buffer under its exact size. `Pool.IsTidy` says so, and it is all that is
needed for reuse to be invisible: what a tidy pool reserves is a zero-filled buffer of the size
asked for (`fst_reserve`), what it copies is the buffer itself (`fst_copy`), and every operation
leaves it tidy.
-/

namespace Typecase

namespace Pool

variable {p : Pool}

/-- Every buffer lies on the shelf of its size. -/
def IsTidy (p : Pool) : Prop := ∀ n, ∀ b ∈ p.shelf n, b.size = n

theorem isTidy_empty : empty.IsTidy := by
  intro n b hb
  simp at hb

theorem IsTidy.setShelf (h : p.IsTidy) {size : Nat} {buffers : List Bytes}
    (hb : ∀ b ∈ buffers, b.size = size) : (p.setShelf size buffers).IsTidy := by
  intro n b hmem
  rw [shelf_setShelf] at hmem
  split at hmem
  · rename_i hn
    exact hn ▸ hb b hmem
  · exact h n b hmem

/-- **What a tidy pool reserves is new to the eye.** -/
theorem fst_reserve (h : p.IsTidy) (size : Nat) :
    (p.reserve size).1 = Array.replicate size 0 := by
  rw [reserve]
  cases hs : p.shelf size with
  | nil => rfl
  | cons b rest =>
    have hsize : b.size = size := h size b (by rw [hs]; exact List.mem_cons_self)
    refine Array.ext (by simp [hsize]) fun i h₁ h₂ => ?_
    simp

theorem IsTidy.reserve (h : p.IsTidy) (size : Nat) : (p.reserve size).2.IsTidy := by
  rw [Pool.reserve]
  cases hs : p.shelf size with
  | nil => exact h
  | cons b rest =>
    exact h.setShelf fun c hc => h size c (by rw [hs]; exact List.mem_cons_of_mem b hc)

theorem IsTidy.release (h : p.IsTidy) (b : Bytes) : (p.release b).IsTidy := by
  rw [Pool.release]
  split
  · refine h.setShelf fun c hc => ?_
    rcases List.mem_cons.mp hc with rfl | hc
    · rfl
    · exact h b.size c hc
  · exact h

/-- Bytes written over the whole of a buffer replace it. -/
private theorem lay_whole {a b : Bytes} (h : a.size = b.size) : Strip.lay a ⟨0, b.toList⟩ = b := by
  refine Array.ext_getElem? fun i => ?_
  rw [Strip.getElem?_lay]
  by_cases hi : i < b.size
  · rw [if_pos ⟨⟨Nat.zero_le i, by simpa using hi⟩, h ▸ hi⟩, Nat.sub_zero, Array.getElem?_toList]
  · rw [if_neg fun hc => hi (by simpa using hc.1.2), Array.getElem?_eq_none (by omega),
      Array.getElem?_eq_none (by omega)]

/-- **What a tidy pool copies is the buffer itself.** -/
theorem fst_copy (h : p.IsTidy) (b : Bytes) : (p.copy b).1 = b := by
  change Strip.lay (p.reserve b.size).1 _ = b
  rw [fst_reserve h]
  exact lay_whole (by simp)

theorem IsTidy.copy (h : p.IsTidy) (b : Bytes) : (p.copy b).2.IsTidy := h.reserve b.size

end Pool

end Typecase
