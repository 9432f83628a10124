/-!
# Bytes and strips

A `Strip` is a run of cells together with the position where it belongs. Pictures are put
together by laying strips into a blank array: one strip per row. Laying writes only inside the
array, so the size of the array never changes; a strip *fits* when none of its cells is lost.

Main statements: `Strip.size_lay` and `Strip.getElem?_lay` say what one strip does, and
`Strip.size_layAll` and `Strip.getElem?_layAll_of_forall_not_covers` what a list of strips
leaves alone.
-/

namespace Typecase

/-- A run of bytes. -/
abbrev Bytes := Array UInt8

/-- A run of cells and the position of the first of them. -/
structure Strip (α : Type) where
  start : Nat
  cells : List α
  deriving DecidableEq, Repr

namespace Strip

variable {α : Type}

/-- A strip fits into an array of `n` cells when it ends inside it. -/
def Fits (s : Strip α) (n : Nat) : Prop := s.start + s.cells.length ≤ n

instance (s : Strip α) (n : Nat) : Decidable (s.Fits n) :=
  inferInstanceAs (Decidable (_ ≤ _))

/-- Whether the strip has a cell for position `i`. -/
def Covers (s : Strip α) (i : Nat) : Prop := s.start ≤ i ∧ i < s.start + s.cells.length

instance (s : Strip α) (i : Nat) : Decidable (s.Covers i) :=
  inferInstanceAs (Decidable (_ ∧ _))

/-- Writes cells from position `i` on; what falls outside the array is lost. -/
def put (a : Array α) (i : Nat) : List α → Array α
  | [] => a
  | x :: xs => put (a.setIfInBounds i x) (i + 1) xs

/-- Writes one strip. -/
def lay (a : Array α) (s : Strip α) : Array α := put a s.start s.cells

/-- Writes strips one after the other. -/
def layAll (a : Array α) (strips : List (Strip α)) : Array α := strips.foldl lay a

theorem size_put (a : Array α) (i : Nat) (xs : List α) : (put a i xs).size = a.size := by
  induction xs generalizing a i with
  | nil => rfl
  | cons x xs ih => rw [put, ih, Array.size_setIfInBounds]

theorem getElem?_put (a : Array α) (i : Nat) (xs : List α) (j : Nat) :
    (put a i xs)[j]? = if i ≤ j ∧ j < i + xs.length ∧ j < a.size then xs[j - i]? else a[j]? := by
  induction xs generalizing a i with
  | nil =>
    have h : ¬(i ≤ j ∧ j < i + ([] : List α).length ∧ j < a.size) := by simp; omega
    rw [put, if_neg h]
  | cons x xs ih =>
    rw [put, ih, Array.size_setIfInBounds, Array.getElem?_setIfInBounds, List.length_cons]
    by_cases hij : i = j
    · subst hij
      rw [if_neg (by omega), if_pos rfl]
      by_cases hsize : i < a.size
      · rw [if_pos hsize, if_pos ⟨Nat.le_refl i, by omega, hsize⟩, Nat.sub_self]
        rfl
      · rw [if_neg hsize, if_neg (by omega), Array.getElem?_eq_none (by omega)]
    · rw [if_neg hij]
      by_cases h : i + 1 ≤ j ∧ j < i + 1 + xs.length ∧ j < a.size
      · rw [if_pos h, if_pos ⟨by omega, by omega, h.2.2⟩,
          show j - i = (j - (i + 1)) + 1 by omega, List.getElem?_cons_succ]
      · rw [if_neg h, if_neg (by omega)]

@[simp] theorem size_lay (a : Array α) (s : Strip α) : (lay a s).size = a.size :=
  size_put a s.start s.cells

theorem getElem?_lay (a : Array α) (s : Strip α) (j : Nat) :
    (lay a s)[j]? = if s.Covers j ∧ j < a.size then s.cells[j - s.start]? else a[j]? := by
  rw [lay, getElem?_put]
  simp only [Covers, and_assoc]

@[simp] theorem size_layAll (a : Array α) (strips : List (Strip α)) :
    (layAll a strips).size = a.size := by
  induction strips generalizing a with
  | nil => rfl
  | cons s strips ih => rw [layAll, List.foldl_cons, ← layAll, ih, size_lay]

/-- A position that no strip covers keeps its cell. -/
theorem getElem?_layAll_of_forall_not_covers {a : Array α} {strips : List (Strip α)} {j : Nat}
    (h : ∀ s ∈ strips, ¬s.Covers j) : (layAll a strips)[j]? = a[j]? := by
  induction strips generalizing a with
  | nil => rfl
  | cons s strips ih =>
    rw [layAll, List.foldl_cons, ← layAll, ih fun t ht => h t (List.mem_cons_of_mem _ ht),
      getElem?_lay, if_neg fun hc => h s List.mem_cons_self hc.1]

end Strip

end Typecase
