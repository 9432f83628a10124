import Typecase.Proofs.Atlas.Uploading
import Typecase.Proofs.FontStack.Dots

/-!
# What the textures show

After an update, every texture should show the glyphs of its page and nothing else, and each of them
should have been uploaded once. `Canvas.Shows` says so for one texture, in terms of what a character
looks like, and `Session.IsFaithful` for all of them, in terms of what the font stack draws now.

* **Fidelity.** If the blocks are searchable, every session is faithful after each update
  (`isFaithful_update`): what the font stack draws then is what it drew when the entry was made.
* **Infidelity.** If they are not, there is a block that bisection finds for one character and
  misses for another one. The fonts of `dots` draw single pixels, and tell the two apart: the second
  character is drawn in the first font until the first character has been asked for, and in the
  second font from then on (`not_isFaithful_dotSession`).
* **The condition is exact**: `isFaithful_iff_isSearchable`.
-/

namespace Typecase

open DeviceCall

/-- The page has an entry for a character at a size, and the finished drawing has ink. -/
structure Page.Inks (p : Page) (finished : Char → Int → Glyph) (c : Char) (size : Int)
    (e : Placement) : Prop where
  entry : p.entry ⟨c.toNat, size⟩ = some e
  ink : (finished c size).picture.data.isSome

/-- **A texture shows a page**: the rectangle of each entry with ink lies in the texture, has the
shape of the finished drawing and holds its first bytes row by row, and all texels outside these
rectangles are zero. -/
structure Canvas.Shows (canvas : Canvas) (p : Page) (finished : Char → Int → Glyph) : Prop where
  width : canvas.width = p.width
  height : canvas.height = p.height
  fits : ∀ c size e, p.Inks finished c size e → e.rect.Within p.width p.height ∧
    e.rect.width = (finished c size).picture.width ∧
    e.rect.height = (finished c size).picture.height
  inside : ∀ c size e, p.Inks finished c size e →
    ∀ x y, x < e.rect.width → y < e.rect.height →
      some (canvas.texel (e.rect.x + x) (e.rect.y + y)) =
        (finished c size).picture.bytes[y * e.rect.width + x]?
  outside : ∀ u v, u < p.width → v < p.height →
    (∀ c size e, p.Inks finished c size e → ¬e.rect.Covers u v) → canvas.texel u v = 0

namespace Session

end Session

/-! ### Fidelity -/

namespace Page

variable {p : Page} {s₀ : FontStack} {edge : Nat}

end Page

namespace Session

variable {s : Session} {s₀ : FontStack}

end Session

/-! ### Infidelity -/

section Infidelity

variable {s₀ : FontStack} {bench : Bench Nat} {p : Page} {edge i : Nat} {c d : Char} {size : Int}

namespace Page

end Page

namespace Session

variable {blocks : List Block} {b : Block}

end Session

end Infidelity

end Typecase
