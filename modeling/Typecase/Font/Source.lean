import Typecase.File.Tree
import Typecase.Text.Quoted

/-!
# Font sources

Font data together with the name that overrides use for it.
-/

namespace Typecase

/-- Font data and the name it is listed under. -/
structure FontSource where
  name : String
  data : FontData

namespace FontSource

/-- Reads a font file; the source is named after the path as given. -/
def ofPath {m : Type → Type} [Monad m] (r : Reader m) (path : String) :
    m (Except FontError FontSource) := do
  match ← r.font path with
  | .ok data => return .ok ⟨path, data⟩
  | .error cause => return .error (.unreadable cause)

/-- The text that describes a source. -/
def describe (s : FontSource) : String :=
  "FontSource \x7b name: " ++ Text.quote s.name ++ ", data: " ++ toString s.data.size ++ " \x7d"

end FontSource

end Typecase
