import Typecase.FontStack.Basic
import Typecase.Proofs.Buffer.Tidiness

/-!
# Drawing with reused buffers

Every picture is drawn in a buffer from a pool, and packaged into another one. If the pool is tidy,
it cannot be seen where the buffers come from: what is drawn (`OpenFont.fst_draw`), copied
(`Glyph.fst_copy`) and packaged (`FontStack.fst_package`) does not depend on the free buffers, and
the pool is tidy afterwards.

What packaging gives in full is `FontStack.fst_package_of_ink`: it keeps the shape of a picture
(`FontStack.shape_package`), and gives it a byte for each of its pixels if it has ink
(`FontStack.area_le_package`).
-/

namespace Typecase

/-! ### Drawing -/

namespace OpenFont

variable {p : Pool}

theorem fst_paddedPicture (h : p.IsTidy) (r : Rendering) :
    (paddedPicture r p).1 = (paddedPicture r .empty).1 := by
  unfold paddedPicture
  split
  · rfl
  · simp only [Pool.fst_reserve h, Pool.fst_reserve Pool.isTidy_empty]

theorem isTidy_paddedPicture (h : p.IsTidy) (r : Rendering) : (paddedPicture r p).2.IsTidy := by
  unfold paddedPicture
  split
  · exact h
  · exact h.reserve _

theorem fst_workPicture (h : p.IsTidy) (r : Rendering) (scale : Nat) :
    (workPicture r scale p).1 = (workPicture r scale .empty).1 := by
  unfold workPicture
  split
  · rfl
  · simp only [Pool.fst_reserve h, Pool.fst_reserve Pool.isTidy_empty]

theorem isTidy_workPicture (h : p.IsTidy) (r : Rendering) (scale : Nat) :
    (workPicture r scale p).2.IsTidy := by
  unfold workPicture
  split
  · exact h
  · exact h.reserve _

/-- What a font draws does not depend on the free buffers. -/
theorem fst_draw (f : OpenFont) (code height : Nat) (field : Bool) (h : p.IsTidy) :
    (f.draw code height field p).1 = (f.draw code height field .empty).1 := by
  cases field with
  | true => simp only [draw, ↓reduceIte, fst_workPicture h]
  | false => simp only [draw, Bool.false_eq_true, ↓reduceIte, fst_paddedPicture h]

theorem isTidy_draw (f : OpenFont) (code height : Nat) (field : Bool) (h : p.IsTidy) :
    (f.draw code height field p).2.IsTidy := by
  cases field with
  | true => exact isTidy_workPicture h _ _
  | false => exact isTidy_paddedPicture h _

/-- A bitmap has a byte for each of its pixels. -/
theorem size_of_paddedPicture {r : Rendering} {data : Bytes} (h : p.IsTidy)
    (hd : (paddedPicture r p).1.data = some data) :
    data.size = (paddedPicture r p).1.width * (paddedPicture r p).1.height := by
  unfold paddedPicture at hd ⊢
  split at hd
  · contradiction
  · obtain rfl := Option.some.inj hd
    simp only [Strip.size_layAll, Pool.fst_reserve h, Array.size_replicate]

end OpenFont

namespace Glyph

variable {g : Glyph} {p : Pool}

/-- A bitmap with ink has a byte for each of its pixels. -/
def IsFilled (g : Glyph) : Prop :=
  ∀ data, g.picture.data = some data → g.isField = false →
    g.picture.width * g.picture.height ≤ data.size

theorem isFilled_of_isField (h : g.isField = true) : g.IsFilled := by
  intro data _ hf
  simp [h] at hf

theorem isFilled_of_data_eq_none (h : g.picture.data = none) : g.IsFilled := by
  intro data hd
  simp [h] at hd

theorem isFilled_draw (f : OpenFont) (code height : Nat) (field : Bool) (h : p.IsTidy) :
    (f.draw code height field p).1.IsFilled := by
  cases field with
  | true => exact isFilled_of_isField rfl
  | false => exact fun data hd _ => Nat.le_of_eq (OpenFont.size_of_paddedPicture h hd).symm

theorem isTidy_discard (h : p.IsTidy) (g : Glyph) : (g.discard p).IsTidy := by
  rw [discard]
  split
  · exact h.release _
  · exact h

theorem fst_copy (h : p.IsTidy) (g : Glyph) : (g.copy p).1 = g := by
  rw [copy]
  split
  · rename_i b hb
    change { g with picture := { g.picture with data := some (p.copy b).1 } } = g
    rw [Pool.fst_copy h, ← hb]
  · rfl

theorem isTidy_copy (h : p.IsTidy) (g : Glyph) : (g.copy p).2.IsTidy := by
  rw [copy]
  split
  · exact h.copy _
  · exact h

end Glyph

/-! ### Packaging -/

namespace FontStack

variable {p : Pool} {data : Bytes} (g : Glyph) (scale : Nat)

/-- The bytes of a packaged drawing with ink: a field in a buffer that was rounded up, or the bytes
of the bitmap. -/
def packed (data : Bytes) : Bytes :=
  if g.isField then
    (fieldOf g.picture data (max scale 1)).writeTo
      (Array.replicate (roundUp (g.picture.width * g.picture.height)) 0)
  else data

/-- **Packaging in full**, for a drawing with ink. -/
theorem fst_package_of_ink (h : p.IsTidy) (hd : g.picture.data = some data) :
    (package g scale p).1 =
      { g with picture := ⟨g.picture.width, g.picture.height, 0, 0,
                           some (packed g scale data)⟩ } := by
  rw [package, hd, packed]
  cases g.isField with
  | true => simp only [↓reduceIte, Pool.fst_reserve h]
  | false => simp only [Bool.false_eq_true, ↓reduceIte, Pool.fst_copy h]

theorem package_of_data_eq_none (p : Pool) (hd : g.picture.data = none) :
    package g scale p = (g, p) := by
  rw [package, hd]

/-- What packaging gives does not depend on the free buffers. -/
theorem fst_package (h : p.IsTidy) : (package g scale p).1 = (package g scale .empty).1 := by
  cases hd : g.picture.data with
  | none => rw [package_of_data_eq_none g scale p hd, package_of_data_eq_none g scale .empty hd]
  | some data =>
    rw [fst_package_of_ink g scale h hd, fst_package_of_ink g scale Pool.isTidy_empty hd]

theorem isTidy_package (h : p.IsTidy) : (package g scale p).2.IsTidy := by
  unfold package
  cases g.picture.data with
  | none => exact h
  | some data =>
    cases g.isField with
    | true => exact h.reserve _
    | false => exact h.copy _

/-- Packaging keeps the shape of a picture, and whether it has ink. -/
theorem shape_package (p : Pool) :
    (package g scale p).1.picture.width = g.picture.width ∧
      (package g scale p).1.picture.height = g.picture.height ∧
      (package g scale p).1.picture.data.isSome = g.picture.data.isSome := by
  unfold package
  cases hd : g.picture.data with
  | none => exact ⟨rfl, rfl, by rw [hd]⟩
  | some data => exact ⟨rfl, rfl, rfl⟩

/-- A packaged drawing with ink has a byte for each of its pixels. -/
theorem area_le_package (h : p.IsTidy) (hg : g.IsFilled) (hink : g.picture.data.isSome) :
    g.picture.width * g.picture.height ≤ (package g scale p).1.picture.bytes.size := by
  obtain ⟨data, hd⟩ := Option.isSome_iff_exists.mp hink
  rw [fst_package_of_ink g scale h hd]
  change _ ≤ (packed g scale data).size
  rw [packed]
  split
  · -- a field is written over a buffer that was rounded up
    rw [FieldImage.size_writeTo, Array.size_replicate]
    exact le_roundUp _
  · -- a bitmap is copied
    rename_i hf
    exact hg data hd (by simpa using hf)

end FontStack

end Typecase
