import Mathlib.Order.Bounds.Basic
import Typecase.Proofs.Field.Bordering
import Typecase.Proofs.FontStack.Drawing

/-!
# Sizes of distance fields

The size of a distance field is computed twice: when a glyph is drawn, from the enlarged bitmap and
its border (`OpenFont.finalLength`), and again when the glyph is packaged, from the image that the
field is made of (`FieldImage.scaled`). Both round the same number (`finalLength_eq_scaled`), at any
enlargement. So the field has a sample for each pixel of the picture that was announced, and fills
exactly that part of its buffer (`FontStack.fields_have_the_size_announced`).

**Room for the border.** Both sums are numbers of thirty-two bits. If the border does not fit beside
the enlarged bitmap, they wrap around in the same way, so that the sizes agree even then; but the
rows of the bitmap need not have their places in the image, and packaging stops at the first that
has none (`FontStack.packaging_without_border`).
-/

namespace Typecase

namespace OpenFont

theorem finalLength_eq_scaled (length scale : Nat) :
    finalLength length scale =
      FieldImage.scaled (word (length + 2 * word (scale * margin))) (1 / Float32.ofNat scale) := by
  have hsum : word (length + workBorder scale) = word (length + 2 * word (scale * margin)) := by
    simp only [workBorder, word, margin]
    omega
  rw [finalLength, hsum]
  rfl

theorem scale_of_ofSource {opener : Opener} {source : FontSource} {scale : Nat} {f : OpenFont}
    (h : ofSource opener source scale = .ok f) : f.scale = max scale 1 := by
  unfold ofSource at h
  split at h
  · contradiction
  · split at h
    · contradiction
    · obtain rfl := Except.ok.inj h
      rfl

/-- The bytes are those of a bitmap, cut to the size that a rendering should have or filled up with
zeros. -/
structure IsWorkOf (r : Rendering) (bitmap work : Bytes) : Prop where
  size : work.size = r.rows * r.pitch
  bytes : ∀ i < work.size, work[i]? = some (bitmap.getD i 0)

private theorem getElem?_lay_take (bitmap : Bytes) {n i : Nat} (hi : i < n) :
    (Strip.lay (Array.replicate n 0) ⟨0, (bitmap.take n).toList⟩)[i]? =
      some (bitmap.getD i 0) := by
  have hcovers : Strip.Covers ⟨0, (bitmap.take n).toList⟩ i ↔ i < bitmap.size := by
    simp only [Strip.Covers, Array.take_eq_extract, Array.length_toList, Array.size_extract]
    omega
  rw [Strip.getElem?_lay, Array.size_replicate, Array.getElem?_replicate, if_pos hi,
    Array.getD_eq_getD_getElem?]
  simp only [hcovers]
  split
  · rename_i hbyte
    have hcut : i < min n bitmap.size - 0 := by omega
    rw [Nat.sub_zero, Array.getElem?_toList, Array.getElem?_extract, if_pos hcut, Nat.zero_add,
      Array.getElem?_eq_getElem hbyte.1, Option.getD_some]
  · rename_i hbyte
    rw [Array.getElem?_eq_none (by omega), Option.getD_none]

/-- What is kept of a rendering with ink: its size in final pixels, and its enlarged bitmap. -/
theorem exists_fst_workPicture {r : Rendering} {bitmap : Bytes} (scale : Nat) {p : Pool}
    (hp : p.IsTidy) (hink : r.bitmap = some bitmap) :
    ∃ work, IsWorkOf r bitmap work ∧ (workPicture r scale p).1 =
      ⟨finalLength r.pitch scale, finalLength r.rows scale, r.rows, r.pitch, some work⟩ := by
  have hsize (s : Strip UInt8) :
      (Strip.lay (Array.replicate (r.rows * r.pitch) 0) s).size = r.rows * r.pitch := by
    rw [Strip.size_lay, Array.size_replicate]
  refine ⟨_, ⟨hsize _, fun i hi => getElem?_lay_take bitmap (hsize _ ▸ hi)⟩, ?_⟩
  rw [workPicture, hink]
  simp only [Pool.fst_reserve hp]

/-- With room for the border, drawing a distance field does not stop. -/
theorem draw?_of_lt {f : OpenFont} {code height : Nat} (hheight : height * f.scale < 0x100000000)
    (hpitch : (f.face.render code (height * f.scale)).pitch + 2 * (f.scale * margin) < 0x100000000)
    (hrows : (f.face.render code (height * f.scale)).rows + 2 * (f.scale * margin) < 0x100000000)
    (o : Overflow) (p : Pool) :
    f.draw? o code height true p = some (f.draw code height true p) := by
  have hsums : ∀ n ∈ f.sums code height true, n < 0x100000000 := by
    simp only [sums, ↓reduceIte, word_of_lt hheight, Nat.mul_assoc, List.forall_mem_cons]
    refine ⟨hheight, ?_⟩
    split
    · simp only [List.forall_mem_cons, List.not_mem_nil, false_imp_iff, implies_true, and_true]
      exact ⟨by omega, hpitch, hrows⟩
    · exact fun n hn => absurd hn List.not_mem_nil
  exact if_pos ⟨fun _ => hsums, .inl rfl⟩

end OpenFont

namespace FontStack

/-- No smaller power of two is large enough. -/
theorem isLeast_roundUp (n : Nat) : IsLeast {m | n ≤ m ∧ m.isPowerOfTwo} (roundUp n) := by
  refine ⟨⟨le_roundUp n, ?_⟩, ?_⟩
  · rw [roundUp]
    split
    · exact Nat.isPowerOfTwo_one
    · exact ⟨(n - 1).log2 + 1, Nat.one_shiftLeft _⟩
  · rintro m ⟨hm, k, rfl⟩
    rw [roundUp]
    split
    · exact Nat.one_le_two_pow
    · rename_i hn
      have hlog : (n - 1).log2 < k := (Nat.log2_lt (by omega)).mpr (by omega)
      rw [Nat.one_shiftLeft]
      exact Nat.pow_le_pow_right (by decide) hlog

/-- The field made of an enlarged bitmap has the size that was announced with it. -/
theorem size_fieldOf (picture : Picture) (work : Bytes) (scale : Nat) :
    (fieldOf picture work scale).width = OpenFont.finalLength picture.workPitch scale ∧
      (fieldOf picture work scale).height = OpenFont.finalLength picture.workRows scale := by
  rw [OpenFont.finalLength_eq_scaled, OpenFont.finalLength_eq_scaled]
  exact ⟨rfl, rfl⟩

section Room

variable {picture : Picture} {scale : Nat}
  (hpitch : picture.workPitch + 2 * (scale * margin) < 0x100000000)
  (hrows : picture.workRows + 2 * (scale * margin) < 0x100000000)

include hpitch hrows

/-- With room for the border, the image has all of it. -/
theorem workImage_eq_ofBitmap (work : Bytes) : workImage picture work scale =
    .ofBitmap picture.workRows picture.workPitch work (scale * margin) := by
  have hborder : word (scale * margin) = scale * margin := word_of_lt (by omega)
  simp only [workImage, hborder, word_of_lt hpitch, word_of_lt hrows]
  rfl

/-- With room for a border, every row has its place behind it. -/
theorem workFits_of_lt (hscale : 0 < scale) (work : Bytes) : WorkFits picture work scale := by
  have hborder : word (scale * margin) = scale * margin := word_of_lt (by omega)
  rw [WorkFits, workImage_eq_ofBitmap hpitch hrows, FieldImage.size_samples_ofBitmap, hborder]
  exact FieldImage.fits_innerRows_iff.mpr (.inr (.inl (Nat.mul_pos hscale (by decide))))

end Room

/-- Packaging a bitmap does not stop. -/
theorem package?_of_isField_eq_false {g : Glyph} (h : g.isField = false) (o : Overflow)
    (scale : Nat) (p : Pool) : package? o g scale p = some (package g scale p) := by
  rw [package?, if_pos fun hfield => absurd (h.symm.trans hfield) (by decide)]

/-- With room for the border, packaging a distance field does not stop. -/
theorem package?_of_lt {g : Glyph} {scale : Nat}
    (hpitch : g.picture.workPitch + 2 * (max scale 1 * margin) < 0x100000000)
    (hrows : g.picture.workRows + 2 * (max scale 1 * margin) < 0x100000000) (o : Overflow)
    (p : Pool) : package? o g scale p = some (package g scale p) := by
  have hsums : ∀ n ∈ workSums g.picture (max scale 1), n < 0x100000000 := by
    simp only [workSums, List.forall_mem_cons, List.not_mem_nil, false_imp_iff, implies_true,
      and_true]
    omega
  have hscale : 0 < max scale 1 := Nat.lt_of_lt_of_le Nat.one_pos (Nat.le_max_right scale 1)
  rw [package?, if_pos fun _ work _ => ⟨fun _ => hsums, workFits_of_lt hpitch hrows hscale work⟩]

/-- A buffer with room for some bytes: a power of two, as small as can be, with zeros behind the
bytes. -/
structure HasRoomFor (buffer : Bytes) (area : Nat) : Prop where
  least : IsLeast {m | area ≤ m ∧ m.isPowerOfTwo} buffer.size
  blank : ∀ i < buffer.size, area ≤ i → buffer[i]? = some 0

/-- A field of the size announced leaves the rest of its buffer blank. -/
theorem hasRoomFor_packed {g : Glyph} {work : Bytes} {scale : Nat} (hfield : g.isField = true)
    (hwidth : (fieldOf g.picture work (max scale 1)).width = g.picture.width)
    (hheight : (fieldOf g.picture work (max scale 1)).height = g.picture.height) :
    HasRoomFor (packed g scale work) (g.picture.width * g.picture.height) := by
  have hsamples : (fieldOf g.picture work (max scale 1)).samples.size =
      g.picture.width * g.picture.height := by
    rw [← hwidth, ← hheight]
    exact FieldImage.size_samples_generate _ _
  have hsize : (packed g scale work).size = roundUp (g.picture.width * g.picture.height) := by
    rw [packed, if_pos hfield, FieldImage.size_writeTo, Array.size_replicate]
  refine ⟨hsize ▸ isLeast_roundUp _, fun i hi hbehind => ?_⟩
  rw [packed, if_pos hfield, FieldImage.getElem?_writeTo_of_le _ _ (hsamples ▸ hbehind),
    Array.getElem?_replicate, if_pos (hsize ▸ hi)]

/-- **Fields have the size announced.** A font that was opened at some enlargement, where zero
counts as one, draws a glyph as a distance field. Whatever the font renders, as long as its bitmap
leaves room for the border, the picture keeps a bitmap of as many bytes as its rows and pitch ask
for. When the glyph is packaged at the same enlargement, the field has the width and the height that
the picture announced, and is written to a buffer of the least power of two with room for it, with
zeros behind it. The metrics, the font and the key of the glyph stay as they are, and so does the
size of its picture; the working bitmap is given up.

There is room for the border if pitch and rows with it are numbers of thirty-two bits; and the
enlarged height has to be one. Memory for the image and the buffers is taken to suffice.

A bitmap glyph keeps its bytes when it is packaged, and a glyph without ink is left as it is. -/
theorem fields_have_the_size_announced (o : Overflow) :
    (∀ (opener : Opener) (source : FontSource) (scale : Nat) (f : OpenFont) (code height : Nat)
        (bitmap : Bytes) (p p' : Pool), OpenFont.ofSource opener source scale = .ok f →
      (f.face.render code (height * f.scale)).bitmap = some bitmap → p.IsTidy → p'.IsTidy →
        let r := f.face.render code (height * f.scale)
        height * f.scale < 0x100000000 → r.pitch + 2 * (f.scale * margin) < 0x100000000 →
          r.rows + 2 * (f.scale * margin) < 0x100000000 →
        ∃ g q q' work buffer, f.draw? o code height true p = some (g, q) ∧
          OpenFont.IsWorkOf r bitmap work ∧ g.picture.data = some work ∧
          g.picture.workRows = r.rows ∧ g.picture.workPitch = r.pitch ∧
          (fieldOf g.picture work (max scale 1)).width = g.picture.width ∧
          (fieldOf g.picture work (max scale 1)).height = g.picture.height ∧
          package? o g scale p' = some
            ({ g with picture := ⟨g.picture.width, g.picture.height, 0, 0, some buffer⟩ }, q') ∧
          HasRoomFor buffer (g.picture.width * g.picture.height)) ∧
      (∀ (g : Glyph) (data : Bytes) (scale : Nat) (p : Pool), g.isField = false →
        g.picture.data = some data → p.IsTidy → ∃ q, package? o g scale p = some
          ({ g with picture := ⟨g.picture.width, g.picture.height, 0, 0, some data⟩ }, q)) ∧
      ∀ (g : Glyph) (scale : Nat) (p : Pool), g.picture.data = none →
        package? o g scale p = some (g, p) := by
  refine ⟨?_, ?_, fun g scale p hdata => ?_⟩
  · intro opener source scale f code height bitmap p p' hf hink hp hp' r hheight hpitch hrows
    let g := (f.draw code height true p).1
    have hscale := OpenFont.scale_of_ofSource hf
    obtain ⟨work, hwork, hpicture⟩ := OpenFont.exists_fst_workPicture f.scale hp hink
    have hg : g.picture = ⟨OpenFont.finalLength r.pitch f.scale,
        OpenFont.finalLength r.rows f.scale, r.rows, r.pitch, some work⟩ := by
      rw [← hpicture]
      change (OpenFont.workPicture (f.face.render code (word (height * f.scale))) f.scale p).1 = _
      rw [word_of_lt hheight]
    have hdata : g.picture.data = some work := by rw [hg]
    have hworkRows : g.picture.workRows = r.rows := by rw [hg]
    have hworkPitch : g.picture.workPitch = r.pitch := by rw [hg]
    obtain ⟨hwidth, hheight'⟩ : (fieldOf g.picture work (max scale 1)).width = g.picture.width ∧
        (fieldOf g.picture work (max scale 1)).height = g.picture.height := by
      rw [← hscale, hg]
      exact size_fieldOf _ work f.scale
    have hpackage : package? o g scale p' = some (package g scale p') :=
      package?_of_lt (by rwa [← hscale, hworkPitch]) (by rwa [← hscale, hworkRows]) o p'
    refine ⟨g, (f.draw code height true p).2, (package g scale p').2, work, packed g scale work,
      OpenFont.draw?_of_lt hheight hpitch hrows o p, hwork, hdata, hworkRows, hworkPitch, hwidth,
      hheight', ?_, hasRoomFor_packed rfl hwidth hheight'⟩
    rw [hpackage, ← fst_package_of_ink g scale hp' hdata]
  · intro g data scale p hfield hdata hp
    have hbytes : packed g scale data = data := by
      rw [packed, hfield]
      rfl
    refine ⟨(package g scale p).2, ?_⟩
    rw [package?_of_isField_eq_false hfield, ← hbytes, ← fst_package_of_ink g scale hp hdata]
  · rw [package?, package_of_data_eq_none g scale p hdata, if_pos fun _ work hwork => ?_]
    rw [hdata] at hwork
    contradiction

/-- A font opened at an enlargement of zero renders a bitmap that is too short, in a buffer that was
used before. -/
theorem field_of_short_bitmap :
    let r : Rendering := ⟨3, 2, 3, some #[255, 7], 0, 0, 0, 0⟩
    let face : Face := { Face.empty with glyphCount := 1, render := fun _ _ => r }
    let f : OpenFont := ⟨"short", face, 1, []⟩
    let p := Pool.empty.release (Array.replicate 6 9)
    OpenFont.ofSource (fun _ => .ok face) ⟨"short", .bytes #[]⟩ 0 = .ok f ∧
      (f.face.render 65 (12 * f.scale)).bitmap = some #[255, 7] ∧ p.IsTidy ∧
      ∃ g q work, f.draw? .stops 65 12 true p = some (g, q) ∧ g.picture.data = some work ∧
        work.size = 6 ∧ work[1]? = some 7 ∧ work[2]? = some 0 ∧
        (fieldOf g.picture work 1).width = g.picture.width ∧
        ∃ g' q' buffer, package? .stops g 0 .empty = some (g', q') ∧
          g'.picture.data = some buffer ∧
          HasRoomFor buffer (g.picture.width * g.picture.height) := by
  intro r face f p
  have hp : p.IsTidy := Pool.isTidy_empty.release _
  obtain ⟨hfield, -⟩ := fields_have_the_size_announced .stops
  obtain ⟨g, q, q', work, buffer, hdraw, hwork, hdata, -, -, hwidth, -, hpackaged, hroom⟩ :=
    hfield (fun _ => .ok face) ⟨"short", .bytes #[]⟩ 0 f 65 12 #[255, 7] p .empty rfl rfl hp
      Pool.isTidy_empty (by decide) (by decide) (by decide)
  have hsize : work.size = 6 := hwork.size
  exact ⟨rfl, rfl, hp, g, q, work, hdraw, hdata, hsize, hwork.bytes 1 (by omega),
    hwork.bytes 2 (by omega), hwidth, _, q', buffer, hpackaged, rfl, hroom⟩

/-- An enlargement so large that no border fits beside the bitmap. If sums are checked, drawing
stops. If they are not, packaging does: the first row is looked for far behind the six samples of
the image. -/
theorem packaging_without_border :
    let r : Rendering := ⟨3, 2, 3, some #[1, 2, 3, 4, 5, 6], 0, 0, 0, 0⟩
    let face : Face := { Face.empty with glyphCount := 1, render := fun _ _ => r }
    let f : OpenFont := ⟨"large", face, 0x20000000, []⟩
    OpenFont.ofSource (fun _ => .ok face) ⟨"large", .bytes #[]⟩ 0x20000000 = .ok f ∧
      f.draw? .stops 65 1 true .empty = none ∧
      ∃ g q, f.draw? .wraps 65 1 true .empty = some (g, q) ∧
        package? .wraps g 0x20000000 .empty = none := by
  intro r face f
  let g := (f.draw 65 1 true .empty).1
  obtain ⟨work, hwork, hpicture⟩ := OpenFont.exists_fst_workPicture (r := r) 0x20000000
    Pool.isTidy_empty rfl
  have hg : g.picture = ⟨OpenFont.finalLength 3 0x20000000, OpenFont.finalLength 2 0x20000000,
      2, 3, some work⟩ := hpicture
  have hsum : 2 * 0x20000000 * margin ∈ f.sums 65 1 true := List.mem_cons_of_mem _ (.head _)
  refine ⟨rfl, if_neg fun h => absurd (h.1 rfl _ hsum) (by decide), g,
    (f.draw 65 1 true .empty).2, if_pos ⟨fun h => absurd h (by decide), .inl rfl⟩,
    if_neg fun hfits => ?_⟩
  obtain ⟨-, hplace⟩ := hfits rfl work (show g.picture.data = some work by rw [hg])
  have hborder : word (max 0x20000000 1 * margin) = 0x80000000 := by decide
  have hsides : word (3 + 2 * 0x80000000) = 3 ∧ word (2 + 2 * 0x80000000) = 2 := by decide
  simp only [WorkFits, workImage, hg, hborder, hsides, FieldImage.size_samples_ofBitmapWithin]
    at hplace
  have hfirst : 0 < min 2 (work.size / max 3 1) := by
    rw [hwork.size]
    decide
  have hrow := hplace _ (List.mem_map_of_mem (List.mem_range.mpr hfirst))
  rw [Strip.Fits] at hrow
  dsimp only at hrow
  omega

end FontStack

end Typecase
