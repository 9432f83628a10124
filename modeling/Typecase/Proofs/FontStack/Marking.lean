import Typecase.Proofs.FontStack.Readiness

/-!
# Which texts are ready

Characters are drawn and their drawings recorded as ready, and in between the stack is looked up in
other ways. `Marking` is a stack in this use, together with everything that was marked.

* **Records.** A drawing is recorded if and only if some mark records it (`Marking.IsTrue`). What a
  mark records depends on the glyph that was drawn: all distance fields have the same size there,
  and a character without a font is the placeholder, a drawing of the first font
  (`Mark.records_iff`).
* **Texts.** So a text is ready if and only if every character of it has a font and a mark vouches
  for the character at the size that is asked about (`areReady_of_marks`). That is not the same as
  having been marked at this size (`areReady_beside_marks`).
-/

namespace Typecase

/-- A character whose drawing at a size was recorded as ready, and the font that was picked for it
then. -/
structure Mark where
  char : Char
  size : Int32
  font : Option Nat

namespace Mark

variable {s₀ : FontStack} {m : Mark} {i : Nat} {c : Char} {size : Int}

/-- What was recorded is a drawing of a font under a key. -/
def Records (m : Mark) (s₀ : FontStack) (i : Nat) (key : GlyphKey) : Prop :=
  (s₀.drawAs m.font m.char m.size.toInt).1.font = i ∧
    (s₀.drawAs m.font m.char m.size.toInt).1.key = key

/-- A mark vouches for a character, at a size and with a font, if it was made for the character. If
it was made for a character without a font, it vouches for the tabulator with the first font. Marks
for distance fields vouch for the one size that these are recorded under. -/
def Vouches (m : Mark) (c : Char) (size : Int) (i : Nat) : Prop :=
  FontStack.recordedSize m.size.toInt = size ∧
    (m.char = c ∨ m.font = none ∧ c = Char.ofNat placeholderCode ∧ i = 0)

/-- **What a mark records**, among the drawings of the font of a character. -/
theorem records_iff (hown : s₀.HasOwnPlaceholder) (htidy : s₀.pool.IsTidy)
    (hpick : s₀.CanPick m.char m.font) (hfont : s₀.fontForStateless c = some i) :
    m.Records s₀ i ⟨c.toNat, size⟩ ↔ m.Vouches c size i := by
  have hi : i < s₀.fonts.length := FontStack.lt_of_fontForStateless hfont
  have hsize : m.size.toInt < 0x80000000 := m.size.toInt_lt
  obtain ⟨char, size', font⟩ := m
  cases font with
  | some j =>
    obtain ⟨hrecorded, hkey⟩ := FontStack.record_drawAs_some (hpick.lt j rfl) hsize char
    rw [Records, Vouches, hrecorded, hkey, GlyphKey.mk.injEq, Char.toNat_inj]
    constructor
    · rintro ⟨-, hchar, hsame⟩
      exact ⟨hsame, .inl hchar⟩
    · rintro ⟨hsame, hchar | ⟨hnone, -⟩⟩
      · subst hchar
        obtain rfl := Option.some.inj (hpick.stateless i hfont)
        exact ⟨rfl, rfl, hsame⟩
      · contradiction
  | none =>
    have hne : s₀.fonts ≠ [] := List.ne_nil_of_length_pos (Nat.zero_lt_of_lt hi)
    obtain ⟨hrecorded, hkey, -⟩ := FontStack.record_drawAs_none hown htidy hne hsize char
    rw [Records, Vouches, hrecorded, hkey, GlyphKey.mk.injEq]
    constructor
    · rintro ⟨hzero, hcode, hsame⟩
      exact ⟨hsame, .inr ⟨rfl, by rw [hcode, Char.ofNat_toNat], hzero.symm⟩⟩
    · rintro ⟨hsame, hchar | ⟨-, rfl, rfl⟩⟩
      · subst hchar
        have hnone := hpick.stateless i hfont
        contradiction
      · exact ⟨rfl, by decide, hsame⟩

end Mark

/-- An act that marks nothing. -/
def FontStack.Act.IsLookUp : FontStack.Act → Prop
  | .markReady _ => False
  | _ => True

/-- Looking up leaves the record alone. -/
theorem FontStack.isReady_perform {s : FontStack} {act : FontStack.Act} (h : act.IsLookUp) :
    (s.perform act).isReady = s.isReady := by
  refine isReady_eq_of_fonts ?_
  cases act with
  | pick c => rfl
  | draw c size => exact fonts_glyph s c size
  | standIn size => exact fonts_placeholder s size
  | copy g => rfl
  | package g scale => rfl
  | discard g => rfl
  | markReady g => exact h.elim

/-- A stack with everything that was marked so far. -/
structure Marking where
  stack : FontStack
  marks : List Mark

namespace Marking

/-- Something done with a stack. -/
inductive Act where
  /-- A character is drawn at a size, and the drawing is recorded as ready and given back. -/
  | mark (c : Char) (size : Int32)
  /-- The stack is looked up in some other way. -/
  | look (act : FontStack.Act) (h : act.IsLookUp)

/-- A stack for which nothing was marked. -/
def start (stack : FontStack) : Marking := ⟨stack, []⟩

/-- The stack and its marks after an act. -/
def act (s : Marking) : Act → Marking
  | .mark c size =>
    let (g, stack) := s.stack.glyph c size.toInt
    ⟨(stack.markReady g).discard g, s.marks ++ [⟨c, size, (s.stack.fontFor c).1⟩]⟩
  | .look act _ => { s with stack := s.stack.perform act }

/-- The stack and its marks after acts, in order. -/
def run (s : Marking) (acts : List Act) : Marking := acts.foldl act s

variable {s : Marking} {s₀ : FontStack}

/-- **The record is what the marks record.** -/
structure IsTrue (s : Marking) (s₀ : FontStack) : Prop where
  bare : s.stack.bare = s₀
  tidy : s.stack.pool.IsTidy
  picks : ∀ m ∈ s.marks, s₀.CanPick m.char m.font
  ready : ∀ i key, s.stack.isReady i key = true ↔
    i < s₀.fonts.length ∧ ∃ m ∈ s.marks, m.Records s₀ i key

theorem isTrue_start (settings : Settings) (opener : Opener) :
    (start (FontStack.build settings opener).1).IsTrue
      (FontStack.build settings opener).1.bare where
  bare := rfl
  tidy := (FontStack.isSound_build settings opener).tidy
  picks m hm := by contradiction
  ready i key := by
    rw [start, FontStack.isReady_build]
    exact iff_of_false Bool.false_ne_true fun h => by
      obtain ⟨-, m, hm, -⟩ := h
      contradiction

/-- Marking adds what the mark records. -/
theorem IsTrue.mark (h : s.IsTrue s₀) (hs : Block.IsSpaced s₀.coverage.blocks) (c : Char)
    (size : Int32) : (s.act (.mark c size)).IsTrue s₀ := by
  have hblocks : s.stack.coverage.blocks = s₀.coverage.blocks :=
    congrArg (·.coverage.blocks) h.bare
  have hpick := (FontStack.canPick_fontFor (hblocks ▸ hs) c).bare
  rw [h.bare] at hpick
  have hglyph : (s.stack.glyph c size.toInt).1 =
      (s₀.drawAs (s.stack.fontFor c).1 c size.toInt).1 := by
    rw [FontStack.fst_glyph_eq h.tidy, h.bare]
  have hbare : (s.stack.glyph c size.toInt).2.bare = s₀ := by rw [FontStack.bare_glyph, h.bare]
  have hlength : (s.stack.glyph c size.toInt).2.fonts.length = s₀.fonts.length := by
    rw [← hbare]
    exact (List.length_map _).symm
  have hbefore : (s.stack.glyph c size.toInt).2.isReady = s.stack.isReady :=
    FontStack.isReady_eq_of_fonts (FontStack.fonts_glyph s.stack c size.toInt)
  constructor
  case bare => exact (FontStack.bare_markReady _ _).trans hbare
  case tidy => exact Glyph.isTidy_discard (FontStack.isTidy_glyph h.tidy c size.toInt) _
  case picks =>
    intro m hm
    rcases List.mem_append.mp hm with hold | hnew
    · exact h.picks m hold
    · obtain rfl := List.mem_singleton.mp hnew
      exact hpick
  case ready =>
    intro i key
    change ((s.stack.glyph c size.toInt).2.markReady (s.stack.glyph c size.toInt).1).isReady i key =
      true ↔ _
    rw [FontStack.isReady_markReady, hbefore, hlength, hglyph, h.ready]
    simp only [Marking.act, List.mem_append, List.mem_singleton, or_and_right, exists_or,
      exists_eq_left, and_or_left]
    rfl

/-- **Every act** keeps the record true. -/
theorem IsTrue.act (h : s.IsTrue s₀) (hs : Block.IsSpaced s₀.coverage.blocks) (act : Act) :
    (s.act act).IsTrue s₀ := by
  cases act with
  | mark c size => exact h.mark hs c size
  | look act hlook =>
    refine ⟨(FontStack.bare_perform _ act).trans h.bare, FontStack.isTidy_perform h.tidy act,
      h.picks, fun i key => ?_⟩
    rw [Marking.act, FontStack.isReady_perform hlook]
    exact h.ready i key

theorem IsTrue.run (h : s.IsTrue s₀) (hs : Block.IsSpaced s₀.coverage.blocks) (acts : List Act) :
    (s.run acts).IsTrue s₀ := by
  induction acts generalizing s with
  | nil => exact h
  | cons act rest ih => exact ih (h.act hs act)

/-! ### Texts -/

/-- **A text is ready if its characters have fonts and marks vouch for them.** -/
theorem IsTrue.areReady_iff (h : s.IsTrue s₀) (hown : s₀.HasOwnPlaceholder)
    (htidy : s₀.pool.IsTidy) (text : List Char) (size : Int) :
    s.stack.areReady text size = true ↔ ∀ c ∈ text, ∃ i, s.stack.fontForStateless c = some i ∧
      ∃ m ∈ s.marks, m.Vouches c size i := by
  rw [FontStack.areReady, List.all_eq_true]
  refine forall₂_congr fun c _ => ?_
  rw [Option.any_eq_true]
  refine exists_congr fun i => and_congr_right fun hfont => ?_
  have hfont : s₀.fontForStateless c = some i := by
    rw [← h.bare, FontStack.fontForStateless_bare, hfont]
  rw [h.ready, and_iff_right (FontStack.lt_of_fontForStateless hfont)]
  refine exists_congr fun m => and_congr_right fun hm => ?_
  exact Mark.records_iff hown htidy (h.picks m hm) hfont

/-- The characters that are marked by acts, each with its size, in order. -/
def marked (acts : List Act) : List (Char × Int32) :=
  acts.filterMap fun
    | .mark c size => some (c, size)
    | .look _ _ => none

theorem marks_run (s : Marking) (acts : List Act) :
    (s.run acts).marks.map (fun m => (m.char, m.size)) =
      s.marks.map (fun m => (m.char, m.size)) ++ marked acts := by
  induction acts generalizing s with
  | nil => exact (List.append_nil _).symm
  | cons act rest ih =>
    refine (ih (s.act act)).trans ?_
    cases act with
    | mark c size => simp [Marking.act, marked]
    | look act hlook => rfl

/-- **Which texts are ready.** Characters are marked on a new stack, with any look-ups in between.
Then a text is ready at a size if and only if every character of it has a font and a mark vouches
for it. Such a mark was made for the character, at this size or, for distance fields, at any
negative size; or, for the tabulator with the first font, it was made for a character without a
font. -/
theorem areReady_of_marks (settings : Settings) (opener : Opener) (acts : List Act)
    (text : List Char) (size : Int32) :
    let stack := (FontStack.build settings opener).1
    let s := (start stack).run acts
    s.marks.map (fun m => (m.char, m.size)) = marked acts ∧
      (∀ m ∈ s.marks, stack.bare.CanPick m.char m.font) ∧
      (s.stack.areReady text size.toInt = true ↔ ∀ c ∈ text, ∃ i,
        s.stack.fontForStateless c = some i ∧ ∃ m ∈ s.marks, m.Vouches c size.toInt i) := by
  intro stack s
  have hspaced := FontStack.isSpaced_build settings opener
  have h : s.IsTrue stack.bare := (isTrue_start settings opener).run hspaced acts
  refine ⟨marks_run (start stack) acts, h.picks, h.areReady_iff ?_ ?_ text size.toInt⟩
  · exact FontStack.hasOwnPlaceholder_build settings opener
  · exact (FontStack.isSound_build settings opener).bare.tidy

end Marking

/-! ### Beside the marks -/

/-- A font of single pixels that has the tabulator and one letter. -/
def tabFont : TabulatedFont :=
  ⟨"tabs", 2, [9, 65], [9, 65], [], [], ⟨1, 1, 1, some #[1], 0, 0, 0, 0⟩⟩

/-- The only font, over one block. -/
def tabSettings : Settings := ⟨[⟨"Basic", 0, 127⟩], [], [], [⟨"tabs", .table tabFont⟩], 1, 1⟩

/-- It is picked for these two, and for no other character of the block. -/
theorem pick_tabSettings (acts : List FontStack.Act) {c : Char} (hc : c.toNat ≤ 127) :
    let s := (FontStack.build tabSettings FontData.openAny).1.performAll acts
    let picked := if c.toNat ∈ [9, 65] then some 0 else none
    (s.fontFor c).1 = picked ∧ s.fontForStateless c = picked := by
  intro s picked
  have hhonest : tabFont.face.IsHonest := TabulatedFont.isHonest_face rfl
  have hcodes : tabFont.face.codePoints = [9, 65] := Face.codePoints_of_isStrict (by decide)
  obtain ⟨hkept, hfonts, hweights⟩ :=
    FontStack.weight_performAll_build tabSettings FontData.openAny acts
  have hkept : s.coverage.blocks = [⟨"Basic", 0, 127⟩] := hkept
  have hfonts : s.bare.fonts = [⟨"tabs", tabFont.face, 1, []⟩] := hfonts
  obtain ⟨sole, hsole, heq⟩ := List.map_eq_singleton_iff.mp hfonts
  have hface : sole.face = tabFont.face := congrArg OpenFont.face heq
  have hb : s.coverage.blocks[0]? = some ⟨"Basic", 0, 127⟩ := by rw [hkept]; rfl
  have hweight : s.weight 0 0 = 2 := by
    rw [hweights 0 _ 0 sole hb (by rw [hsole]; rfl), FontStack.additionOf, hface, hcodes]
    rfl
  have hpicks := FontStack.picks_performAll_build tabSettings FontData.openAny (by decide)
    (fun source hsource face hopen => by
      obtain rfl := List.mem_singleton.mp hsource
      exact Except.ok.inj hopen ▸ hhonest) acts c
  have hsame : ∀ {p}, s.Picks c p → p = picked := fun h => by
    have hpick := h.eq_of_sole hsole (hface ▸ hhonest) hb ⟨Nat.zero_le _, hc⟩ (by omega)
    rwa [hface, hcodes] at hpick
  exact ⟨hsame hpicks.1, hsame hpicks.2⟩

/-- **Being ready is not the same as having been marked.** A letter is marked at a negative size. It
is not ready at this size, but at the one that distance fields are recorded under, at which it was
not marked. Another letter, without a font, is marked at a pixel height. Then the tabulator is ready
at this height, although it was not marked at all. -/
theorem Marking.areReady_beside_marks :
    let acts := [.mark 'A' (-5), .mark 'B' 7]
    let s := (start (FontStack.build tabSettings FontData.openAny).1).run acts
    marked acts = [('A', -5), ('B', 7)] ∧
      (∀ c ∈ ['A', '\t'], s.stack.fontForStateless c = some 0) ∧
      s.stack.areReady ['A'] (-5) = false ∧ s.stack.areReady ['A'] (-1) = true ∧
      s.stack.areReady ['\t'] 7 = true := by
  intro acts s
  let stack := (FontStack.build tabSettings FontData.openAny).1
  have hspaced := FontStack.isSpaced_build tabSettings FontData.openAny
  have h : s.IsTrue stack.bare := (isTrue_start tabSettings FontData.openAny).run hspaced acts
  have hready := h.areReady_iff (FontStack.hasOwnPlaceholder_build tabSettings FontData.openAny)
    (FontStack.isSound_build tabSettings FontData.openAny).bare.tidy
  have hfont : ∀ c ∈ ['A', '\t'], s.stack.fontForStateless c = some 0 := by
    intro c hc
    rw [← FontStack.fontForStateless_bare, h.bare, FontStack.fontForStateless_bare]
    obtain rfl | rfl : c = 'A' ∨ c = '\t' := by simpa using hc
    · exact (pick_tabSettings [] (by decide)).2
    · exact (pick_tabSettings [] (by decide)).2
  -- the first mark is made before a font is sought for the second letter
  have hsecond : ∃ font, s.marks = [⟨'A', -5, font⟩, ⟨'B', 7, none⟩] := by
    have hpick := (pick_tabSettings [.draw 'A' (-5), .markReady (stack.glyph 'A' (-5)).1,
      .discard (stack.glyph 'A' (-5)).1] (by decide : ('B').toNat ≤ 127)).1
    exact ⟨(stack.fontFor 'A').1, congrArg (fun p => [_, (⟨'B', 7, p⟩ : Mark)]) hpick⟩
  obtain ⟨font, hmarks⟩ := hsecond
  refine ⟨rfl, hfont, ?_, ?_, ?_⟩
  · refine Bool.eq_false_iff.mpr fun hr => ?_
    obtain ⟨i, -, m, hm, hsize, -⟩ := (hready ['A'] (-5)).mp hr 'A' List.mem_cons_self
    rw [hmarks] at hm
    obtain rfl | rfl : m = ⟨'A', -5, font⟩ ∨ m = ⟨'B', 7, none⟩ := by simpa using hm
    · exact absurd hsize (by decide : FontStack.recordedSize (-5 : Int32).toInt ≠ -5)
    · exact absurd hsize (by decide)
  · refine (hready ['A'] (-1)).mpr fun c hc => ?_
    obtain rfl := List.mem_singleton.mp hc
    have hsize : FontStack.recordedSize (-5 : Int32).toInt = -1 := by decide
    exact ⟨0, hfont 'A' (by decide), ⟨'A', -5, font⟩, by rw [hmarks]; simp, hsize, .inl rfl⟩
  · refine (hready ['\t'] 7).mpr fun c hc => ?_
    obtain rfl := List.mem_singleton.mp hc
    refine ⟨0, hfont '\t' (by decide), ⟨'B', 7, none⟩, by rw [hmarks]; simp, by decide, .inr ?_⟩
    exact ⟨rfl, by decide, rfl⟩

end Typecase
