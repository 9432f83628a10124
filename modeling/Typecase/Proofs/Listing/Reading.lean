import Typecase.Proofs.Coverage.History
import Typecase.Proofs.Listing.Format
import Typecase.Proofs.Text.Numeral
import Typecase.Proofs.Unicode.Arranging
import Typecase.Unicode.BlockList

/-!
# What is read from a list

The formats of the two kinds of lists, and what reading makes of any text.

* **Block lists** (`Block.format`). A line stands for a block by its name and two code fields; what
  comes behind them does not count. The flaws of a line are looked for in the order in which
  `Block.HasFlaw` lists them: a line that has several is reported for the first.
* **Override lists** (`Override.format`). A line stands for an override by a block and a font, where
  the block `*` is every block. The only flaw is a single field.
* **Reading** (`entries_of_any_text`). Both readers know their formats, so for every text they give
  the entries up to the first malformed line and report that line. The blocks read are always in
  order and within Unicode, and a coverage keeps all of them.
-/

namespace Typecase

namespace Block

variable {previous : Option Block} {fields : List (List Char)} {b c : Block} {flaw : Flaw}

/-! ### Block lists -/

/-- The fields of a line stand for the block. -/
def Denotes (fields : List (List Char)) (b : Block) : Prop :=
  ∃ name first last more, fields = name :: first :: last :: more ∧
    b.name = String.ofList name ∧ Text.IsNumeral first b.first ∧ Text.IsNumeral last b.last

/-- What is wrong with a block behind another one, or at the start. -/
def IsMisplaced (previous : Option Block) (b : Block) : Flaw → Prop
  | .missingField => False
  | .invalidHex => False
  | .invertedRange => b.last < b.first
  | .outOfRange => lastCodePoint < b.last
  | .unordered => ∃ p ∈ previous, b.first ≤ p.last

/-- What is wrong with the fields of a line behind a block, or at the start. -/
def HasFlaw (previous : Option Block) (fields : List (List Char)) (flaw : Flaw) : Prop :=
  match flaw with
  | .missingField => fields.length < 3
  | .invalidHex => ∃ field ∈ (fields.drop 1).take 2, ∀ n, ¬Text.IsNumeral field n
  | flaw => ∃ b, Denotes fields b ∧ IsMisplaced previous b flaw

/-- The block ends neither before it starts nor beyond Unicode, and starts behind the block before
it. -/
structure Follows (previous : Option Block) (b : Block) : Prop where
  first_le_last : b.first ≤ b.last
  inUnicode : b.last ≤ lastCodePoint
  behind : ∀ p ∈ previous, p.last < b.first

/-- Block lists. -/
def format : Listing.Format Block := ⟨Denotes, Follows, HasFlaw⟩

theorem denotes_cons_iff {name first last : List Char} {more : List (List Char)} :
    Denotes (name :: first :: last :: more) b ↔ b.name = String.ofList name ∧
      Text.readCodePoint? first = some b.first ∧ Text.readCodePoint? last = some b.last := by
  simp only [Text.readCodePoint?_eq_some_iff]
  constructor
  · rintro ⟨_, _, _, _, heq, hentry⟩
    simp only [List.cons.injEq] at heq
    obtain ⟨rfl, rfl, rfl, rfl⟩ := heq
    exact hentry
  · exact fun hentry => ⟨name, first, last, more, rfl, hentry⟩

theorem Denotes.eq (h : Denotes fields b) (h' : Denotes fields c) : b = c := by
  obtain ⟨name, first, last, more, rfl, -⟩ := id h
  obtain ⟨hname, hfirst, hlast⟩ := denotes_cons_iff.mp h
  obtain ⟨hname', hfirst', hlast'⟩ := denotes_cons_iff.mp h'
  obtain ⟨bname, bfirst, blast⟩ := b
  obtain ⟨cname, cfirst, clast⟩ := c
  simp_all

/-- A line that stands for a block can be wrong only in the place of the block. -/
theorem Denotes.hasFlaw_iff (h : Denotes fields b) :
    HasFlaw previous fields flaw ↔ IsMisplaced previous b flaw := by
  have hplace : (∃ c, Denotes fields c ∧ IsMisplaced previous c flaw) ↔
      IsMisplaced previous b flaw :=
    ⟨fun ⟨c, hc, hflaw⟩ => h.eq hc ▸ hflaw, fun hflaw => ⟨b, h, hflaw⟩⟩
  cases flaw with
  | missingField =>
    obtain ⟨name, first, last, more, rfl, -⟩ := h
    exact iff_of_false (by simp [HasFlaw]) id
  | invalidHex =>
    obtain ⟨name, first, last, more, rfl, -, hfirst, hlast⟩ := h
    refine iff_of_false ?_ id
    rintro ⟨field, hfield, hno⟩
    have hfield : field = first ∨ field = last := by simpa using hfield
    rcases hfield with rfl | rfl
    · exact hno _ hfirst
    · exact hno _ hlast
  | invertedRange => exact hplace
  | outOfRange => exact hplace
  | unordered => exact hplace

theorem accept_eq_error (h : accept previous b = .error flaw) : IsMisplaced previous b flaw ∧
    ∀ other, IsMisplaced previous b other → flaw.rank ≤ other.rank := by
  rw [accept] at h
  split at h
  · rename_i hinverted
    obtain rfl := Except.error.inj h
    refine ⟨hinverted, fun other hother => ?_⟩
    cases other with
    | missingField | invalidHex => exact hother.elim
    | _ => simp [Flaw.rank]
  · rename_i hinverted
    split at h
    · rename_i hrange
      obtain rfl := Except.error.inj h
      refine ⟨hrange, fun other hother => ?_⟩
      cases other with
      | missingField | invalidHex => exact hother.elim
      | invertedRange => exact absurd hother hinverted
      | _ => simp [Flaw.rank]
    · rename_i hrange
      split at h
      · rename_i horder
        obtain rfl := Except.error.inj h
        have hbehind : ∃ p ∈ previous, b.first ≤ p.last := by
          simpa [Option.any_eq_true] using horder
        refine ⟨hbehind, fun other hother => ?_⟩
        cases other with
        | missingField | invalidHex => exact hother.elim
        | invertedRange => exact absurd hother hinverted
        | outOfRange => exact absurd hother hrange
        | unordered => exact Nat.le_refl _
      · contradiction

/-- What the reader of one line does: it looks at the number of fields, then at the code fields, and
then at the place of the block. -/
theorem ofFields_cases (previous : Option Block) (fields : List (List Char)) :
    (fields.length < 3 ∧ ofFields previous fields = .error .missingField) ∨
    (3 ≤ fields.length ∧ (∀ b, ¬Denotes fields b) ∧ HasFlaw previous fields .invalidHex ∧
      ofFields previous fields = .error .invalidHex) ∨
    ∃ b, Denotes fields b ∧ ofFields previous fields = accept previous b := by
  match fields with
  | [] => exact .inl ⟨by simp, rfl⟩
  | [_] => exact .inl ⟨by simp, rfl⟩
  | [_, _] => exact .inl ⟨by simp, rfl⟩
  | name :: first :: last :: more =>
    have hno {field : List Char} (h : Text.readCodePoint? field = none) (n : Nat) :
        ¬Text.IsNumeral field n := by
      rw [← Text.readCodePoint?_eq_some_iff, h]
      simp
    refine .inr ?_
    cases hfirst : Text.readCodePoint? first with
    | none =>
      refine .inl ⟨by simp, fun b hb => ?_, ⟨first, by simp, hno hfirst⟩,
        by simp [ofFields, hfirst]⟩
      simp [denotes_cons_iff, hfirst] at hb
    | some start =>
      cases hlast : Text.readCodePoint? last with
      | none =>
        refine .inl ⟨by simp, fun b hb => ?_, ⟨last, by simp, hno hlast⟩,
          by simp [ofFields, hfirst, hlast]⟩
        simp [denotes_cons_iff, hlast] at hb
      | some stop =>
        exact .inr ⟨⟨String.ofList name, start, stop⟩, denotes_cons_iff.mpr ⟨rfl, hfirst, hlast⟩,
          by simp [ofFields, hfirst, hlast]⟩

/-- **The reader of one line knows the format of block lists.** -/
theorem isReadBy_ofFields : format.IsReadBy ofFields := by
  have hok {previous : Option Block} {fields : List (List Char)} {b : Block} :
      ofFields previous fields = .ok b ↔ Denotes fields b ∧ Follows previous b := by
    rcases ofFields_cases previous fields with ⟨hshort, h⟩ | ⟨-, hno, -, h⟩ | ⟨c, hc, h⟩
    · refine iff_of_false (by simp [h]) ?_
      rintro ⟨⟨name, first, last, more, rfl, -⟩, -⟩
      simp at hshort
      omega
    · exact iff_of_false (by simp [h]) fun hb => hno b hb.1
    · rw [h, accept_eq_ok_iff]
      constructor
      · rintro ⟨rfl, hrange, hin, hbehind⟩
        exact ⟨hc, hrange, hin, hbehind⟩
      · rintro ⟨hb, hrange, hin, hbehind⟩
        obtain rfl := hc.eq hb
        exact ⟨rfl, hrange, hin, hbehind⟩
  refine Listing.Format.isReadBy_of (fun _ => hok) (fun {previous fields b flaw} _ h => ?_)
    fun {previous fields flaw} _ h => ?_
  · obtain ⟨hb, hrange, hin, hbehind⟩ := hok.mp h
    change ¬HasFlaw previous fields flaw
    rw [hb.hasFlaw_iff]
    cases flaw with
    | missingField => exact id
    | invalidHex => exact id
    | invertedRange => exact Nat.not_lt.mpr hrange
    | outOfRange => exact Nat.not_lt.mpr hin
    | unordered =>
      rintro ⟨p, hp, hle⟩
      exact absurd (hbehind p hp) (Nat.not_lt.mpr hle)
  · rcases ofFields_cases previous fields with ⟨hshort, h'⟩ | ⟨hlong, -, hhex, h'⟩ | ⟨b, hb, h'⟩
    · obtain rfl := Except.error.inj (h.symm.trans h')
      exact ⟨hshort, fun other _ => Nat.zero_le other.rank⟩
    · obtain rfl := Except.error.inj (h.symm.trans h')
      refine ⟨hhex, fun other hother => ?_⟩
      -- only a missing field would come first
      cases other with
      | missingField => exact absurd hother (Nat.not_lt.mpr hlong)
      | _ => simp [Flaw.rank]
    · rw [h'] at h
      obtain ⟨hflaw, hleast⟩ := accept_eq_error h
      exact ⟨hb.hasFlaw_iff.mpr hflaw, fun other hother => hleast other (hb.hasFlaw_iff.mp hother)⟩

/-- Blocks that follow one another are an ordered list. -/
theorem inOrder_iff {blocks : List Block} : format.InOrder previous blocks ↔ IsOrdered blocks ∧
    (∀ b ∈ blocks, b.last ≤ lastCodePoint) ∧ ∀ p ∈ previous, ∀ b ∈ blocks, p.last < b.first := by
  induction blocks generalizing previous with
  | nil => simp [Listing.Format.InOrder, isOrdered_nil]
  | cons b rest ih =>
    rw [Listing.Format.InOrder, ih, isOrdered_cons_iff]
    constructor
    · rintro ⟨⟨hrange, hin, hbehind⟩, hrest, hinrest, hnext⟩
      have hlt : ∀ c ∈ rest, b.last < c.first := hnext b rfl
      refine ⟨⟨hrange, hlt, hrest⟩, List.forall_mem_cons.mpr ⟨hin, hinrest⟩, fun p hp => ?_⟩
      refine List.forall_mem_cons.mpr ⟨hbehind p hp, fun c hc => ?_⟩
      exact Nat.lt_of_lt_of_le (hbehind p hp) (Nat.le_trans hrange (Nat.le_of_lt (hlt c hc)))
    · rintro ⟨⟨hrange, hlt, hrest⟩, hin, hbehind⟩
      obtain ⟨hinb, hinrest⟩ := List.forall_mem_cons.mp hin
      refine ⟨⟨hrange, hinb, fun p hp => hbehind p hp b List.mem_cons_self⟩, hrest, hinrest, ?_⟩
      rintro p hp
      obtain rfl := Option.some.inj hp
      exact hlt

end Block

namespace Override

/-! ### Override lists -/

/-- The fields of a line stand for the override. -/
def Denotes (fields : List (List Char)) (o : Override) : Prop :=
  ∃ block font more, fields = block :: font :: more ∧ o.font = String.ofList font ∧
    o.scope = if block = ['*'] then .everyBlock else .named (String.ofList block)

/-- Override lists. -/
def format : Listing.Format Override where
  Denotes := Denotes
  Follows _ _ := True
  HasFlaw _ fields flaw := flaw = .missingField ∧ fields.length = 1

theorem ofPair_ofList (block font : List Char) : ofPair (String.ofList block) (String.ofList font) =
    ⟨if block = ['*'] then .everyBlock else .named (String.ofList block), String.ofList font⟩ := by
  have hstar : String.ofList block = "*" ↔ block = ['*'] := by
    rw [show ("*" : String) = String.ofList ['*'] from rfl, String.ofList_inj]
  rw [ofPair, Scope.ofField, if_congr hstar rfl rfl]

/-- **The reader of one line knows the format of override lists.** -/
theorem isReadBy_ofFields : format.IsReadBy fun _ => ofFields := by
  have hok {fields : List (List Char)} {o : Override} :
      ofFields fields = .ok o ↔ Denotes fields o := by
    match fields with
    | [] => exact iff_of_false (by simp [ofFields]) (by simp [Denotes])
    | [_] => exact iff_of_false (by simp [ofFields]) (by simp [Denotes])
    | block :: font :: more =>
      rw [ofFields, ofPair_ofList, Except.ok.injEq]
      constructor
      · rintro rfl
        exact ⟨block, font, more, rfl, rfl, rfl⟩
      · rintro ⟨_, _, _, heq, hfont, hscope⟩
        simp only [List.cons.injEq] at heq
        obtain ⟨rfl, rfl, rfl⟩ := heq
        rw [← hfont, ← hscope]
  refine Listing.Format.isReadBy_of (fun _ => hok.trans (and_true _).to_iff.symm)
    (fun {previous fields o flaw} _ h => ?_) fun {previous fields flaw} hblank h => ?_
  · rintro ⟨-, hsingle⟩
    obtain ⟨block, font, more, rfl, -⟩ := hok.mp h
    simp at hsingle
  · match fields, hblank, h with
    | [field], _, h =>
      obtain rfl := Except.error.inj h
      exact ⟨⟨rfl, rfl⟩, fun other _ => Nat.zero_le other.rank⟩

end Override

/-! ### Any text -/

/-- **What is read from a text.** A text has exactly one division into lines. The blocks read are
those of the lines in front of the first malformed one, and the error is the number of that line and
the first of its flaws; there is none exactly if no line is malformed. The blocks are in order and
within Unicode, so that a coverage keeps all of them. The same holds for overrides, of which a line
is malformed if it has a single field. -/
theorem entries_of_any_text (text : String) :
    let l := Block.readList text
    ∃ lines, (∀ ls, Text.HasLines text.toList ls ↔ ls = lines) ∧
      Block.format.Describes lines l ∧ Block.IsOrdered l.entries ∧
      (∀ b ∈ l.entries, b.last ≤ lastCodePoint) ∧ Block.arrange l.entries = ⟨l.entries, []⟩ ∧
      (Coverage.ofBlocks l.entries).blocks = l.entries ∧
      Override.format.Describes lines (Override.readList text) := by
  intro l
  have hblocks : Block.format.Describes (Text.lines text.toList) l :=
    Block.isReadBy_ofFields.describes (Text.lines text.toList)
  have hoverrides : Override.format.Describes (Text.lines text.toList) (Override.readList text) :=
    Override.isReadBy_ofFields.describes (Text.lines text.toList)
  obtain ⟨front, -, hfront⟩ := hblocks.exists_holds
  obtain ⟨hordered, hin, -⟩ := Block.inOrder_iff.mp (Listing.Format.holds_iff.mp hfront).2
  have hkept : Block.arrange l.entries = ⟨l.entries, []⟩ := by
    rw [Block.arrange, if_pos (Block.isOrdered_iff_looksOrdered.mp hordered).1]
  refine ⟨Text.lines text.toList, fun ls => Text.hasLines_iff, hblocks, hordered, hin, hkept, ?_,
    hoverrides⟩
  rw [Coverage.blocks_ofBlocks, hkept]

end Typecase
