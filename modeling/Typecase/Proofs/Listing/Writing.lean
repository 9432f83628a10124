import Typecase.Proofs.Listing.Reading

/-!
# What is written on a list is read back

A list can be written in many ways, and reading undoes all of them (`written_lists_are_read_back`).

* **Fields** (`Text.Spaced`). Blank characters stand between the fields of a line, at least one
  between two of them. Behind the last field the line ends, or a blank character and any further
  text come.
* **Lines** (`Listing.IsWritten`). Each entry has a line of its own. Blank lines may stand anywhere.
  A line ends with a line feed, with a carriage return and a line feed, or with the text.
* **Entries.** A block is written as its name and its two code points, in any of their spellings; an
  override as a block, or `*` for every block, and a font. A block called `*` cannot be told from
  every block, and that is all that can be lost.
-/

namespace Typecase

namespace Text

variable {line rest ending gap text : List Char} {fs : List (List Char)}

/-- A gap has blank characters only, and no line feed among them. -/
structure IsGap (gap : List Char) : Prop where
  blank : ∀ c ∈ gap, isBlank c = true
  free : '\n' ∉ gap

instance (gap : List Char) : Decidable (IsGap gap) :=
  decidable_of_iff (gap.all isBlank = true ∧ '\n' ∉ gap)
    ⟨fun h => ⟨by simpa using h.1, h.2⟩, fun h => ⟨by simpa using h.blank, h.free⟩⟩

/-- The line starts with these fields. -/
inductive Spaced : List (List Char) → List Char → Prop
  | last {field rest : List Char} (hend : ∀ c ∈ rest.head?, isBlank c = true)
      (hfree : '\n' ∉ rest) : Spaced [field] (field ++ rest)
  | gap {field gap line : List Char} {fs : List (List Char)} (hne : gap ≠ [])
      (hgap : IsGap gap) (hline : Spaced fs line) : Spaced (field :: fs) (field ++ (gap ++ line))

theorem IsGap.fields_append (hgap : IsGap gap) (rest : List Char) :
    fields (gap ++ rest) = fields rest := by
  obtain ⟨hblank, -⟩ := hgap
  induction gap with
  | nil => rfl
  | cons c gap ih =>
    obtain ⟨hc, hrest⟩ := List.forall_mem_cons.mp hblank
    rw [List.cons_append, fields_cons_of_isBlank hc, ih hrest]

theorem IsGap.fields_eq_nil (hgap : IsGap gap) : fields gap = [] := by
  have h := hgap.fields_append []
  rwa [List.append_nil, fields_nil] at h

theorem IsField.newline_not_mem {field : List Char} (h : IsField field) : '\n' ∉ field :=
  fun hmem => absurd (h.plain '\n' hmem) (by decide)

theorem Spaced.newline_not_mem (h : Spaced fs line) (hfields : ∀ f ∈ fs, IsField f) :
    '\n' ∉ line := by
  induction h with
  | last _ hfree =>
    have hfield := (hfields _ List.mem_cons_self).newline_not_mem
    simp [hfield, hfree]
  | gap _ hgap _ ih =>
    obtain ⟨hfield, hrest⟩ := List.forall_mem_cons.mp hfields
    simp [hfield.newline_not_mem, hgap.free, ih hrest]

/-- The fields that a line starts with are its first fields. -/
theorem Spaced.exists_fields_eq (h : Spaced fs line) (hfields : ∀ f ∈ fs, IsField f) :
    ∃ more, fields line = fs ++ more := by
  induction h with
  | @last field rest hend _ =>
    exact ⟨fields rest, fields_append (hfields _ List.mem_cons_self) hend⟩
  | @gap field gap line fs hne hgap _ ih =>
    obtain ⟨hfield, hrest⟩ := List.forall_mem_cons.mp hfields
    obtain ⟨more, hmore⟩ := ih hrest
    have hend : ∀ c ∈ (gap ++ line).head?, isBlank c = true := by
      cases gap with
      | nil => contradiction
      | cons a gap =>
        rintro c hc
        obtain rfl := Option.some.inj hc
        exact hgap.blank _ List.mem_cons_self
    refine ⟨more, ?_⟩
    rw [fields_append hfield hend, hgap.fields_append, hmore, List.cons_append]

/-- Fields can be written on a line with single spaces between them. -/
theorem exists_spaced (field : List Char) (fs : List (List Char)) :
    ∃ line, Spaced (field :: fs) line := by
  induction fs generalizing field with
  | nil => exact ⟨field ++ [], .last (by simp) (by simp)⟩
  | cons next fs ih =>
    obtain ⟨line, hline⟩ := ih next
    exact ⟨_, .gap (List.cons_ne_nil ' ' []) (by decide) hline⟩

/-- What a line may end with. -/
def lineEnds : List (List Char) := [['\n'], ['\r', '\n']]

/-- How a line ends makes no difference to its fields. -/
theorem exists_lines_eq (hfree : '\n' ∉ line) (hend : ending ∈ lineEnds) (rest : List Char) :
    ∃ first, lines (line ++ (ending ++ rest)) = first :: lines rest ∧
      fields first = fields line := by
  simp only [lineEnds, List.mem_cons, List.not_mem_nil, or_false] at hend
  rcases hend with rfl | rfl
  · exact ⟨dropReturn line, lines_feed hfree rest, fields_dropReturn line⟩
  · exact ⟨line, lines_returnFeed hfree rest, rfl⟩

theorem rows_blankLine (hgap : IsGap gap) (hend : ending ∈ lineEnds) (rest : List Char) :
    rows (lines (gap ++ (ending ++ rest))) = rows (lines rest) := by
  obtain ⟨first, hlines, hfirst⟩ := exists_lines_eq hgap.free hend rest
  rw [hlines, rows_cons_of_eq_nil (hfirst.trans hgap.fields_eq_nil)]

theorem rows_line (hfree : '\n' ∉ line) (hne : fields line ≠ []) (hend : ending ∈ lineEnds)
    (rest : List Char) :
    rows (lines (line ++ (ending ++ rest))) = fields line :: rows (lines rest) := by
  obtain ⟨first, hlines, hfirst⟩ := exists_lines_eq hfree hend rest
  rw [hlines, rows_cons_of_ne_nil (hfirst ▸ hne), hfirst]

theorem rows_lastBlank (hgap : IsGap gap) : rows (lines gap) = [] := by
  by_cases hne : gap = []
  · rw [hne, lines_nil, rows_nil]
  · rw [lines_last hgap.free hne, rows_cons_of_eq_nil hgap.fields_eq_nil, rows_nil]

theorem rows_lastLine (hfree : '\n' ∉ line) (hne : fields line ≠ []) :
    rows (lines line) = [fields line] := by
  have hline : line ≠ [] := by
    rintro rfl
    exact hne fields_nil
  rw [lines_last hfree hline, rows_cons_of_ne_nil hne, rows_nil]

end Text

namespace Listing

variable {α β : Type} {OnLine : α → List Char → Prop} {entries : List α} {text : List Char}

/-- The text has these entries, each on a line of its own. -/
inductive IsWritten (OnLine : α → List Char → Prop) : List α → List Char → Prop
  | nil : IsWritten OnLine [] []
  | blankLine {entries : List α} {gap ending rest : List Char} (hgap : Text.IsGap gap)
      (hend : ending ∈ Text.lineEnds) (hrest : IsWritten OnLine entries rest) :
      IsWritten OnLine entries (gap ++ (ending ++ rest))
  | line {a : α} {entries : List α} {line ending rest : List Char} (hline : OnLine a line)
      (hend : ending ∈ Text.lineEnds) (hrest : IsWritten OnLine entries rest) :
      IsWritten OnLine (a :: entries) (line ++ (ending ++ rest))
  | lastBlank {gap : List Char} (hgap : Text.IsGap gap) : IsWritten OnLine [] gap
  | lastLine {a : α} {line : List Char} (hline : OnLine a line) : IsWritten OnLine [a] line

/-- A list can be written if each of its entries can. -/
theorem exists_isWritten (h : ∀ a, ∃ line, OnLine a line) (entries : List α) :
    ∃ text : String, IsWritten OnLine entries text.toList := by
  suffices hchars : ∃ text, IsWritten OnLine entries text by
    obtain ⟨text, htext⟩ := hchars
    exact ⟨String.ofList text, by rwa [String.toList_ofList]⟩
  induction entries with
  | nil => exact ⟨[], .nil⟩
  | cons a rest ih =>
    obtain ⟨line, hline⟩ := h a
    obtain ⟨text, htext⟩ := ih
    exact ⟨_, .line hline (List.mem_cons_self : ['\n'] ∈ Text.lineEnds) htext⟩

/-- The line stands for the entry, and is a single line. -/
structure Format.IsLineOf (f : Format α) (a : α) (line : List Char) : Prop where
  free : '\n' ∉ line
  ne_nil : Text.fields line ≠ []
  denotes : f.Denotes (Text.fields line) a

theorem IsWritten.forall₂_denotes {f : Format β} {g : α → β} (h : IsWritten OnLine entries text)
    (hlines : ∀ a ∈ entries, ∀ line, OnLine a line → f.IsLineOf (g a) line) :
    List.Forall₂ f.Denotes (Text.rows (Text.lines text)) (entries.map g) := by
  induction h with
  | nil => exact .nil
  | blankLine hgap hend _ ih =>
    rw [Text.rows_blankLine hgap hend]
    exact ih hlines
  | line hline hend _ ih =>
    obtain ⟨hhead, hrest⟩ := List.forall_mem_cons.mp hlines
    obtain ⟨hfree, hne, hentry⟩ := hhead _ hline
    rw [Text.rows_line hfree hne hend]
    exact .cons hentry (ih hrest)
  | lastBlank hgap =>
    rw [Text.rows_lastBlank hgap]
    exact .nil
  | lastLine hline =>
    obtain ⟨hfree, hne, hentry⟩ := hlines _ List.mem_cons_self _ hline
    rw [Text.rows_lastLine hfree hne]
    exact .cons hentry .nil

/-- **A written list is read back** as the entries that its lines stand for, if these follow one
another. -/
theorem IsWritten.ofText_eq {f : Format β} {g : α → β}
    {reader : Option β → List (List Char) → Except Flaw β} {text : String}
    (h : IsWritten OnLine entries text.toList) (hreader : f.IsReadBy reader)
    (hlines : ∀ a ∈ entries, ∀ line, OnLine a line → f.IsLineOf (g a) line)
    (horder : f.InOrder none (entries.map g)) : ofText reader text = ⟨entries.map g, none⟩ :=
  hreader.read_eq_whole_iff.mpr ⟨h.forall₂_denotes hlines, horder⟩

end Listing

namespace Block

variable {b : Block} {line : List Char}

/-- The line starts with the name of the block and spellings of its first and its last code
point. -/
def OnLine (b : Block) (line : List Char) : Prop :=
  ∃ first last, Text.IsSpelling b.first first ∧ Text.IsSpelling b.last last ∧
    Text.Spaced [b.name.toList, first, last] line

theorem exists_onLine (b : Block) : ∃ line, OnLine b line := by
  obtain ⟨line, hline⟩ := Text.exists_spaced b.name.toList
    [Text.hexDigits b.first, Text.hexDigits b.last]
  exact ⟨line, _, _, Text.isSpelling_hexDigits b.first, Text.isSpelling_hexDigits b.last, hline⟩

theorem OnLine.isLineOf (h : OnLine b line) (hname : Text.IsField b.name.toList)
    (hfirst : b.first < 2 ^ 32) (hlast : b.last < 2 ^ 32) : format.IsLineOf b line := by
  obtain ⟨first, last, hfirst', hlast', hspaced⟩ := h
  have hnumeral := hfirst'.isNumeral hfirst
  have hnumeral' := hlast'.isNumeral hlast
  have hfields : ∀ f ∈ [b.name.toList, first, last], Text.IsField f := by
    simp [hname, hnumeral.isField, hnumeral'.isField]
  obtain ⟨more, hmore⟩ := hspaced.exists_fields_eq hfields
  refine ⟨hspaced.newline_not_mem hfields, by simp [hmore], ?_⟩
  exact ⟨_, _, _, more, hmore, String.ofList_toList.symm, hnumeral, hnumeral'⟩

end Block

namespace Override

variable {o : Override} {line : List Char}

/-- The line starts with the block field of the override and its font. -/
def OnLine (o : Override) (line : List Char) : Prop :=
  Text.Spaced [o.scope.toField.toList, o.font.toList] line

/-- The override that is written like this one, and whose block is every block if its field is
`*`. -/
def written (o : Override) : Override := ofPair o.scope.toField o.font

theorem written_eq_self_iff : o.written = o ↔ o.scope ≠ .named "*" := by
  obtain ⟨scope, font⟩ := o
  cases scope with
  | everyBlock => exact iff_of_true rfl (by simp)
  | named name =>
    by_cases hstar : name = "*"
    · subst hstar
      exact iff_of_false (by simp [written, ofPair, Scope.toField]) (by simp)
    · refine iff_of_true ?_ (by simpa using hstar)
      rw [written, ofPair, Scope.toField, Scope.ofField, if_neg hstar]

theorem OnLine.isLineOf_written (h : OnLine o line) (hblock : Text.IsField o.scope.toField.toList)
    (hfont : Text.IsField o.font.toList) : format.IsLineOf o.written line := by
  have hfields : ∀ f ∈ [o.scope.toField.toList, o.font.toList], Text.IsField f := by
    simp [hblock, hfont]
  obtain ⟨more, hmore⟩ := h.exists_fields_eq hfields
  refine ⟨h.newline_not_mem hfields, by simp [hmore], _, _, more, hmore,
    String.ofList_toList.symm, ?_⟩
  have hpair := congrArg Override.scope (ofPair_ofList o.scope.toField.toList o.font.toList)
  simp only [String.ofList_toList] at hpair ⊢
  exact hpair

end Override

/-! ### Reading undoes writing -/

theorem Block.readList_of_isWritten {blocks : List Block} {text : String}
    (hnames : ∀ b ∈ blocks, Text.IsField b.name.toList) (hordered : Block.IsOrdered blocks)
    (hin : ∀ b ∈ blocks, b.last ≤ lastCodePoint)
    (h : Listing.IsWritten Block.OnLine blocks text.toList) :
    Block.readList text = ⟨blocks, none⟩ := by
  have hread := h.ofText_eq (g := id) Block.isReadBy_ofFields (fun b hb line hline => ?_) ?_
  · rwa [List.map_id] at hread
  · have hrange : b.first ≤ b.last := hordered.1 b hb
    have hlast : b.last < 2 ^ 32 := Nat.lt_of_le_of_lt (hin b hb) (by decide)
    exact hline.isLineOf (hnames b hb) (Nat.lt_of_le_of_lt hrange hlast) hlast
  · rw [List.map_id]
    exact Block.inOrder_iff.mpr ⟨hordered, hin, by simp⟩

theorem Override.inOrder (previous : Option Override) (overrides : List Override) :
    Override.format.InOrder previous overrides := by
  induction overrides generalizing previous with
  | nil => trivial
  | cons o rest ih => exact ⟨trivial, ih (some o)⟩

theorem Override.readList_of_isWritten {overrides : List Override} {text : String}
    (hfields : ∀ o ∈ overrides, Text.IsField o.scope.toField.toList ∧ Text.IsField o.font.toList)
    (h : Listing.IsWritten Override.OnLine overrides text.toList) :
    Override.readList text = ⟨overrides.map Override.written, none⟩ :=
  h.ofText_eq Override.isReadBy_ofFields
    (fun o ho _ hline => hline.isLineOf_written (hfields o ho).1 (hfields o ho).2)
    (Override.inOrder none _)

/-- **What is written on a list is read back.** Every ordered list of blocks within Unicode whose
names are fields can be written, and whatever way it is written in, reading gives exactly this list
and no error. Every list of overrides whose blocks and fonts are fields can be written, and reading
gives the overrides that are written like these, which are exactly these unless one of them is for a
block called `*`. -/
theorem written_lists_are_read_back (blocks : List Block) (overrides : List Override) :
    ((∀ b ∈ blocks, Text.IsField b.name.toList) → Block.IsOrdered blocks →
      (∀ b ∈ blocks, b.last ≤ lastCodePoint) →
      (∃ text : String, Listing.IsWritten Block.OnLine blocks text.toList) ∧
        ∀ text : String, Listing.IsWritten Block.OnLine blocks text.toList →
          Block.readList text = ⟨blocks, none⟩) ∧
    ((∀ o ∈ overrides, Text.IsField o.scope.toField.toList ∧ Text.IsField o.font.toList) →
      (∃ text : String, Listing.IsWritten Override.OnLine overrides text.toList) ∧
        ∀ text : String, Listing.IsWritten Override.OnLine overrides text.toList →
          Override.readList text = ⟨overrides.map Override.written, none⟩ ∧
          (Override.readList text = ⟨overrides, none⟩ ↔
            ∀ o ∈ overrides, o.scope ≠ .named "*")) := by
  refine ⟨fun hnames hordered hin => ⟨Listing.exists_isWritten Block.exists_onLine blocks,
      fun text htext => Block.readList_of_isWritten hnames hordered hin htext⟩,
    fun hfields => ⟨Listing.exists_isWritten (fun _ => Text.exists_spaced _ _) overrides,
      fun text htext => ?_⟩⟩
  have hread := Override.readList_of_isWritten hfields htext
  refine ⟨hread, ?_⟩
  calc Override.readList text = ⟨overrides, none⟩
      ↔ overrides.map Override.written = overrides.map id := by simp [hread]
    _ ↔ ∀ o ∈ overrides, o.written = o := List.map_inj_left
    _ ↔ ∀ o ∈ overrides, o.scope ≠ .named "*" :=
      forall₂_congr fun o _ => Override.written_eq_self_iff

/-- Tabs and several spaces, code fields with and without markers, in either case and with zeros in
front, further text, a blank line, and line ends of each kind. -/
theorem mixed_lists_are_read_back :
    Block.readList "Latin\t0041 0X5a  or so\r\n \t\nGreek  0x370\t3Ff" =
        ⟨[⟨"Latin", 0x41, 0x5A⟩, ⟨"Greek", 0x370, 0x3FF⟩], none⟩ ∧
      Override.readList "\r\n* a.ttf\nGreek\t b.ttf 1\r\n" =
        ⟨[⟨.everyBlock, "a.ttf"⟩, ⟨.named "Greek", "b.ttf"⟩], none⟩ := by
  obtain ⟨hblocks, hoverrides⟩ := written_lists_are_read_back
    [⟨"Latin", 0x41, 0x5A⟩, ⟨"Greek", 0x370, 0x3FF⟩]
    [⟨.everyBlock, "a.ttf"⟩, ⟨.named "Greek", "b.ttf"⟩]
  have hlatin : Block.OnLine ⟨"Latin", 0x41, 0x5A⟩ ("Latin".toList ++ (['\t'] ++
      ("0041".toList ++ ([' '] ++ ("0X5a".toList ++ "  or so".toList))))) :=
    ⟨_, _, ⟨[], by decide, 2, "0041".toList, rfl, by decide +kernel⟩,
      ⟨['0', 'X'], by decide, 0, "5a".toList, rfl, by decide +kernel⟩,
      .gap (by decide) (by decide) (.gap (by decide) (by decide)
        (.last (by rintro c ⟨⟩; decide) (by decide)))⟩
  have hgreek : Block.OnLine ⟨"Greek", 0x370, 0x3FF⟩ ("Greek".toList ++ ([' ', ' '] ++
      ("0x370".toList ++ (['\t'] ++ ("3Ff".toList ++ []))))) :=
    ⟨_, _, ⟨['0', 'x'], by decide, 0, "370".toList, rfl, by decide +kernel⟩,
      ⟨[], by decide, 0, "3Ff".toList, rfl, by decide +kernel⟩,
      .gap (by decide) (by decide) (.gap (by decide) (by decide) (.last (by simp) (by simp)))⟩
  constructor
  · refine (hblocks (by decide) ⟨by decide, by decide⟩ (by decide)).2 _ ?_
    exact .line hlatin (by decide : ['\r', '\n'] ∈ Text.lineEnds)
      (.blankLine (by decide : Text.IsGap [' ', '\t'])
        (by decide : ['\n'] ∈ Text.lineEnds) (.lastLine hgreek))
  · have hevery : Override.OnLine ⟨.everyBlock, "a.ttf"⟩
        ("*".toList ++ ([' '] ++ ("a.ttf".toList ++ []))) :=
      .gap (by decide) (by decide) (.last (by simp) (by simp))
    have hnamed : Override.OnLine ⟨.named "Greek", "b.ttf"⟩
        ("Greek".toList ++ (['\t', ' '] ++ ("b.ttf".toList ++ " 1".toList))) :=
      .gap (by decide) (by decide) (.last (by rintro c ⟨⟩; decide) (by decide))
    refine ((hoverrides (by decide)).2 _ ?_).2.mpr (by decide)
    exact .blankLine (by decide : Text.IsGap []) (by decide : ['\r', '\n'] ∈ Text.lineEnds)
      (.line hevery (by decide : ['\n'] ∈ Text.lineEnds)
        (.line hnamed (by decide : ['\r', '\n'] ∈ Text.lineEnds) .nil))

end Typecase
