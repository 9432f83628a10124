import Mathlib.Data.List.Forall2
import Typecase.Proofs.FontStack.Marking
import Typecase.Proofs.Repeats
import Typecase.Proofs.Text.Numeral
import Typecase.Proofs.Text.Trimming
import Typecase.Report.Basic

/-!
# The report on characters without a font

`Report.reports_of_lines` says what the report on a text is, for a stack that was built over blocks
none of which is inverted, whatever was done with it since then.

* **Looking up.** The report looks characters up one after the other, with the memory of the last
  block, which goes on from line to line. In searchable blocks this finds what looking up without
  memory finds, and leaves the stack sound (`lookUpLine_spec`). So the report on a line is made of
  that line only (`reportLines_eq`).
* **Sorting.** Sorting and leaving out repetitions gives the characters in strictly ascending order
  (`mem_distinct`, `pairwise_distinct`), and there is only one list of them (`IsMissing.eq`).
* **What is printed.** `verdict` is the text behind a line. The characters can be read back from it
  (`exists_hasFields_codes`).
-/

namespace Typecase.Report

variable {s t : FontStack} {line shown codes cs : List Char} {c : Char} {report : String}

/-! ### Looking up a line -/

/-- What is missing does not depend on what a stack remembers. -/
theorem missingIn_of_bare_eq (h : s.bare = t.bare) (line : List Char) :
    missingIn s line = missingIn t line := by
  simp only [missingIn, FontStack.fontForStateless_of_bare_eq h]

theorem mem_missingIn : c ∈ missingIn s line ↔
    c ∈ line ∧ Text.isBlank c = false ∧ s.fontForStateless c = none := by
  simp [missingIn]

/-- **Looking up a line** finds what is missing in it, and changes the memory of the stack only. -/
theorem lookUpLine_spec (h : s.IsSound) (hs : Block.IsSearchable s.bare.coverage.blocks)
    (line : List Char) : (lookUpLine s line).1 = missingIn s line ∧
      (lookUpLine s line).2.IsSound ∧ (lookUpLine s line).2.bare = s.bare := by
  induction line generalizing s with
  | nil => exact ⟨rfl, h, rfl⟩
  | cons c rest ih =>
    rw [lookUpLine]
    split
    · rename_i hblank
      obtain ⟨hfound, hrest⟩ := ih h hs
      refine ⟨hfound.trans ?_, hrest⟩
      rw [missingIn, missingIn, List.filter_cons_of_neg (by simp [hblank])]
    · rename_i hplain
      have hbare := FontStack.bare_fontFor s c
      obtain ⟨hfound, hsound, hrest⟩ := ih (h.fontFor c) (hbare.symm ▸ hs)
      refine ⟨?_, hsound, hrest.trans hbare⟩
      dsimp only
      rw [hfound, missingIn_of_bare_eq hbare, FontStack.fst_fontFor h hs, missingIn, missingIn,
        List.filter_cons]
      simp [hplain]

/-- **The report on a line does not depend on the lines before it.** -/
theorem reportLines_eq (h : s.IsSound) (hs : Block.IsSearchable s.bare.coverage.blocks)
    (ls : List (List Char)) :
    reportLines s ls = ls.map fun line => lineText line (missingIn s line) := by
  -- the stack is handed on from line to line, and stays the same but for its memory
  have hmap : ∀ t : FontStack, t.IsSound → t.bare = s.bare →
      reportLines t ls = ls.map fun line => lineText line (missingIn s line) := by
    induction ls with
    | nil => exact fun _ _ _ => rfl
    | cons line rest ih =>
      intro t ht hbare
      obtain ⟨hfound, hsound, hkept⟩ := lookUpLine_spec ht (hbare.symm ▸ hs) line
      rw [reportLines, List.map_cons]
      dsimp only
      rw [hfound, missingIn_of_bare_eq hbare, ih _ hsound (hkept.trans hbare)]
  exact hmap s h rfl

/-! ### Sorting -/

theorem mem_distinct : c ∈ distinct cs ↔ c ∈ cs := by
  rw [distinct, Repeats.mem_eraseReps, List.mem_mergeSort]

theorem pairwise_distinct (cs : List Char) :
    (distinct cs).Pairwise fun a b => a.toNat < b.toNat := by
  have hsorted : (cs.mergeSort fun a b => a.toNat ≤ b.toNat).Pairwise fun a b =>
      a.toNat ≤ b.toNat := by
    refine (List.pairwise_mergeSort (fun a b c hab hbc => ?_) (fun a b => ?_) cs).imp
      of_decide_eq_true
    · simp only [decide_eq_true_eq] at hab hbc ⊢
      exact hab.trans hbc
    · simp only [Bool.or_eq_true, decide_eq_true_eq]
      exact Nat.le_total _ _
  have : Std.Antisymm fun a b : Char => a.toNat ≤ b.toNat :=
    ⟨fun _ _ hab hba => Char.toNat_inj.mp (Nat.le_antisymm hab hba)⟩
  refine (Repeats.pairwise_eraseReps hsorted).imp fun h => ?_
  exact Nat.lt_of_le_of_ne h.1 fun heq => h.2 (Char.toNat_inj.mp heq)

/-- The list has the characters of a line that are not blank and have no font, in strictly ascending
order. -/
structure IsMissing (s : FontStack) (line codes : List Char) : Prop where
  mem_iff : ∀ c, c ∈ codes ↔ c ∈ line ∧ Text.isBlank c = false ∧ s.fontForStateless c = none
  ascending : codes.Pairwise fun a b => a.toNat < b.toNat

/-- There is only one such list. -/
theorem IsMissing.eq {codes' : List Char} (h : IsMissing s line codes)
    (h' : IsMissing s line codes') : codes = codes' := by
  have : Std.Antisymm fun a b : Char => a.toNat < b.toNat :=
    ⟨fun _ _ hab hba => absurd hab (Nat.lt_asymm hba)⟩
  have : Std.Irrefl fun a b : Char => a.toNat < b.toNat := ⟨fun a => Nat.lt_irrefl a.toNat⟩
  exact List.Pairwise.eq_of_mem_iff h.ascending h'.ascending fun c =>
    (h.mem_iff c).trans (h'.mem_iff c).symm

/-- Blank characters at the ends of a line do not matter. -/
theorem isMissing_distinct (h : Text.IsTrimOf line shown) :
    IsMissing s line (distinct (missingIn s shown)) := by
  refine ⟨fun c => ?_, pairwise_distinct _⟩
  rw [mem_distinct, mem_missingIn]
  exact and_congr_left fun hc => h.mem_iff hc.1

theorem IsMissing.eq_nil_iff (h : IsMissing s line codes) :
    codes = [] ↔ ∀ c ∈ line, Text.isBlank c = false → s.fontForStateless c ≠ none := by
  rw [List.eq_nil_iff_forall_not_mem]
  simp only [h.mem_iff, not_and]

/-! ### What is printed -/

/-- The name of a character in a report. -/
def codeText (c : Char) : String := "U+" ++ Text.codePointHex c.toNat

/-- What a report says behind a line in which these characters have no font. -/
def verdict (codes : List Char) : String :=
  if codes.isEmpty then " (ok)"
  else " (unresolved: " ++ String.intercalate " " (codes.map codeText) ++ ")"

theorem lineText_eq (line missing : List Char) :
    lineText line missing = String.ofList line ++ verdict (distinct missing) := by
  have hempty : missing.isEmpty = (distinct missing).isEmpty := by
    rw [Bool.eq_iff_iff, List.isEmpty_iff, List.isEmpty_iff, List.eq_nil_iff_forall_not_mem,
      List.eq_nil_iff_forall_not_mem]
    simp only [mem_distinct]
  rw [lineText, verdict, hempty]
  rfl

theorem verdict_eq_ok_iff : verdict codes = " (ok)" ↔ codes = [] := by
  constructor
  · intro h
    refine List.isEmpty_iff.mp (Bool.of_not_eq_false fun hsome => ?_)
    rw [verdict, hsome] at h
    -- the texts differ behind the bracket
    have hthird := congrArg (fun text => text.toList[2]?) h
    simp at hthird
  · rintro rfl
    rfl

/-- **The characters can be read back.** What is printed between the brackets has one field for each
of them, in order: a spelling of the code point behind its mark. -/
theorem exists_hasFields_codes (codes : List Char) :
    ∃ fields, Text.HasFields (String.intercalate " " (codes.map codeText)).toList fields ∧
      List.Forall₂ (fun c field => ∃ digits, field = 'U' :: '+' :: digits ∧
        Text.IsSpelling c.toNat digits) codes fields := by
  have htext (c : Char) :
      (codeText c).toList = 'U' :: '+' :: (Text.codePointHex c.toNat).toList := by
    rw [codeText, String.toList_append]
    rfl
  have hfield : ∀ field ∈ codes.map fun c => (codeText c).toList, Text.IsField field := by
    rw [List.forall_mem_map]
    intro c _
    have hnumeral := (Text.isSpelling_codePointHex c.toNat).isNumeral
      (UInt32.toNat_lt c.val)
    rw [htext]
    refine ⟨List.cons_ne_nil _ _, ?_⟩
    simp only [List.forall_mem_cons]
    exact ⟨by decide, by decide, hnumeral.isField.plain⟩
  refine ⟨_, ?_, List.forall₂_map_right_iff.mpr (List.forall₂_same.mpr fun c _ =>
    ⟨_, htext c, Text.isSpelling_codePointHex c.toNat⟩)⟩
  rw [String.toList_intercalate, List.map_map]
  exact Text.hasFields_intercalate hfield

/-- What the report on a line is. -/
def IsReport (s : FontStack) (line : List Char) (report : String) : Prop :=
  ∃ shown codes, Text.IsTrimOf line shown ∧ IsMissing s line codes ∧
    report = String.ofList shown ++ verdict codes

/-- A report says that all is well if it is. -/
theorem IsReport.eq_ok_iff (h : IsReport s line report) (hshown : Text.IsTrimOf line shown) :
    report = String.ofList shown ++ " (ok)" ↔
      ∀ c ∈ line, Text.isBlank c = false → s.fontForStateless c ≠ none := by
  obtain ⟨shown', codes, hshown', hmissing, rfl⟩ := h
  rw [hshown'.trim_eq.symm.trans hshown.trim_eq, String.append_right_inj, verdict_eq_ok_iff,
    hmissing.eq_nil_iff]

/-! ### Lines -/

/-- A line has something to report on if not all of it is blank. -/
def hasContent (line : List Char) : Bool := line.any fun c => !Text.isBlank c

theorem hasContent_eq (line : List Char) : hasContent line = !(Text.trim line).isEmpty := by
  rw [Bool.eq_iff_iff, hasContent, List.any_eq_true, Bool.not_eq_true', Bool.eq_false_iff, ne_eq,
    List.isEmpty_iff, Text.trim_eq_nil_iff]
  simp

/-- The report on a line that stands alone. -/
def reportOnLine (s : FontStack) (line : List Char) : String :=
  lineText (Text.trim line) (missingIn s (Text.trim line))

theorem isReport_reportOnLine (s : FontStack) (line : List Char) :
    IsReport s line (reportOnLine s line) :=
  ⟨_, _, Text.isTrimOf_trim line, isMissing_distinct (Text.isTrimOf_trim line), lineText_eq _ _⟩

theorem unresolvedLines_eq (h : s.IsSound) (hs : Block.IsSearchable s.bare.coverage.blocks)
    (text : String) : unresolvedLines s text =
      ((Text.lines text.toList).filter hasContent).map (reportOnLine s) := by
  have hcontent : contentLines text =
      ((Text.lines text.toList).filter hasContent).map Text.trim := by
    rw [contentLines, List.filter_map]
    congr 2
    exact funext fun line => (hasContent_eq line).symm
  rw [unresolvedLines, reportLines_eq h hs, hcontent, List.map_map]
  rfl

/-- A line that stands alone is reported on as it is in any text. -/
theorem unresolvedLines_ofList (h : s.IsSound) (hs : Block.IsSearchable s.bare.coverage.blocks)
    (hfree : '\n' ∉ line) : unresolvedLines s (String.ofList line) =
      ([line].filter hasContent).map (reportOnLine s) := by
  rw [unresolvedLines_eq h hs, String.toList_ofList]
  rcases eq_or_ne line [] with rfl | hne
  · rfl
  · rw [Text.lines_last hfree hne]

/-- **The report on a text.** Take a stack that was built over blocks none of which is inverted,
with which anything was done since then, and a text. The report has one line for each line of the
text that is not blank, in order: that line, trimmed, and behind it the characters of that line that
are not blank and for which looking up without memory finds no font, in strictly ascending order. It
is the report on the lines one by one, each of them as a text of its own.

Behind a line it says that all is well if and only if there is no such character, and the characters
that it lists can be read back. -/
theorem reports_of_lines (settings : Settings) (opener : Opener)
    (hblocks : ∀ b ∈ settings.blocks, b.first ≤ b.last) (acts : List FontStack.Act) :
    let s := (FontStack.build settings opener).1.performAll acts
    (∀ (text : String) (ls : List (List Char)), Text.HasLines text.toList ls →
      List.Forall₂ (IsReport s) (ls.filter hasContent) (unresolvedLines s text) ∧
        unresolvedLines s text = ls.flatMap fun line => unresolvedLines s (String.ofList line)) ∧
    (∀ (line shown : List Char) (report : String), IsReport s line report →
      Text.IsTrimOf line shown → (report = String.ofList shown ++ " (ok)" ↔
        ∀ c ∈ line, Text.isBlank c = false → s.fontForStateless c ≠ none)) ∧
    ∀ codes : List Char, ∃ fields,
      Text.HasFields (String.intercalate " " (codes.map codeText)).toList fields ∧
        List.Forall₂ (fun c field => ∃ digits, field = 'U' :: '+' :: digits ∧
          Text.IsSpelling c.toNat digits) codes fields := by
  intro s
  have hsound : s.IsSound := (FontStack.isSound_build settings opener).performAll acts
  have hsearch : Block.IsSearchable s.bare.coverage.blocks := by
    have hkept := FontStack.blocks_build settings opener
    rw [FontStack.bare_performAll]
    exact hkept.symm ▸ (Block.isOrdered_kept_arrange hblocks).isSearchable
  refine ⟨fun text ls hls => ?_, fun line shown report h hshown => h.eq_ok_iff hshown,
    exists_hasFields_codes⟩
  have hunresolved := unresolvedLines_eq hsound hsearch text
  rw [hls.lines_eq] at hunresolved
  refine ⟨?_, ?_⟩
  · rw [hunresolved]
    exact List.forall₂_map_right_iff.mpr
      (List.forall₂_same.mpr fun line _ => isReport_reportOnLine s line)
  · have hfree : ∀ line ∈ ls, '\n' ∉ line := fun line => hls.newline_not_mem
    rw [hunresolved]
    clear hunresolved hls
    induction ls with
    | nil => rfl
    | cons line rest ih =>
      obtain ⟨hline, hrest⟩ := List.forall_mem_cons.mp hfree
      rw [List.flatMap_cons, ← ih hrest, unresolvedLines_ofList hsound hsearch hline,
        ← List.map_append, ← List.filter_append, List.singleton_append]

/-- A font with one letter, and a text of four lines. Two of them are blank, in one of the others two
letters are missing, and in the last none is. -/
theorem reports_of_letters :
    let s := (FontStack.build tabSettings FontData.openAny).1.performAll [.pick 'A', .draw 'z' 5]
    unresolvedLines s "  bAa b\r\n \n\nA A" = ["bAa b (unresolved: U+0061 U+0062)", "A A (ok)"] := by
  intro s
  obtain ⟨hreports, hok, -⟩ := reports_of_lines tabSettings FontData.openAny (by decide)
    [.pick 'A', .draw 'z' 5]
  have hpick {c : Char} (hc : c.toNat ≤ 127) :
      s.fontForStateless c = if c.toNat ∈ [9, 65] then some 0 else none := (pick_tabSettings _ hc).2
  have hmissing : IsMissing s "  bAa b".toList ['a', 'b'] := by
    refine ⟨fun c => ⟨fun hc => ?_, fun ⟨hc, hplain, hnone⟩ => ?_⟩, by decide⟩
    · obtain rfl | rfl : c = 'a' ∨ c = 'b' := by simpa using hc
      · exact ⟨by decide, by decide, hpick (by decide)⟩
      · exact ⟨by decide, by decide, hpick (by decide)⟩
    · have hall : "  bAa b".toList.all (· ∈ [' ', 'b', 'A', 'a']) = true := by decide
      obtain rfl | rfl | rfl | rfl : c = ' ' ∨ c = 'b' ∨ c = 'A' ∨ c = 'a' := by
        simpa using List.all_eq_true.mp hall c hc
      · exact absurd hplain (by decide)
      · decide
      · rw [hpick (by decide)] at hnone
        exact absurd hnone (by decide)
      · decide
  have hlines : Text.HasLines "  bAa b\r\n \n\nA A".toList
      ["  bAa b".toList, [' '], [], "A A".toList] := Text.hasLines_iff.mpr (by decide)
  have hcontent : ["  bAa b".toList, [' '], [], "A A".toList].filter hasContent =
      ["  bAa b".toList, "A A".toList] := by decide
  obtain ⟨hlisted, -⟩ := hreports _ _ hlines
  rw [hcontent] at hlisted
  obtain ⟨first, rest, hfirst, hrest, hall⟩ := List.forall₂_cons_left_iff.mp hlisted
  obtain ⟨last, none, hlast, hnone, rfl⟩ := List.forall₂_cons_left_iff.mp hrest
  obtain rfl := List.forall₂_nil_left_iff.mp hnone
  have hlast' : last = "A A (ok)" := by
    refine (hok _ "A A".toList last hlast (Text.isTrimOf_iff.mpr (by decide))).mpr
      fun c hc hplain => ?_
    have hall : "A A".toList.all (· ∈ ['A', ' ']) = true := by decide
    obtain rfl | rfl : c = 'A' ∨ c = ' ' := by simpa using List.all_eq_true.mp hall c hc
    · rw [hpick (by decide)]
      exact Option.some_ne_none 0
    · exact absurd hplain (by decide)
  obtain ⟨shown, codes, hshown, hcodes, rfl⟩ := hfirst
  rw [hall, hlast', hcodes.eq hmissing, Text.isTrimOf_iff.mp hshown]
  decide +kernel

end Typecase.Report
