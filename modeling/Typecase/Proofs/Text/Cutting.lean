import Typecase.Text.Fields

/-!
# Grammars of lines and fields

A text is cut into lines, and a line into fields, by passing over it once and collecting the current
piece in reverse. Here stand the grammars of both, without the order in which the characters are
passed over.

* **Lines** (`HasLines`). A line has no line feed in it and ends with one, behind a carriage return
  or not. What is left at the end of the text is a line as well, unless nothing is left.
* **Fields** (`HasFields`). A field is a run of characters that are not blank, and a blank character
  or the end of the line follows it.

Each grammar allows exactly one reading, and cutting finds it (`hasLines_iff`, `hasFields_iff`).
`rows` are the fields of the lines that have any; they do not depend on the kind of line ends.
-/

namespace Typecase.Text

variable {line field rest text : List Char} {ls fs : List (List Char)} {c : Char}

/-! ### Lines -/

/-- The text has these lines. -/
inductive HasLines : List Char → List (List Char) → Prop
  | nil : HasLines [] []
  | last {line : List Char} (hfree : '\n' ∉ line) (hne : line ≠ []) : HasLines line [line]
  | feed {line rest : List Char} {ls : List (List Char)} (hfree : '\n' ∉ line)
      (hplain : line.getLast? ≠ some '\r') (hrest : HasLines rest ls) :
      HasLines (line ++ '\n' :: rest) (line :: ls)
  | returnFeed {line rest : List Char} {ls : List (List Char)} (hfree : '\n' ∉ line)
      (hrest : HasLines rest ls) : HasLines (line ++ '\r' :: '\n' :: rest) (line :: ls)

/-- Characters that are no line feeds are added to the current line. -/
theorem linesFrom_append (hfree : '\n' ∉ line) (current rest : List Char) :
    linesFrom current (line ++ rest) = linesFrom (line.reverse ++ current) rest := by
  induction line generalizing current with
  | nil => rfl
  | cons c line ih =>
    obtain ⟨hc, hline⟩ := not_or.mp (mt List.mem_cons.mpr hfree)
    rw [List.cons_append, linesFrom, if_neg (Ne.symm hc), ih hline, List.reverse_cons,
      List.append_assoc, List.singleton_append]

theorem lines_feed (hfree : '\n' ∉ line) (rest : List Char) :
    lines (line ++ '\n' :: rest) = dropReturn line :: lines rest := by
  rw [lines, linesFrom_append hfree, linesFrom, if_pos rfl, List.append_nil, List.reverse_reverse,
    lines]

theorem lines_last (hfree : '\n' ∉ line) (hne : line ≠ []) : lines line = [line] := by
  have h := linesFrom_append hfree [] []
  rw [List.append_nil, List.append_nil] at h
  rw [lines, h, linesFrom, if_neg (by simpa using hne), List.reverse_reverse]

theorem dropReturn_of_ne (h : line.getLast? ≠ some '\r') : dropReturn line = line := if_neg h

theorem dropReturn_concat (line : List Char) : dropReturn (line ++ ['\r']) = line := by
  rw [dropReturn, if_pos List.getLast?_concat, List.dropLast_concat]

theorem lines_returnFeed (hfree : '\n' ∉ line) (rest : List Char) :
    lines (line ++ '\r' :: '\n' :: rest) = line :: lines rest := by
  have hfree' : '\n' ∉ line ++ ['\r'] := by simpa using hfree
  rw [List.append_cons, lines_feed hfree', dropReturn_concat]

theorem HasLines.lines_eq (h : HasLines text ls) : lines text = ls := by
  induction h with
  | nil => rfl
  | last hfree hne => exact lines_last hfree hne
  | feed hfree hplain _ ih => rw [lines_feed hfree, dropReturn_of_ne hplain, ih]
  | returnFeed hfree _ ih => rw [lines_returnFeed hfree, ih]

/-- The line that a line feed ends is the current line, without a carriage return at its end. -/
private theorem hasLines_feed (hfree : '\n' ∉ line) (hrest : HasLines rest ls) :
    HasLines (line ++ '\n' :: rest) (dropReturn line :: ls) := by
  by_cases hreturn : line.getLast? = some '\r'
  · obtain ⟨front, rfl⟩ := List.getLast?_eq_some_iff.mp hreturn
    have hfront : '\n' ∉ front := fun h => hfree (List.mem_append_left _ h)
    rw [dropReturn_concat, List.append_assoc, List.singleton_append]
    exact .returnFeed hfront hrest
  · rw [dropReturn_of_ne hreturn]
    exact .feed hfree hreturn hrest

/-- No line has a line feed in it. -/
theorem HasLines.newline_not_mem (h : HasLines text ls) (hmem : line ∈ ls) : '\n' ∉ line := by
  induction h with
  | nil => contradiction
  | last hfree _ => exact List.mem_singleton.mp hmem ▸ hfree
  | feed hfree _ _ ih => exact (List.mem_cons.mp hmem).elim (fun h => h ▸ hfree) ih
  | returnFeed hfree _ ih => exact (List.mem_cons.mp hmem).elim (fun h => h ▸ hfree) ih

private theorem hasLines_linesFrom {current : List Char} (hfree : '\n' ∉ current)
    (text : List Char) : HasLines (current.reverse ++ text) (linesFrom current text) := by
  induction text generalizing current with
  | nil =>
    rw [linesFrom, List.append_nil]
    split
    · rename_i hempty
      rw [List.isEmpty_iff.mp hempty]
      exact .nil
    · rename_i hsome
      exact .last (by simpa using hfree) (by simpa using hsome)
  | cons c rest ih =>
    rw [linesFrom]
    split
    · rename_i hc
      rw [hc]
      exact hasLines_feed (by simpa using hfree) (ih List.not_mem_nil)
    · rename_i hc
      have hfree' : '\n' ∉ c :: current := by
        rw [List.mem_cons, not_or]
        exact ⟨Ne.symm hc, hfree⟩
      have hnext := ih hfree'
      rwa [List.reverse_cons, List.append_assoc, List.singleton_append] at hnext

/-- **Every text has exactly one division into lines**, and cutting finds it. -/
theorem hasLines_iff : HasLines text ls ↔ ls = lines text := by
  constructor
  · exact fun h => h.lines_eq.symm
  · rintro rfl
    exact hasLines_linesFrom List.not_mem_nil text

/-! ### Fields -/

/-- A field has at least one character, and no blank ones. -/
structure IsField (field : List Char) : Prop where
  ne_nil : field ≠ []
  plain : ∀ c ∈ field, isBlank c = false

instance (field : List Char) : Decidable (IsField field) :=
  decidable_of_iff (field ≠ [] ∧ field.all (fun c => !isBlank c) = true)
    ⟨fun h => ⟨h.1, by simpa using h.2⟩, fun h => ⟨h.ne_nil, by simpa using h.plain⟩⟩

/-- The line has these fields. -/
inductive HasFields : List Char → List (List Char) → Prop
  | nil : HasFields [] []
  | blank {c : Char} {rest : List Char} {fs : List (List Char)} (hc : isBlank c = true)
      (hrest : HasFields rest fs) : HasFields (c :: rest) fs
  | field {field rest : List Char} {fs : List (List Char)} (hfield : IsField field)
      (hend : ∀ c ∈ rest.head?, isBlank c = true) (hrest : HasFields rest fs) :
      HasFields (field ++ rest) (field :: fs)

/-- Characters that are not blank are added to the current field. -/
theorem fieldsFrom_append (hplain : ∀ c ∈ field, isBlank c = false) (current rest : List Char) :
    fieldsFrom current (field ++ rest) = fieldsFrom (field.reverse ++ current) rest := by
  induction field generalizing current with
  | nil => rfl
  | cons c field ih =>
    obtain ⟨hc, hfield⟩ := List.forall_mem_cons.mp hplain
    rw [List.cons_append, fieldsFrom, if_neg (Bool.eq_false_iff.mp hc), ih hfield,
      List.reverse_cons, List.append_assoc, List.singleton_append]

theorem fields_cons_of_isBlank (hc : isBlank c = true) (rest : List Char) :
    fields (c :: rest) = fields rest := by
  rw [fields, fieldsFrom, if_pos hc, if_pos List.isEmpty_nil, fields]

theorem fields_append (hfield : IsField field) (hend : ∀ c ∈ rest.head?, isBlank c = true) :
    fields (field ++ rest) = field :: fields rest := by
  have hne : ¬(field.reverse ++ []).isEmpty = true := by simpa using hfield.ne_nil
  rw [fields, fieldsFrom_append hfield.plain]
  cases rest with
  | nil => rw [fieldsFrom, if_neg hne, List.append_nil, List.reverse_reverse, fields_nil]
  | cons c rest =>
    have hc : isBlank c = true := hend c rfl
    rw [fieldsFrom, if_pos hc, if_neg hne, List.append_nil, List.reverse_reverse,
      fields_cons_of_isBlank hc, fields]

theorem HasFields.fields_eq (h : HasFields line fs) : fields line = fs := by
  induction h with
  | nil => rfl
  | blank hc _ ih => rw [fields_cons_of_isBlank hc, ih]
  | field hfield hend _ ih => rw [fields_append hfield hend, ih]

private theorem isField_reverse {current : List Char}
    (hplain : ∀ c ∈ current, isBlank c = false) (hsome : ¬current.isEmpty = true) :
    IsField current.reverse :=
  ⟨by simpa using hsome, fun c hc => hplain c (List.mem_reverse.mp hc)⟩

private theorem hasFields_fieldsFrom {current : List Char}
    (hplain : ∀ c ∈ current, isBlank c = false) (text : List Char) :
    HasFields (current.reverse ++ text) (fieldsFrom current text) := by
  induction text generalizing current with
  | nil =>
    rw [fieldsFrom]
    split
    · rename_i hempty
      rw [List.isEmpty_iff.mp hempty]
      exact .nil
    · rename_i hsome
      exact .field (isField_reverse hplain hsome) (by simp) .nil
  | cons c rest ih =>
    have hnil : ∀ b ∈ ([] : List Char), isBlank b = false := by simp
    rw [fieldsFrom]
    split
    · rename_i hc
      have hrest : HasFields (c :: rest) (fieldsFrom [] rest) := .blank hc (ih hnil)
      split
      · rename_i hempty
        rw [List.isEmpty_iff.mp hempty]
        exact hrest
      · rename_i hsome
        refine .field (isField_reverse hplain hsome) (fun b hb => ?_) hrest
        obtain rfl := Option.some.inj hb
        exact hc
    · rename_i hc
      have hnext := ih (List.forall_mem_cons.mpr ⟨Bool.eq_false_iff.mpr hc, hplain⟩)
      rwa [List.reverse_cons, List.append_assoc, List.singleton_append] at hnext

/-- **Every line has exactly one division into fields**, and cutting finds it. -/
theorem hasFields_iff : HasFields line fs ↔ fs = fields line := by
  constructor
  · exact fun h => h.fields_eq.symm
  · rintro rfl
    have hnil : ∀ c ∈ ([] : List Char), isBlank c = false := by simp
    exact hasFields_fieldsFrom hnil line

/-- Blank characters behind a line do not change its fields. -/
theorem HasFields.concat_blank (h : HasFields line fs) (hc : isBlank c = true) :
    HasFields (line ++ [c]) fs := by
  induction h with
  | nil => exact .blank hc .nil
  | blank hb _ ih => exact .blank hb ih
  | @field field rest fs hfield hend _ ih =>
    rw [List.append_assoc]
    refine .field hfield (fun b hb => ?_) ih
    cases rest with
    | nil =>
      obtain rfl := Option.some.inj hb
      exact hc
    | cons a rest => exact hend b hb

/-- Fields with blanks between them are the fields of the line that they make. -/
theorem hasFields_intercalate (h : ∀ field ∈ fs, IsField field) :
    HasFields ([' '].intercalate fs) fs := by
  induction fs with
  | nil => exact .nil
  | cons field fs ih =>
    obtain ⟨hfield, hfs⟩ := List.forall_mem_cons.mp h
    cases fs with
    | nil =>
      have hlast : HasFields (field ++ []) [field] := .field hfield (by simp) .nil
      rw [List.append_nil] at hlast
      rw [List.intercalate_singleton]
      exact hlast
    | cons next fs =>
      rw [List.intercalate_cons_cons, List.append_assoc]
      refine .field hfield (fun c hc => ?_) (.blank (by decide) (ih hfs))
      obtain rfl := Option.some.inj hc
      decide

/-- A carriage return in front of the line feed belongs to no field. -/
theorem fields_dropReturn (line : List Char) : fields (dropReturn line) = fields line := by
  by_cases hreturn : line.getLast? = some '\r'
  · obtain ⟨front, rfl⟩ := List.getLast?_eq_some_iff.mp hreturn
    rw [dropReturn_concat]
    exact hasFields_iff.mp ((hasFields_iff.mpr rfl).concat_blank (by decide))
  · rw [dropReturn_of_ne hreturn]

/-! ### Rows -/

/-- The fields of the lines that have any, line by line. -/
def rows (lines : List (List Char)) : List (List (List Char)) :=
  (lines.map fields).filter (· ≠ [])

@[simp] theorem rows_nil : rows [] = [] := rfl

theorem rows_cons_of_eq_nil (h : fields line = []) (ls : List (List Char)) :
    rows (line :: ls) = rows ls := by
  rw [rows, List.map_cons, List.filter_cons_of_neg (by simpa using h), rows]

theorem rows_cons_of_ne_nil (h : fields line ≠ []) (ls : List (List Char)) :
    rows (line :: ls) = fields line :: rows ls := by
  rw [rows, List.map_cons, List.filter_cons_of_pos (by simpa using h), rows]

end Typecase.Text
