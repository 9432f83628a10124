import Mathlib.Data.List.DropRight
import Typecase.Text.Fields

/-!
# Trimmed lines

A trimmed line is what is left of a line without the blank characters at both ends (`IsTrimOf`).
There is exactly one such text for each line, and `trim` finds it (`isTrimOf_iff`). Characters that
are not blank are all kept (`IsTrimOf.mem_iff`), so that nothing is left of a line just if all of it
is blank (`trim_eq_nil_iff`).
-/

namespace Typecase.Text

variable {line text front : List Char} {c : Char}

/-- The text is the line without blank characters at its ends: some that are blank stand before and
behind it, and it neither begins nor ends with another one. -/
structure IsTrimOf (line text : List Char) : Prop where
  ends : ∃ front back, line = front ++ (text ++ back) ∧ (∀ c ∈ front, isBlank c = true) ∧
    ∀ c ∈ back, isBlank c = true
  head : ∀ c ∈ text.head?, isBlank c = false
  last : ∀ c ∈ text.getLast?, isBlank c = false

theorem head_dropWhile (p : Char → Bool) (text : List Char) :
    ∀ c ∈ (text.dropWhile p).head?, p c = false := by
  intro c hc
  have hhead := List.head?_dropWhile_not p text
  rwa [Option.mem_def.mp hc] at hhead

theorem isTrimOf_trim (line : List Char) : IsTrimOf line (trim line) := by
  have htrim : trim line = (line.dropWhile isBlank).rdropWhile isBlank := rfl
  rw [htrim]
  generalize hmiddle : line.dropWhile isBlank = middle
  refine ⟨⟨line.takeWhile isBlank, middle.rtakeWhile isBlank, ?_, fun c => List.mem_takeWhile_imp,
    fun c => List.mem_rtakeWhile_imp⟩, fun c hc => ?_, fun c hc => ?_⟩
  · rw [List.rdropWhile_append_rtakeWhile, ← hmiddle, List.takeWhile_append_dropWhile]
  · -- what is left begins as it did before its end was cut
    obtain ⟨cut, hcut⟩ := List.rdropWhile_prefix isBlank middle
    have hhead : middle.head? = some c := by
      rw [← hcut, List.head?_append, Option.mem_def.mp hc, Option.some_or]
    exact head_dropWhile isBlank line c (hmiddle ▸ hhead)
  · rw [List.rdropWhile, List.getLast?_reverse] at hc
    exact head_dropWhile isBlank middle.reverse c hc

/-- Blank characters in front of a text that does not begin with one are dropped, and no others. -/
theorem dropWhile_append_of_head (hfront : ∀ c ∈ front, isBlank c = true)
    (hhead : ∀ c ∈ text.head?, isBlank c = false) : (front ++ text).dropWhile isBlank = text := by
  rw [List.dropWhile_append_of_pos hfront]
  cases text with
  | nil => rfl
  | cons c rest => exact List.dropWhile_cons_of_neg (by simp [hhead c rfl])

theorem IsTrimOf.trim_eq (h : IsTrimOf line text) : trim line = text := by
  obtain ⟨⟨front, back, rfl, hfront, hback⟩, hhead, hlast⟩ := h
  cases text with
  | nil =>
    have hall : (front ++ back).dropWhile isBlank = [] :=
      List.dropWhile_eq_nil_iff.mpr fun c hc => (List.mem_append.mp hc).elim (hfront c) (hback c)
    rw [trim, List.nil_append, hall]
    rfl
  | cons c rest =>
    have hhead' : ∀ d ∈ (c :: rest ++ back).head?, isBlank d = false := hhead
    have hback' : ∀ d ∈ back.reverse, isBlank d = true := fun d hd =>
      hback d (List.mem_reverse.mp hd)
    have hlast' : ∀ d ∈ (c :: rest).reverse.head?, isBlank d = false := by
      rwa [List.head?_reverse]
    rw [trim, dropWhile_append_of_head hfront hhead', List.reverse_append,
      dropWhile_append_of_head hback' hlast', List.reverse_reverse]

/-- **Every line has exactly one trimmed line**, and trimming finds it. -/
theorem isTrimOf_iff : IsTrimOf line text ↔ text = trim line := by
  constructor
  · exact fun h => h.trim_eq.symm
  · rintro rfl
    exact isTrimOf_trim line

/-- Trimming keeps every character that is not blank. -/
theorem IsTrimOf.mem_iff (h : IsTrimOf line text) (hc : isBlank c = false) :
    c ∈ text ↔ c ∈ line := by
  obtain ⟨⟨front, back, rfl, hfront, hback⟩, -, -⟩ := h
  have hfront' : c ∉ front := fun hmem => by simp [hfront c hmem] at hc
  have hback' : c ∉ back := fun hmem => by simp [hback c hmem] at hc
  simp only [List.mem_append, hfront', hback', false_or, or_false]

theorem trim_eq_nil_iff : trim line = [] ↔ ∀ c ∈ line, isBlank c = true := by
  constructor
  · intro hnil c hc
    refine Bool.of_not_eq_false fun hplain => ?_
    have hkept := ((isTrimOf_trim line).mem_iff hplain).mpr hc
    rw [hnil] at hkept
    contradiction
  · intro hall
    refine (isTrimOf_iff.mp ⟨⟨line, [], by simp, hall, by simp⟩, by simp, by simp⟩).symm

end Typecase.Text
