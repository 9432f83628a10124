import Mathlib.Data.List.Forall2
import Mathlib.Data.Nat.Digits.Defs
import Typecase.Proofs.Text.Cutting
import Typecase.Text.Hex

/-!
# Code fields

What a field of a list may look like that stands for a code point, and what it stands for.

* **Grammar** (`IsNumeral`): a base marker or none, a plus sign or none, and one or more digits of
  either case, whose positional value needs no more than thirty-two bits. Reading accepts exactly
  these fields, with this value (`readCodePoint?_eq_some_iff`).
* **Spellings** (`IsSpelling`): the digits that are written for a number, each of them in either
  case, behind any number of zeros and behind a base marker or none. They are all read back
  (`IsSpelling.isNumeral`).
-/

namespace Typecase.Text

variable {field digits text : List Char} {values : List Nat} {c : Char} {d n : Nat}

/-! ### Digits -/

/-- The lower-case digits, in the order of their values. -/
def lowerDigits : List Char := "0123456789abcdef".toList

/-- The upper-case digits, in the order of their values. -/
def upperDigits : List Char := "0123456789ABCDEF".toList

/-- The character is the digit of value `d`, in one case or the other. -/
def IsDigit (c : Char) (d : Nat) : Prop := lowerDigits[d]? = some c ∨ upperDigits[d]? = some c

instance (c : Char) (d : Nat) : Decidable (IsDigit c d) := inferInstanceAs (Decidable (_ ∨ _))

/-- Beyond the letter `f` there are no digits. -/
private theorem toNat_lt_of_digitValue? (h : digitValue? c = some d) : c.toNat < 0x67 := by
  rw [digitValue?] at h
  split at h
  · rename_i hrange
    exact Nat.lt_of_le_of_lt hrange.2 (by decide)
  · split at h
    · rename_i hrange
      exact Nat.lt_of_le_of_lt hrange.2 (by decide)
    · split at h
      · rename_i hrange
        exact Nat.lt_of_le_of_lt hrange.2 (by decide)
      · contradiction

private theorem digitValue?_of_alphabet {alphabet : List Char}
    (h : alphabet.map digitValue? = (List.range 16).map some) (hc : alphabet[d]? = some c) :
    digitValue? c = some d := by
  have hvalue : ((List.range 16).map some)[d]? = some (digitValue? c) := by
    rw [← h, List.getElem?_map, hc, Option.map_some]
  rw [List.getElem?_map] at hvalue
  obtain ⟨e, he, hsome⟩ := Option.map_eq_some_iff.mp hvalue
  obtain ⟨_, rfl⟩ := List.getElem?_eq_some_iff.mp he
  rw [← hsome, List.getElem_range]

theorem digitValue?_eq_some_iff : digitValue? c = some d ↔ IsDigit c d := by
  constructor
  · intro h
    have htable : ∀ m ∈ List.range 0x67,
        (digitValue? (Char.ofNat m)).all fun e => IsDigit (Char.ofNat m) e := by decide
    have hc := htable c.toNat (List.mem_range.mpr (toNat_lt_of_digitValue? h))
    rw [Char.ofNat_toNat, h, Option.all_some, decide_eq_true_eq] at hc
    exact hc
  · rintro (h | h)
    · exact digitValue?_of_alphabet (by decide) h
    · exact digitValue?_of_alphabet (by decide) h

/-! ### Numerals -/

theorem valueBehind?_eq_some_iff {high v : Nat} : valueBehind? high digits = some v ↔
    ∃ values, List.Forall₂ IsDigit digits values ∧
      v = Nat.ofDigits 16 (values.reverse ++ [high]) := by
  induction digits generalizing high with
  | nil =>
    rw [valueBehind?, Option.some_inj]
    constructor
    · rintro rfl
      exact ⟨[], .nil, by simp⟩
    · rintro ⟨values, hvalues, rfl⟩
      obtain rfl := List.forall₂_nil_left_iff.mp hvalues
      simp
  | cons c rest ih =>
    -- the digit in front of the rest is worth sixteen times as much as what stands before it
    have hvalue (d : Nat) (values : List Nat) :
        Nat.ofDigits 16 (values.reverse ++ [16 * high + d]) =
          Nat.ofDigits 16 ((d :: values).reverse ++ [high]) := by
      simp [Nat.ofDigits_append, Nat.ofDigits_cons, Nat.add_comm]
    rw [valueBehind?, Option.bind_eq_some_iff]
    constructor
    · rintro ⟨d, hd, h⟩
      obtain ⟨values, hvalues, rfl⟩ := ih.mp h
      exact ⟨d :: values, .cons (digitValue?_eq_some_iff.mp hd) hvalues, hvalue d values⟩
    · rintro ⟨values, hvalues, rfl⟩
      obtain ⟨d, rest', hd, hrest, rfl⟩ := List.forall₂_cons_left_iff.mp hvalues
      exact ⟨d, digitValue?_eq_some_iff.mpr hd, ih.mpr ⟨rest', hrest, (hvalue d rest').symm⟩⟩

theorem hexValue?_eq_some_iff : hexValue? digits = some n ↔ digits ≠ [] ∧
    ∃ values, List.Forall₂ IsDigit digits values ∧ n = Nat.ofDigits 16 values.reverse := by
  rw [hexValue?]
  split
  · rename_i hempty
    simp [List.isEmpty_iff.mp hempty]
  · rename_i hsome
    rw [valueBehind?_eq_some_iff, and_iff_right (by simpa using hsome)]
    simp [Nat.ofDigits_append]

/-- What may stand in front of the sign. -/
def markers : List (List Char) := [[], ['0', 'x'], ['0', 'X']]

/-- What may stand in front of the digits. -/
def signs : List (List Char) := [[], ['+']]

/-- The field stands for the code point `n`: it has a base marker or none, a plus sign or none, and
one or more digits; their positional value is `n`, which takes thirty-two bits at most. -/
def IsNumeral (field : List Char) (n : Nat) : Prop :=
  ∃ marker ∈ markers, ∃ sign ∈ signs, ∃ (digits : List Char) (values : List Nat),
    field = marker ++ (sign ++ digits) ∧ digits ≠ [] ∧ List.Forall₂ IsDigit digits values ∧
      n = Nat.ofDigits 16 values.reverse ∧ n < 2 ^ 32

theorem exists_marker (field : List Char) :
    ∃ marker ∈ markers, field = marker ++ dropMarker field := by
  rw [dropMarker.eq_def]
  split
  · exact ⟨['0', 'x'], by simp [markers], rfl⟩
  · exact ⟨['0', 'X'], by simp [markers], rfl⟩
  · exact ⟨[], by simp [markers], rfl⟩

theorem exists_sign (text : List Char) : ∃ sign ∈ signs, text = sign ++ dropPlus text := by
  rw [dropPlus.eq_def]
  split
  · exact ⟨['+'], by simp [signs], rfl⟩
  · exact ⟨[], by simp [signs], rfl⟩

theorem dropMarker_append {marker : List Char} (hmarker : marker ∈ markers) (hx : 'x' ∉ text)
    (hX : 'X' ∉ text) : dropMarker (marker ++ text) = text := by
  simp only [markers, List.mem_cons, List.not_mem_nil, or_false] at hmarker
  rcases hmarker with rfl | rfl | rfl
  · rw [List.nil_append, dropMarker.eq_def]
    split
    · exact absurd hx (by simp)
    · exact absurd hX (by simp)
    · rfl
  · rfl
  · rfl

theorem dropPlus_append {sign : List Char} (hsign : sign ∈ signs) (hplus : '+' ∉ text) :
    dropPlus (sign ++ text) = text := by
  simp only [signs, List.mem_cons, List.not_mem_nil, or_false] at hsign
  rcases hsign with rfl | rfl
  · rw [List.nil_append, dropPlus.eq_def]
    split
    · exact absurd hplus (by simp)
    · rfl
  · rfl

theorem exists_of_mem_digits (h : List.Forall₂ IsDigit digits values) (hc : c ∈ digits) :
    ∃ d, IsDigit c d := by
  induction h with
  | nil => contradiction
  | cons hd _ ih =>
    rcases List.mem_cons.mp hc with rfl | hc
    · exact ⟨_, hd⟩
    · exact ih hc

/-- A character that has no value is not among digits. -/
theorem not_mem_digits (h : List.Forall₂ IsDigit digits values) (hc : digitValue? c = none) :
    c ∉ digits := by
  intro hmem
  obtain ⟨d, hd⟩ := exists_of_mem_digits h hmem
  rw [digitValue?_eq_some_iff.mpr hd] at hc
  contradiction

/-- **Reading accepts exactly the code fields.** -/
theorem readCodePoint?_eq_some_iff : readCodePoint? field = some n ↔ IsNumeral field n := by
  rw [readCodePoint?, readHex?, Option.filter_eq_some_iff, hexValue?_eq_some_iff,
    decide_eq_true_eq]
  constructor
  · rintro ⟨⟨hne, values, hvalues, hn⟩, hlt⟩
    obtain ⟨marker, hmarker, hfield⟩ := exists_marker field
    obtain ⟨sign, hsign, htext⟩ := exists_sign (dropMarker field)
    refine ⟨marker, hmarker, sign, hsign, _, values, ?_, hne, hvalues, hn, hlt⟩
    rw [← htext, ← hfield]
  · rintro ⟨marker, hmarker, sign, hsign, digits, values, rfl, hne, hvalues, hn, hlt⟩
    have hsigned {c : Char} (hc : digitValue? c = none) (hplus : c ≠ '+') : c ∉ sign ++ digits := by
      have hsign' : c ∉ sign := by
        simp only [signs, List.mem_cons, List.not_mem_nil, or_false] at hsign
        rcases hsign with rfl | rfl <;> simp [hplus]
      exact fun h => (List.mem_append.mp h).elim hsign' (not_mem_digits hvalues hc)
    rw [dropMarker_append hmarker (hsigned (by decide) (by decide))
      (hsigned (by decide) (by decide)), dropPlus_append hsign (not_mem_digits hvalues (by decide))]
    exact ⟨⟨hne, values, hvalues, hn⟩, hlt⟩

/-- A code field is a field: it has no blank characters. -/
theorem IsNumeral.isField (h : IsNumeral field n) : IsField field := by
  obtain ⟨marker, hmarker, sign, hsign, digits, values, rfl, hne, hvalues, -⟩ := h
  have hplain : (markers.flatten ++ (signs.flatten ++ (lowerDigits ++ upperDigits))).all
      (fun c => !isBlank c) = true := by decide
  simp only [List.all_eq_true, List.mem_append, Bool.not_eq_true'] at hplain
  refine ⟨by simp [hne], fun c hc => ?_⟩
  rcases List.mem_append.mp hc with hc | hc
  · exact hplain c (.inl (List.mem_flatten_of_mem hmarker hc))
  · rcases List.mem_append.mp hc with hc | hc
    · exact hplain c (.inr (.inl (List.mem_flatten_of_mem hsign hc)))
    · obtain ⟨d, hd⟩ := exists_of_mem_digits hvalues hc
      exact hplain c (.inr (.inr (hd.imp List.mem_of_getElem? List.mem_of_getElem?)))

/-! ### Spellings -/

/-- The character is the digit in lower or in upper case. -/
def IsCaseOf (written digit : Char) : Prop := written = digit ∨ written = digit.toUpper

instance (written digit : Char) : Decidable (IsCaseOf written digit) :=
  inferInstanceAs (Decidable (_ ∨ _))

/-- The field spells the number `n`: it has the digits that are written for `n`, each of them in one
case or the other, behind any number of zeros, and behind a base marker or none. -/
def IsSpelling (n : Nat) (field : List Char) : Prop :=
  ∃ marker ∈ markers, ∃ (zeros : Nat) (digits : List Char), field = marker ++ digits ∧
    List.Forall₂ IsCaseOf digits (List.replicate zeros '0' ++ hexDigits n)

/-- What is written for a number spells it. -/
theorem isSpelling_hexDigits (n : Nat) : IsSpelling n (hexDigits n) :=
  ⟨[], by simp [markers], 0, hexDigits n, rfl, List.forall₂_same.mpr fun _ _ => .inl rfl⟩

theorem toList_codePointHex (n : Nat) : (codePointHex n).toList =
    List.replicate (4 - (hexDigits n).length) '0' ++ (hexDigits n).map Char.toUpper := by
  rw [codePointHex, String.toList_ofList, List.leftpad, List.length_map]

/-- So does what is written in upper case, with zeros in front of it. -/
theorem isSpelling_codePointHex (n : Nat) : IsSpelling n (codePointHex n).toList := by
  refine ⟨[], by simp [markers], 4 - (hexDigits n).length, (codePointHex n).toList, rfl, ?_⟩
  rw [toList_codePointHex]
  refine List.rel_append (List.forall₂_same.mpr fun _ _ => .inl rfl) ?_
  rw [List.forall₂_map_left_iff]
  exact List.forall₂_same.mpr fun _ _ => .inr rfl

theorem exists_of_mem_hexDigits (h : c ∈ hexDigits n) : ∃ d, d < 16 ∧ c = digitChar d := by
  fun_induction hexDigits n with
  | case1 n hn => exact ⟨n, hn, List.mem_singleton.mp h⟩
  | case2 n hn ih =>
    rcases List.mem_append.mp h with h | h
    · exact ih h
    · exact ⟨n % 16, Nat.mod_lt n (by decide), List.mem_singleton.mp h⟩

private theorem digitValue?_toUpper (hd : d < 16) :
    digitValue? (digitChar d).toUpper = digitValue? (digitChar d) := by
  have htable : ∀ e ∈ List.range 16,
      digitValue? (digitChar e).toUpper = digitValue? (digitChar e) := by decide
  exact htable d (List.mem_range.mpr hd)

/-- The case of a digit does not change the value. -/
private theorem valueBehind?_of_isCaseOf {written : List Char} {high : Nat}
    (h : List.Forall₂ IsCaseOf written digits)
    (hdigits : ∀ c ∈ digits, ∃ d, d < 16 ∧ c = digitChar d) :
    valueBehind? high written = valueBehind? high digits := by
  induction h generalizing high with
  | nil => rfl
  | @cons a b _ _ hab _ ih =>
    obtain ⟨⟨d, hd, rfl⟩, hrest⟩ := List.forall_mem_cons.mp hdigits
    have hvalue : digitValue? a = digitValue? (digitChar d) := by
      rcases hab with rfl | rfl
      · rfl
      · exact digitValue?_toUpper hd
    rw [valueBehind?, valueBehind?, hvalue]
    exact congrArg _ (funext fun e => ih hrest)

private theorem valueBehind?_zeros (zeros : Nat) (digits : List Char) :
    valueBehind? 0 (List.replicate zeros '0' ++ digits) = valueBehind? 0 digits := by
  induction zeros with
  | zero => rfl
  | succ zeros ih =>
    have hzero : digitValue? '0' = some 0 := by decide
    rw [List.replicate_succ, List.cons_append, valueBehind?, hzero, Option.bind_some, ih]

/-- **A spelling is read as the number that it spells.** -/
theorem IsSpelling.isNumeral (h : IsSpelling n field) (hn : n < 2 ^ 32) : IsNumeral field n := by
  obtain ⟨marker, hmarker, zeros, digits, rfl, hdigits⟩ := h
  have hchars : ∀ c ∈ List.replicate zeros '0' ++ hexDigits n, ∃ d, d < 16 ∧ c = digitChar d := by
    intro c hc
    rcases List.mem_append.mp hc with hc | hc
    · exact ⟨0, by decide, List.eq_of_mem_replicate hc⟩
    · exact exists_of_mem_hexDigits hc
  have hvalue : valueBehind? 0 digits = some n := by
    rw [valueBehind?_of_isCaseOf hdigits hchars, valueBehind?_zeros, valueBehind?_hexDigits]
  obtain ⟨values, hvalues, hsum⟩ := valueBehind?_eq_some_iff.mp hvalue
  have hne : digits ≠ [] := by
    rintro rfl
    simpa [hexDigits_ne_nil] using List.forall₂_nil_left_iff.mp hdigits
  refine ⟨marker, hmarker, [], by simp [signs], digits, values, rfl, hne, hvalues, ?_, hn⟩
  simpa [Nat.ofDigits_append] using hsum

example : IsSpelling 0xFF "0X00fF".toList :=
  ⟨['0', 'X'], by decide, 2, "00fF".toList, rfl, by decide +kernel⟩

end Typecase.Text
