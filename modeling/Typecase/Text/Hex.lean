/-!
# Hexadecimal numerals

Code points are read and written in base sixteen. Reading accepts either case, any number of
leading zeros and one leading plus sign, and refuses a value that needs more than thirty-two
bits (`readHex?`); a code point field may also carry the marker `0x` or `0X`
(`readCodePoint?`). Writing is in lower or upper case, padded with zeros to a least width.

Reading undoes writing: the digits that `hexDigits` writes have the value that was written
(`hexValue?_hexDigits`).
-/

namespace Typecase.Text

/-- The value of one hexadecimal digit of either case. -/
def digitValue? (c : Char) : Option Nat :=
  if '0' ≤ c ∧ c ≤ '9' then some (c.toNat - 0x30)
  else if 'a' ≤ c ∧ c ≤ 'f' then some (c.toNat - 0x61 + 10)
  else if 'A' ≤ c ∧ c ≤ 'F' then some (c.toNat - 0x41 + 10)
  else none

/-- The value of a run of digits behind digits of value `high`, or nothing if one of the
characters is not a digit. -/
def valueBehind? (high : Nat) : List Char → Option Nat
  | [] => some high
  | c :: rest => (digitValue? c).bind fun d => valueBehind? (16 * high + d) rest

/-- The value of a non-empty run of hexadecimal digits. -/
def hexValue? (digits : List Char) : Option Nat :=
  if digits.isEmpty then none else valueBehind? 0 digits

/-- `text` without one leading plus sign. -/
def dropPlus : List Char → List Char
  | '+' :: rest => rest
  | text => text

/-- Reads an unsigned thirty-two bit numeral: an optional plus sign and one or more digits. -/
def readHex? (text : List Char) : Option Nat :=
  (hexValue? (dropPlus text)).filter (· < 0x100000000)

/-- `text` without one leading marker `0x` or `0X`. -/
def dropMarker : List Char → List Char
  | '0' :: 'x' :: rest => rest
  | '0' :: 'X' :: rest => rest
  | text => text

/-- Reads the code point of a list entry: a numeral with an optional base marker. -/
def readCodePoint? (field : List Char) : Option Nat := readHex? (dropMarker field)

/-- The lower-case digit of a value below sixteen. -/
def digitChar (d : Nat) : Char :=
  Char.ofNat (if d < 10 then 0x30 + d else 0x61 + (d - 10))

/-- The lower-case digits of `n`, without leading zeros; zero is the single digit `0`. -/
def hexDigits (n : Nat) : List Char :=
  if n < 16 then [digitChar n] else hexDigits (n / 16) ++ [digitChar (n % 16)]

/-- `n` in lower case behind the marker `0x`. -/
def markedHex (n : Nat) : String := "0x" ++ String.ofList (hexDigits n)

/-- `n` in upper case, padded with zeros to at least four digits. -/
def codePointHex (n : Nat) : String :=
  String.ofList ((hexDigits n).map Char.toUpper |>.leftpad 4 '0')

example : readCodePoint? "0X+00fF".toList = some 255 := by decide
example : readCodePoint? "0x".toList = none := by decide
example : readCodePoint? "0x0x1".toList = none := by decide
example : readCodePoint? "100000000".toList = none := by decide

/-! ### Reading undoes writing -/

theorem digitValue?_digitChar {d : Nat} (h : d < 16) : digitValue? (digitChar d) = some d := by
  have : d ∈ List.range 16 := List.mem_range.2 h
  revert this d
  decide

theorem valueBehind?_append (high : Nat) (a b : List Char) :
    valueBehind? high (a ++ b) = (valueBehind? high a).bind fun v => valueBehind? v b := by
  induction a generalizing high with
  | nil => rfl
  | cons c rest ih => cases h : digitValue? c <;> simp [valueBehind?, h, ih]

theorem valueBehind?_hexDigits (n : Nat) : valueBehind? 0 (hexDigits n) = some n := by
  fun_induction hexDigits n with
  | case1 n h => simp [valueBehind?, digitValue?_digitChar h]
  | case2 n h ih =>
    have hmod : n % 16 < 16 := Nat.mod_lt _ (by decide)
    simp only [valueBehind?_append, ih, Option.bind_some, valueBehind?,
      digitValue?_digitChar hmod]
    congr 1
    omega

theorem hexDigits_ne_nil (n : Nat) : hexDigits n ≠ [] := by
  fun_induction hexDigits n <;> simp

theorem hexValue?_hexDigits (n : Nat) : hexValue? (hexDigits n) = some n := by
  simp [hexValue?, hexDigits_ne_nil, valueBehind?_hexDigits]

end Typecase.Text
