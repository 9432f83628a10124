/-!
# UTF-8

Texts are kept as UTF-8 bytes in files and in font names. `scan` reads a byte string piece by
piece: a well-formed sequence gives its character, and a maximal run of bytes that begins a
sequence but does not complete one gives `none`. Both ways of reading a text follow from it:
`decode?` refuses a text with a malformed piece, `decodeLossy` puts the replacement character
U+FFFD in its place.
-/

namespace Typecase.Text

/-- What a leading byte announces: its share of the code point, the number of bytes to follow
and the range in which the first of them must lie. -/
structure Lead where
  share : Nat
  more : Nat
  low : Nat
  high : Nat
  deriving DecidableEq, Repr

/-- Reads a leading byte. The ranges leave out overlong forms, surrogates and code points past
the end of Unicode. -/
def lead? (b : Nat) : Option Lead :=
  if b < 0x80 then some ⟨b, 0, 0, 0⟩
  else if b < 0xC2 then none
  else if b < 0xE0 then some ⟨b - 0xC0, 1, 0x80, 0xBF⟩
  else if b = 0xE0 then some ⟨0, 2, 0xA0, 0xBF⟩
  else if b = 0xED then some ⟨0xD, 2, 0x80, 0x9F⟩
  else if b < 0xF0 then some ⟨b - 0xE0, 2, 0x80, 0xBF⟩
  else if b = 0xF0 then some ⟨0, 3, 0x90, 0xBF⟩
  else if b < 0xF4 then some ⟨b - 0xF0, 3, 0x80, 0xBF⟩
  else if b = 0xF4 then some ⟨4, 3, 0x80, 0x8F⟩
  else none

/-- Reads the bytes that follow a leading byte, with `share` the code point read so far; stops
before the first byte out of range. Gives the code point, if complete, and the bytes left. -/
def follow (share low high : Nat) : Nat → List UInt8 → Option Nat × List UInt8
  | 0, rest => (some share, rest)
  | _ + 1, [] => (none, [])
  | more + 1, b :: rest =>
    if low ≤ b.toNat ∧ b.toNat ≤ high then
      follow (64 * share + (b.toNat - 0x80)) 0x80 0xBF more rest
    else (none, b :: rest)

theorem length_follow_le (share low high more : Nat) (bytes : List UInt8) :
    (follow share low high more bytes).2.length ≤ bytes.length := by
  induction bytes generalizing share low high more with
  | nil => cases more <;> simp [follow]
  | cons b rest ih =>
    cases more with
    | zero => simp [follow]
    | succ more =>
      rw [follow]
      split
      · exact Nat.le_trans (ih _ _ _ _) (by simp)
      · simp

/-- Reads a byte string piece by piece; a malformed piece reads as `none`. -/
def scan : List UInt8 → List (Option Char)
  | [] => []
  | b :: rest =>
    match lead? b.toNat with
    | none => none :: scan rest
    | some l =>
      have := length_follow_le l.share l.low l.high l.more rest
      (follow l.share l.low l.high l.more rest).1.map Char.ofNat ::
        scan (follow l.share l.low l.high l.more rest).2
termination_by bytes => bytes.length

/-- The characters of a well-formed text. -/
def decode? (bytes : List UInt8) : Option (List Char) := (scan bytes).mapM id

/-- The characters of a text, malformed pieces replaced by U+FFFD. -/
def decodeLossy (bytes : List UInt8) : List Char := (scan bytes).map (·.getD '\uFFFD')

/-- The bytes of a text. -/
def encode (text : List Char) : List UInt8 := text.flatMap String.utf8EncodeChar

example : decode? (encode "aé中😀".toList) = some "aé中😀".toList := by cbv
example : decodeLossy [0x61, 0xE4, 0xB8, 0xFF, 0x62] = "a\uFFFD\uFFFDb".toList := by cbv
example : decode? [0xED, 0xA0, 0x80] = none := by cbv

end Typecase.Text
