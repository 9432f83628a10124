import Typecase.Text.Escaped
import Typecase.Text.Hex

/-!
# Quoted text

A text between double quotes, as it appears in the description of a value. The quote and the
backslash are preceded by a backslash, four control characters have a letter of their own, and
every other character without a picture is written as its code point in braces.
-/

namespace Typecase.Text

/-- The code point of a character in braces, behind the letter for it. -/
def escapeCode (c : Char) : List Char :=
  ['\\', 'u', '\x7b'] ++ hexDigits c.toNat ++ ['\x7d']

/-- The quoted form of one character. -/
def quoteChar (c : Char) : List Char :=
  if c = '"' ∨ c = '\\' then ['\\', c]
  else if c = '\n' then ['\\', 'n']
  else if c = '\r' then ['\\', 'r']
  else if c = '\t' then ['\\', 't']
  else if c = '\x00' then ['\\', '0']
  else if isEscaped c then escapeCode c
  else [c]

/-- A text between double quotes. -/
def quote (text : String) : String :=
  String.ofList ('"' :: text.toList.flatMap quoteChar ++ ['"'])

example : quote "a\"b\\\t\x01'" = "\"a\\\"b\\\\\\t\\u\x7b1\x7d'\"" := by decide +kernel

end Typecase.Text
