import Typecase.Text.Blank

/-!
# Lines and fields

How a text list is cut up before it is read.

* `lines` cuts a text after every line feed. The feed is dropped, and so is one carriage
  return directly before it; a carriage return at the end of a last line without a feed stays.
  A text that ends in a feed has no empty line after it.
* `fields` gives the maximal runs of characters that are not blank.
* `trim` drops the blank characters at both ends.

All three work on lists of characters, so that they can be reasoned about by induction.
-/

namespace Typecase.Text

/-- Drops one trailing carriage return. -/
def dropReturn (line : List Char) : List Char :=
  if line.getLast? = some '\r' then line.dropLast else line

/-- Cuts `text` into lines, with `line` the part of the current line read so far, reversed. -/
def linesFrom (line : List Char) : List Char → List (List Char)
  | [] => if line.isEmpty then [] else [line.reverse]
  | c :: rest =>
    if c = '\n' then dropReturn line.reverse :: linesFrom [] rest
    else linesFrom (c :: line) rest

/-- The lines of a text, without their line ends. -/
def lines (text : List Char) : List (List Char) := linesFrom [] text

/-- Cuts `text` into fields, with `field` the part of the current field read so far,
reversed. -/
def fieldsFrom (field : List Char) : List Char → List (List Char)
  | [] => if field.isEmpty then [] else [field.reverse]
  | c :: rest =>
    if isBlank c then
      if field.isEmpty then fieldsFrom [] rest else field.reverse :: fieldsFrom [] rest
    else fieldsFrom (c :: field) rest

/-- The maximal runs of characters of `text` that are not blank. -/
def fields (text : List Char) : List (List Char) := fieldsFrom [] text

/-- `text` without the blank characters at both ends. -/
def trim (text : List Char) : List Char :=
  ((text.dropWhile isBlank).reverse.dropWhile isBlank).reverse

example : lines "a\r\n\nb\r".toList = ["a".toList, [], "b\r".toList] := by decide
example : lines "a\n".toList = ["a".toList] := by decide
example : fields " a\tbc  d ".toList = ["a".toList, "bc".toList, "d".toList] := by decide

@[simp] theorem lines_nil : lines [] = [] := rfl

@[simp] theorem fields_nil : fields [] = [] := rfl

end Typecase.Text
