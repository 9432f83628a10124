import Typecase.Text.Fields

/-!
# Text lists read up to the first flaw

A list file holds one entry per line; blank lines are skipped. Reading is best effort: the
entries before the first malformed line are kept, and the `Listing` reports that line by its
one-based number and its `Flaw`.

`Listing.read` is generic in the entry type. It is given the reader of one line, which sees
the fields of the line and the entry read before it. Main statements: `Listing.read_nil`,
`Listing.read_cons_blank`, `Listing.read_cons_entry` and `Listing.read_cons_flaw` say what one
more line does.
-/

namespace Typecase

/-- What is wrong with a line of a list. -/
inductive Flaw where
  /-- The line has fewer fields than an entry needs. -/
  | missingField
  /-- A code point field is not a hexadecimal numeral. -/
  | invalidHex
  /-- The block ends before it starts. -/
  | invertedRange
  /-- The block reaches past the last code point. -/
  | outOfRange
  /-- The block starts at or before the end of the block listed before it. -/
  | unordered
  deriving DecidableEq, Repr

/-- The wording of a flaw. -/
def Flaw.message : Flaw → String
  | .missingField => "missing field"
  | .invalidHex => "code point is not hexadecimal"
  | .invertedRange => "block ends before it starts"
  | .outOfRange => "block ends past U+10FFFF"
  | .unordered => "block overlaps or precedes the previous block"

/-- A malformed line: its one-based number, blank lines counted, and its flaw. -/
structure ListError where
  line : Nat
  flaw : Flaw
  deriving DecidableEq, Repr

/-- The wording of a malformed line. -/
def ListError.message (e : ListError) : String :=
  "line " ++ toString e.line ++ ": " ++ e.flaw.message

/-- What was read from a list: the entries before the first malformed line, and that line. -/
structure Listing (α : Type) where
  entries : List α
  error : Option ListError
  deriving DecidableEq, Repr

namespace Listing

variable {α : Type}

/-- One more entry in front of a listing. -/
def cons (a : α) (l : Listing α) : Listing α := { l with entries := a :: l.entries }

@[simp] theorem entries_cons (a : α) (l : Listing α) : (cons a l).entries = a :: l.entries := rfl

@[simp] theorem error_cons (a : α) (l : Listing α) : (cons a l).error = l.error := rfl

/-- Reads the lines from number `n` on, with `previous` the entry read last. The reader of one
line gets its fields, of which there is at least one. -/
def read (reader : Option α → List (List Char) → Except Flaw α) (n : Nat)
    (previous : Option α) : List (List Char) → Listing α
  | [] => ⟨[], none⟩
  | line :: rest =>
    match Text.fields line with
    | [] => read reader (n + 1) previous rest
    | field :: more =>
      match reader previous (field :: more) with
      | .ok a => cons a (read reader (n + 1) (some a) rest)
      | .error flaw => ⟨[], some ⟨n, flaw⟩⟩

/-- Reads a whole text. -/
def ofText (reader : Option α → List (List Char) → Except Flaw α) (text : String) : Listing α :=
  read reader 1 none (Text.lines text.toList)

section Read

variable {reader : Option α → List (List Char) → Except Flaw α} {n : Nat} {previous : Option α}
  {line : List Char} {rest : List (List Char)}

@[simp] theorem read_nil : read reader n previous [] = ⟨[], none⟩ := rfl

theorem read_cons_blank (h : Text.fields line = []) :
    read reader n previous (line :: rest) = read reader (n + 1) previous rest := by
  rw [read, h]

theorem read_cons_entry {a : α} (hne : Text.fields line ≠ [])
    (h : reader previous (Text.fields line) = .ok a) :
    read reader n previous (line :: rest) = cons a (read reader (n + 1) (some a) rest) := by
  rw [read]
  split
  · contradiction
  · rename_i field more hf
    rw [hf] at h
    rw [h]

theorem read_cons_flaw {flaw : Flaw} (hne : Text.fields line ≠ [])
    (h : reader previous (Text.fields line) = .error flaw) :
    read reader n previous (line :: rest) = ⟨[], some ⟨n, flaw⟩⟩ := by
  rw [read]
  split
  · contradiction
  · rename_i field more hf
    rw [hf] at h
    rw [h]

end Read

end Listing

end Typecase
