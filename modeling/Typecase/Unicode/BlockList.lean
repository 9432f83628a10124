import Typecase.Listing
import Typecase.Text.Hex
import Typecase.Unicode.Block

/-!
# Block lists

A block list has one block per line: its name, its first and its last code point in
hexadecimal, separated by blank characters. Fields beyond the third are ignored. The blocks
must ascend without overlaps; the first line that breaks a rule ends the list.
-/

namespace Typecase.Block

/-- Checks a block against the rules of the list, given the block before it. The range comes
first, then the end of Unicode, then the order. -/
def accept (previous : Option Block) (b : Block) : Except Flaw Block :=
  if b.last < b.first then .error .invertedRange
  else if lastCodePoint < b.last then .error .outOfRange
  else if previous.any fun p => b.first ≤ p.last then .error .unordered
  else .ok b

/-- Reads one block from the fields of its line. -/
def ofFields (previous : Option Block) : List (List Char) → Except Flaw Block
  | name :: first :: last :: _ =>
    match Text.readCodePoint? first, Text.readCodePoint? last with
    | some first, some last => accept previous ⟨String.ofList name, first, last⟩
    | _, _ => .error .invalidHex
  | _ => .error .missingField

/-- Reads a block list. -/
def readList (text : String) : Listing Block := Listing.ofText ofFields text

example : readList "A 0 7F\n\nB 0080 0xff extra\r\nC 0 1" =
    ⟨[⟨"A", 0, 0x7F⟩, ⟨"B", 0x80, 0xFF⟩], some ⟨4, .unordered⟩⟩ := by decide

theorem accept_eq_ok_iff {previous : Option Block} {b b' : Block} :
    accept previous b = .ok b' ↔ b' = b ∧ b.first ≤ b.last ∧ b.last ≤ lastCodePoint ∧
      ∀ p ∈ previous, p.last < b.first := by
  simp only [accept]
  split
  · simp; omega
  · split
    · simp; omega
    · split
      · rename_i h
        obtain ⟨p, hp, hle⟩ := (Option.any_eq_true _ _).1 h
        simp only [decide_eq_true_eq] at hle
        simp only [reduceCtorEq, false_iff, not_and]
        intro _ _ _ hall
        have := hall p hp
        omega
      · rename_i h
        simp only [Except.ok.injEq]
        refine ⟨fun h' => ⟨h'.symm, by omega, by omega, fun p hp => ?_⟩, fun h' => h'.1.symm⟩
        have hp : previous = some p := hp
        simp only [hp, Option.any_some, decide_eq_true_eq] at h
        omega

end Typecase.Block
