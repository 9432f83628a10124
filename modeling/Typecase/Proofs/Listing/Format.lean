import Mathlib.Data.List.Forall2
import Typecase.Listing
import Typecase.Proofs.Text.Cutting

/-!
# Formats of lists

A list file is read line by line up to the first flaw. A `Listing.Format` says what the file may
contain and what can be wrong with it, without saying how it is read: which entry the fields of a
line stand for, which entries may follow which, and which flaws a line has.

* **Whole lists** (`Format.Holds`). The lines that are not blank stand for the entries, one by one
  and in order, and each entry follows the one before it.
* **Broken lists** (`Format.Breaks`). The lines in front of a malformed line are a whole list. The
  flaw reported is the first that the line has, in the order of `Flaw.rank`, and the line is counted
  with all lines before it, blank or not.
* **Reading.** If the reader of one line knows the format (`Format.IsReadBy`), then reading tells
  whole lists from broken ones, and gives their entries and the flaw (`Format.IsReadBy.describes`).
-/

namespace Typecase

/-- The order in which the flaws of a line are looked for. -/
def Flaw.rank : Flaw → Nat
  | .missingField => 0
  | .invalidHex => 1
  | .invertedRange => 2
  | .outOfRange => 3
  | .unordered => 4

theorem Flaw.eq_of_rank_eq {f g : Flaw} (h : f.rank = g.rank) : f = g := by
  cases f <;> cases g <;> first | rfl | contradiction

namespace Listing

variable {α : Type} {reader : Option α → List (List Char) → Except Flaw α} {n : Nat}
  {previous : Option α} {line : List Char} {lines front back : List (List Char)} {entries : List α}
  {e : ListError}

/-! ### Reading line by line -/

theorem cons_eq_whole_iff {a : α} {l : Listing α} :
    cons a l = ⟨entries, none⟩ ↔ ∃ rest, entries = a :: rest ∧ l = ⟨rest, none⟩ := by
  obtain ⟨es, error⟩ := l
  simp [cons, eq_comm]

theorem cons_eq_broken_iff {a : α} {l : Listing α} :
    cons a l = ⟨entries, some e⟩ ↔ ∃ rest, entries = a :: rest ∧ l = ⟨rest, some e⟩ := by
  obtain ⟨es, error⟩ := l
  simp [cons, eq_comm]

/-- The entry in front of what follows a list is the last entry of the list, if it has any. -/
private theorem getLast?_cons_or (a : α) (rest : List α) (previous : Option α) :
    (a :: rest).getLast?.or previous = rest.getLast?.or (some a) := by
  rw [List.getLast?_cons]
  cases rest.getLast? <;> rfl

private theorem number_cons (n : Nat) (line : List Char) (front : List (List Char)) :
    n + (line :: front).length = n + 1 + front.length := by
  rw [List.length_cons, Nat.add_assoc, Nat.add_comm 1]

/-- Behind a list that is read to its end, reading goes on. -/
theorem read_append (h : read reader n previous front = ⟨entries, none⟩)
    (back : List (List Char)) : read reader n previous (front ++ back) =
      let l := read reader (n + front.length) (entries.getLast?.or previous) back
      ⟨entries ++ l.entries, l.error⟩ := by
  induction front generalizing n previous entries with
  | nil =>
    obtain rfl : [] = entries := congrArg Listing.entries h
    rfl
  | cons line front ih =>
    rw [List.cons_append, number_cons]
    by_cases hblank : Text.fields line = []
    · rw [read_cons_blank hblank] at h ⊢
      exact ih h
    · cases hline : reader previous (Text.fields line) with
      | error flaw =>
        rw [read_cons_flaw hblank hline] at h
        simp at h
      | ok a =>
        rw [read_cons_entry hblank hline] at h ⊢
        obtain ⟨rest, rfl, hrest⟩ := cons_eq_whole_iff.mp h
        rw [ih hrest, getLast?_cons_or]
        rfl

/-- **Reading stops at the first line that is refused**, behind lines that are read to their
end. -/
theorem read_eq_broken_iff : read reader n previous lines = ⟨entries, some e⟩ ↔
    ∃ front line back, lines = front ++ line :: back ∧ e.line = n + front.length ∧
      read reader n previous front = ⟨entries, none⟩ ∧ Text.fields line ≠ [] ∧
      reader (entries.getLast?.or previous) (Text.fields line) = .error e.flaw := by
  constructor
  · intro h
    induction lines generalizing n previous entries with
    | nil =>
      rw [read_nil] at h
      simp at h
    | cons line rest ih =>
      by_cases hblank : Text.fields line = []
      · rw [read_cons_blank hblank] at h
        obtain ⟨front, bad, back, rfl, hn, hfront, hbad⟩ := ih h
        refine ⟨line :: front, bad, back, rfl, hn.trans (number_cons n line front).symm, ?_, hbad⟩
        rw [read_cons_blank hblank, hfront]
      · cases hline : reader previous (Text.fields line) with
        | error flaw =>
          rw [read_cons_flaw hblank hline] at h
          obtain ⟨rfl, rfl⟩ : [] = entries ∧ ⟨n, flaw⟩ = e := by simpa using h
          exact ⟨[], line, rest, rfl, rfl, rfl, hblank, hline⟩
        | ok a =>
          rw [read_cons_entry hblank hline] at h
          obtain ⟨es, rfl, hes⟩ := cons_eq_broken_iff.mp h
          obtain ⟨front, bad, back, rfl, hn, hfront, hbad⟩ := ih hes
          refine ⟨line :: front, bad, back, rfl, hn.trans (number_cons n line front).symm, ?_, ?_⟩
          · rw [read_cons_entry hblank hline, hfront]
            rfl
          · rwa [getLast?_cons_or]
  · rintro ⟨front, line, back, rfl, hn, hfront, hblank, hline⟩
    rw [read_append hfront, read_cons_flaw hblank hline, ← hn]
    simp

theorem error_eq_none_iff {l : Listing α} :
    l.error = none ↔ ∀ entries e, l ≠ ⟨entries, some e⟩ := by
  obtain ⟨entries, error⟩ := l
  cases error with
  | none => simp
  | some e => simp

/-! ### Formats -/

/-- What a list of some kind is like, line by line. -/
structure Format (α : Type) where
  /-- The fields of a line stand for this entry. -/
  Denotes : List (List Char) → α → Prop
  /-- The entry may come behind another one, or first. -/
  Follows : Option α → α → Prop
  /-- This is wrong with the fields of a line behind an entry, or at the start. -/
  HasFlaw : Option α → List (List Char) → Flaw → Prop

namespace Format

variable {f : Format α} {fields : List (List Char)} {flaw : Flaw}

/-- Each of the entries follows the one before it. -/
def InOrder (f : Format α) : Option α → List α → Prop
  | _, [] => True
  | previous, a :: rest => f.Follows previous a ∧ f.InOrder (some a) rest

/-- The flaw is the first of those that the fields of a line have. -/
def IsFirstFlaw (f : Format α) (previous : Option α) (fields : List (List Char)) (flaw : Flaw) :
    Prop :=
  f.HasFlaw previous fields flaw ∧ ∀ other, f.HasFlaw previous fields other → flaw.rank ≤ other.rank

/-- The lines that are not blank stand for these entries, and each entry follows the one before
it. -/
def Holds (f : Format α) (lines : List (List Char)) (entries : List α) : Prop :=
  ∃ rows, List.Forall₂ Text.HasFields lines rows ∧
    List.Forall₂ f.Denotes (rows.filter (· ≠ [])) entries ∧ f.InOrder none entries

/-- The lines hold these entries up to a malformed line, which has the number and the flaw given. -/
def Breaks (f : Format α) (lines : List (List Char)) (entries : List α) (e : ListError) : Prop :=
  ∃ front line back fields, lines = front ++ line :: back ∧ e.line = front.length + 1 ∧
    f.Holds front entries ∧ Text.HasFields line fields ∧ fields ≠ [] ∧
    f.IsFirstFlaw entries.getLast? fields e.flaw

theorem IsFirstFlaw.eq {other : Flaw} (h : f.IsFirstFlaw previous fields flaw)
    (h' : f.IsFirstFlaw previous fields other) : flaw = other :=
  Flaw.eq_of_rank_eq (Nat.le_antisymm (h.2 other h'.1) (h'.2 flaw h.1))

/-- The reader of one line gives the entry if the line has a place in the list, and the first flaw
if it has none. -/
structure IsReadBy (f : Format α) (reader : Option α → List (List Char) → Except Flaw α) :
    Prop where
  ok_iff : ∀ {previous : Option α} {fields : List (List Char)} {a : α}, fields ≠ [] →
    (reader previous fields = .ok a ↔ f.Denotes fields a ∧ f.Follows previous a)
  error_iff : ∀ {previous : Option α} {fields : List (List Char)} {flaw : Flaw}, fields ≠ [] →
    (reader previous fields = .error flaw ↔ f.IsFirstFlaw previous fields flaw)

/-- A reader knows the format if it gives the entries that have a place in the list, finds no flaw
where it gives one, and else finds the first. -/
theorem isReadBy_of (hok : ∀ {previous fields a}, fields ≠ [] →
      (reader previous fields = .ok a ↔ f.Denotes fields a ∧ f.Follows previous a))
    (hfree : ∀ {previous fields a flaw}, fields ≠ [] → reader previous fields = .ok a →
      ¬f.HasFlaw previous fields flaw)
    (hfirst : ∀ {previous fields flaw}, fields ≠ [] → reader previous fields = .error flaw →
      f.IsFirstFlaw previous fields flaw) : f.IsReadBy reader := by
  refine ⟨hok, fun {previous fields flaw} hblank => ⟨hfirst hblank, fun hflaw => ?_⟩⟩
  cases hline : reader previous fields with
  | ok a => exact absurd hflaw.1 (hfree hblank hline)
  | error other => rw [(hfirst hblank hline).eq hflaw]

/-- The listing has the entries of the lines up to the first malformed line, and reports that line;
it reports none exactly if none is malformed. -/
structure Describes (f : Format α) (lines : List (List Char)) (l : Listing α) : Prop where
  whole_iff : ∀ entries, l = ⟨entries, none⟩ ↔ f.Holds lines entries
  broken_iff : ∀ entries e, l = ⟨entries, some e⟩ ↔ f.Breaks lines entries e
  error_eq_none_iff : l.error = none ↔ ∀ entries e, ¬f.Breaks lines entries e

theorem forall₂_hasFields_iff {rows : List (List (List Char))} :
    List.Forall₂ Text.HasFields lines rows ↔ rows = lines.map Text.fields := by
  have hfields : Text.HasFields = fun line fields => Text.fields line = fields := by
    funext line fields
    exact propext (Text.hasFields_iff.trans eq_comm)
  rw [hfields, ← List.forall₂_map_left_iff (R := Eq), List.forall₂_eq_eq_eq, eq_comm]

theorem holds_iff : f.Holds lines entries ↔
    List.Forall₂ f.Denotes (Text.rows lines) entries ∧ f.InOrder none entries := by
  simp only [Holds, forall₂_hasFields_iff, exists_eq_left, Text.rows]

theorem IsReadBy.read_eq_whole_iff (h : f.IsReadBy reader) :
    read reader n previous lines = ⟨entries, none⟩ ↔
      List.Forall₂ f.Denotes (Text.rows lines) entries ∧ f.InOrder previous entries := by
  induction lines generalizing n previous entries with
  | nil =>
    rw [read_nil, Text.rows_nil, List.forall₂_nil_left_iff]
    constructor
    · intro hnil
      obtain rfl : [] = entries := congrArg Listing.entries hnil
      exact ⟨rfl, trivial⟩
    · rintro ⟨rfl, -⟩
      rfl
  | cons line rest ih =>
    by_cases hblank : Text.fields line = []
    · rw [read_cons_blank hblank, Text.rows_cons_of_eq_nil hblank, ih]
    · rw [Text.rows_cons_of_ne_nil hblank, List.forall₂_cons_left_iff]
      cases hline : reader previous (Text.fields line) with
      | error flaw =>
        rw [read_cons_flaw hblank hline]
        refine iff_of_false (by simp) ?_
        rintro ⟨⟨a, as, hentry, -, rfl⟩, hfollows, -⟩
        -- a line with an entry that fits is not refused
        rw [(h.ok_iff hblank).mpr ⟨hentry, hfollows⟩] at hline
        contradiction
      | ok a =>
        obtain ⟨hentry, hfollows⟩ := (h.ok_iff hblank).mp hline
        rw [read_cons_entry hblank hline, cons_eq_whole_iff]
        constructor
        · rintro ⟨as, rfl, hrest⟩
          obtain ⟨hrows, horder⟩ := ih.mp hrest
          exact ⟨⟨a, as, hentry, hrows, rfl⟩, hfollows, horder⟩
        · rintro ⟨⟨b, as, hb, hrows, rfl⟩, hbfollows, horder⟩
          have hok := (h.ok_iff hblank).mpr ⟨hb, hbfollows⟩
          obtain rfl : a = b := Except.ok.inj (hline.symm.trans hok)
          exact ⟨as, rfl, ih.mpr ⟨hrows, horder⟩⟩

/-- **Reading tells whole lists from broken ones.** -/
theorem IsReadBy.describes (h : f.IsReadBy reader) (lines : List (List Char)) :
    f.Describes lines (read reader 1 none lines) := by
  have hwhole (lines : List (List Char)) (entries : List α) :
      read reader 1 none lines = ⟨entries, none⟩ ↔ f.Holds lines entries :=
    h.read_eq_whole_iff.trans holds_iff.symm
  have hbroken (entries : List α) (e : ListError) :
      read reader 1 none lines = ⟨entries, some e⟩ ↔ f.Breaks lines entries e := by
    rw [read_eq_broken_iff]
    constructor
    · rintro ⟨front, line, back, hlines, hn, hfront, hblank, hline⟩
      rw [Option.or_none] at hline
      exact ⟨front, line, back, Text.fields line, hlines, hn.trans (Nat.add_comm _ _),
        (hwhole front entries).mp hfront, Text.hasFields_iff.mpr rfl, hblank,
        (h.error_iff hblank).mp hline⟩
    · rintro ⟨front, line, back, fields, hlines, hn, hfront, hfields, hblank, hflaw⟩
      obtain rfl := Text.hasFields_iff.mp hfields
      refine ⟨front, line, back, hlines, hn.trans (Nat.add_comm _ _),
        (hwhole front entries).mpr hfront, hblank, ?_⟩
      rw [Option.or_none]
      exact (h.error_iff hblank).mpr hflaw
  refine ⟨hwhole lines, hbroken, ?_⟩
  rw [error_eq_none_iff]
  exact forall₂_congr fun entries e => not_congr (hbroken entries e)

/-- Whether the list is whole or broken, its entries are those of some lines at its start. -/
theorem Describes.exists_holds {l : Listing α} (h : f.Describes lines l) :
    ∃ front, front <+: lines ∧ f.Holds front l.entries := by
  obtain ⟨entries, error⟩ := l
  cases error with
  | none => exact ⟨lines, List.prefix_refl lines, (h.whole_iff entries).mp rfl⟩
  | some e =>
    obtain ⟨front, line, back, -, rfl, -, hfront, -⟩ := (h.broken_iff entries e).mp rfl
    exact ⟨front, List.prefix_append front (line :: back), hfront⟩

end Format

end Listing

end Typecase
