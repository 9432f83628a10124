import Typecase.FontStack.Basic
import Typecase.Report.CommandLine

/-!
# The font report

What the program prints: which font each block is mapped to (`mappingLines`), and for every
line of a text the characters that no font has (`unresolvedLines`). `run` does the whole job
with reading access to files, whatever effects that has.

The characters of a line are looked up one after the other, and each look-up remembers its
block. `missingIn` names the same characters through look-ups without memory.
-/

namespace Typecase.Report

/-- What a run of the program comes to. -/
structure Outcome where
  exitCode : Nat
  stdout : String
  stderr : String
  notices : List Notice
  deriving DecidableEq, Repr

/-- Lines with their line ends. -/
def ofLines (lines : List String) : String := String.join (lines.map (· ++ "\n"))

/-! ### The mapping of blocks -/

/-- The range of a block. -/
def rangeText (b : Block) : String := Text.codePointHex b.first ++ ".." ++ Text.codePointHex b.last

/-- The font of a block. -/
def fontText : Option OpenFont → String
  | some font => font.name ++ " (" ++ font.face.name ++ ")"
  | none => "unsupported"

/-- The number of fonts, and the font of every block. -/
def mappingLines (s : FontStack) : List String :=
  (toString s.fonts.length ++ " fonts loaded") :: s.mapping.map fun (b, i) =>
    rangeText b ++ " " ++ b.name ++ " -> " ++ fontText (i.bind fun i => s.fonts[i]?)

/-! ### Characters without a font -/

/-- The characters of a line that are not blank and have no font, in the order of the line. -/
def lookUpLine (s : FontStack) : List Char → List Char × FontStack
  | [] => ([], s)
  | c :: rest =>
    if Text.isBlank c then lookUpLine s rest
    else
      let (font, s) := s.fontFor c
      let (others, s) := lookUpLine s rest
      (if font.isNone then c :: others else others, s)

/-- Characters in ascending order without repetitions. -/
def distinct (cs : List Char) : List Char := (cs.mergeSort fun a b => a.toNat ≤ b.toNat).eraseReps

/-- The characters of a line that are not blank and have no font, through look-ups without
memory. -/
def missingIn (s : FontStack) (line : List Char) : List Char :=
  line.filter fun c => !Text.isBlank c && (s.fontForStateless c).isNone

/-- The report on one line. -/
def lineText (line missing : List Char) : String :=
  String.ofList line ++
    if missing.isEmpty then " (ok)"
    else
      let codes := (distinct missing).map fun c => "U+" ++ Text.codePointHex c.toNat
      " (unresolved: " ++ String.intercalate " " codes ++ ")"

/-- The lines of a text that are not blank, trimmed. -/
def contentLines (text : String) : List (List Char) :=
  ((Text.lines text.toList).map Text.trim).filter fun line => !line.isEmpty

/-- The reports on lines, from the first on. -/
def reportLines (s : FontStack) : List (List Char) → List String
  | [] => []
  | line :: rest =>
    let (missing, s) := lookUpLine s line
    lineText line missing :: reportLines s rest

/-- The report on every line of a text that is not blank. -/
def unresolvedLines (s : FontStack) (text : String) : List String :=
  reportLines s (contentLines text)

/-! ### Fonts in a directory -/

/-- What follows the last dot of a file name that does not start with its only dot. -/
def extension? (name : String) : Option (List Char) :=
  let behind := name.toList.reverse.takeWhile (· != '.')
  let stem := name.toList.reverse.drop (behind.length + 1)
  if behind.length < name.length && !stem.isEmpty then some behind.reverse else none

/-- Whether a file name is that of a font, by its extension in either case. -/
def isFontName (name : String) : Bool :=
  (extension? name).any fun e =>
    let e := String.ofList (e.map Char.toLower)
    e == "ttf" || e == "otf"

/-- The path of a file in a directory. -/
def join (dir name : String) : String :=
  if dir.endsWith "/" then dir ++ name else dir ++ "/" ++ name

variable {m : Type → Type} [Monad m]

/-- Reads the fonts with the given names; each is listed under its name. -/
def readFonts (r : Reader m) (dir : String) : List String → m (List FontSource × List Notice)
  | [] => return ([], [])
  | name :: rest => do
    let data ← r.font (join dir name)
    let (sources, notices) ← readFonts r dir rest
    match data with
    | .ok data => return (⟨name, data⟩ :: sources, notices)
    | .error cause => return (sources, .fontUnreadable (join dir name) cause :: notices)

/-- The names of the fonts among file names, in ascending order. -/
def fontNames (names : List String) : List String :=
  (names.filter isFontName).mergeSort fun a b => a ≤ b

/-! ### The program -/

/-- The end of a run that failed. -/
def failure (stdout message : String) (notices : List Notice) : Outcome :=
  ⟨1, stdout, message ++ "\n", notices⟩

/-- What is said when a file cannot be read. -/
def unreadable (path : String) (e : FileError) : String :=
  "Failed to read '" ++ path ++ "': " ++ e.message

/-- Reads the overrides of an option that may be missing. -/
def readOverrides? (r : Reader m) : Option String → m (List Override × List Notice)
  | none => return ([], [])
  | some path => Settings.readOverrides r path

/-- Makes the report on a font stack and, if asked for, on a text. -/
def reportOn (r : Reader m) (s : FontStack) (text : Option String) (notices : List Notice) :
    m Outcome := do
  let mapping := ofLines (mappingLines s)
  match text with
  | none => return ⟨0, mapping, "", notices⟩
  | some path =>
    match ← r.text path with
    | .ok text => return ⟨0, mapping ++ ofLines (unresolvedLines s text), "", notices⟩
    | .error e => return failure mapping (unreadable path e) notices

/-- Makes the report with the fonts read from a directory. -/
def reportWith (r : Reader m) (o : Options) (blocks : Listing Block) (fonts : List FontSource)
    (fontNotices : List Notice) : m Outcome := do
  let n₁ := blocks.notices Settings.blocksLabel ++ fontNotices
  if fonts.isEmpty then return failure "" ("No font files in '" ++ o.fontsDir ++ "'") n₁
  else
    let (whitelist, n₂) ← readOverrides? r o.whitelist
    let (blacklist, n₃) ← readOverrides? r o.blacklist
    let settings := Settings.ofLists blocks.entries whitelist blacklist fonts
    let (s, n₄) := FontStack.build settings FontData.openScalable
    reportOn r s o.text (n₁ ++ n₂ ++ n₃ ++ n₄)

/-- Makes the report that is asked for. -/
def report (r : Reader m) (o : Options) : m Outcome := do
  match ← r.text o.blocks with
  | .error e => return failure "" (unreadable o.blocks e) []
  | .ok text =>
    match ← r.files o.fontsDir with
    | .error e =>
      return failure "" ("Failed to scan '" ++ o.fontsDir ++ "': " ++ e.message) []
    | .ok names =>
      let (fonts, notices) ← readFonts r o.fontsDir (fontNames names)
      reportWith r o (Block.readList text) fonts notices

/-- Runs a command. -/
def perform (r : Reader m) : Command → m Outcome
  | .version => return ⟨0, versionText, "", []⟩
  | .help => return ⟨0, helpText, "", []⟩
  | .misuse => return ⟨2, "", "", []⟩
  | .report options => report r options

/-- Runs the program with its arguments. -/
def run (r : Reader m) (arguments : List String) : m Outcome := perform r (Command.parse arguments)

end Typecase.Report
