/-!
# The command line

`fonts_tool <fonts_dir> [text] --blocks FILE` with the options `--whitelist FILE`,
`--blacklist FILE`, `--verbose`, `--version` and `--help`. An option takes its value from behind
an equals sign or from the next argument; single-letter flags can be run together; behind a
bare `--` every argument is a plain one.

Arguments are read from left to right. The first mistake or request for information decides:
`Command.parse` gives what is to be done.
-/

namespace Typecase.Report

/-- The options that take a file. -/
inductive FileOption where
  | blocks
  | whitelist
  | blacklist
  deriving DecidableEq, Repr

/-- The option with a long name. -/
def FileOption.ofName? : String → Option FileOption
  | "blocks" => some .blocks
  | "whitelist" => some .whitelist
  | "blacklist" => some .blacklist
  | _ => none

/-- What has been read so far. -/
structure Arguments where
  fontsDir : Option String
  text : Option String
  files : List (FileOption × String)
  verbosity : Nat
  deriving DecidableEq, Repr

namespace Arguments

/-- Nothing read yet. -/
def empty : Arguments := ⟨none, none, [], 0⟩

/-- The file given for an option. -/
def file? (a : Arguments) (o : FileOption) : Option String := a.files.lookup o

/-- Takes a plain argument; a third one, or an empty one, is a mistake. -/
def takePlain? (a : Arguments) (value : String) : Option Arguments :=
  if value = "" then none
  else if a.fontsDir.isNone then some { a with fontsDir := some value }
  else if a.text.isNone then some { a with text := some value }
  else none

/-- Takes the value of an option; a second one, or an empty one, is a mistake. -/
def takeFile? (a : Arguments) (o : FileOption) (value : String) : Option Arguments :=
  if value = "" ∨ (a.file? o).isSome then none
  else some { a with files := (o, value) :: a.files }

end Arguments

/-- A complete request for a report. -/
structure Options where
  fontsDir : String
  text : Option String
  blocks : String
  whitelist : Option String
  blacklist : Option String
  verbosity : Nat
  deriving DecidableEq, Repr

/-- The request that arguments make; without a directory or a block list it is incomplete. -/
def Options.ofArguments? (a : Arguments) : Option Options := do
  let fontsDir ← a.fontsDir
  let blocks ← a.file? .blocks
  return ⟨fontsDir, a.text, blocks, a.file? .whitelist, a.file? .blacklist, a.verbosity⟩

/-- What the command line asks for. -/
inductive Command where
  | report (options : Options)
  | version
  | help
  /-- The command line has a mistake. -/
  | misuse
  deriving DecidableEq, Repr

namespace Command

/-- The command of a finished command line. -/
def ofArguments (a : Arguments) : Command :=
  match Options.ofArguments? a with
  | some options => .report options
  | none => .misuse

/-- What a run of single-letter flags amounts to: more verbosity, or a command at once. -/
def flags (verbosity : Nat) : List Char → Nat ⊕ Command
  | [] => .inl verbosity
  | 'v' :: rest => flags (verbosity + 1) rest
  | 'V' :: _ => .inr .version
  | 'h' :: _ => .inr .help
  | _ :: _ => .inr .misuse

/-- The parts of a long option: its name, and the value behind an equals sign. -/
def splitLong (text : List Char) : String × Option String :=
  (String.ofList (text.takeWhile (· != '=')),
    match text.dropWhile (· != '=') with
    | [] => none
    | _ :: value => some (String.ofList value))

/-- How an argument is to be read. -/
inductive Shape where
  | plain
  /-- A bare `--`. -/
  | separator
  | long (text : List Char)
  | short (text : List Char)
  deriving DecidableEq, Repr

/-- The shape of an argument; a single hyphen is a plain one. -/
def shapeOf (argument : String) : Shape :=
  match argument.toList with
  | ['-', '-'] => .separator
  | '-' :: '-' :: text => .long text
  | ['-'] => .plain
  | '-' :: text => .short text
  | _ => .plain

/-- Reads arguments that are all plain. -/
def parsePlain (a : Arguments) : List String → Command
  | [] => ofArguments a
  | value :: rest =>
    match a.takePlain? value with
    | some a => parsePlain a rest
    | none => .misuse

/-- Reads arguments from left to right; `wanting` is the option that still needs its value. -/
def parseFrom (a : Arguments) (wanting : Option FileOption) : List String → Command
  | [] => if wanting.isSome then .misuse else ofArguments a
  | argument :: rest =>
    match shapeOf argument, wanting with
    | .plain, some o =>
      match a.takeFile? o argument with
      | some a => parseFrom a none rest
      | none => .misuse
    | .plain, none =>
      match a.takePlain? argument with
      | some a => parseFrom a none rest
      | none => .misuse
    | _, some _ => .misuse
    | .separator, none => parsePlain a rest
    | .short text, none =>
      match flags a.verbosity text with
      | .inl verbosity => parseFrom { a with verbosity } none rest
      | .inr command => command
    | .long text, none =>
      match splitLong text with
      | ("verbose", none) => parseFrom { a with verbosity := a.verbosity + 1 } none rest
      | ("version", none) => .version
      | ("help", none) => .help
      | (name, value) =>
        match FileOption.ofName? name, value with
        | some o, some value =>
          match a.takeFile? o value with
          | some a => parseFrom a none rest
          | none => .misuse
        | some o, none => parseFrom a (some o) rest
        | none, _ => .misuse

/-- Reads a command line. -/
def parse (arguments : List String) : Command := parseFrom .empty none arguments

example : parse ["f", "--blocks=b", "-vv", "t"] =
    .report ⟨"f", some "t", "b", none, none, 2⟩ := by decide
example : parse ["f", "--blocks", "--", "b"] = .misuse := by decide
example : parse ["-vV", "--nonsense"] = .version := by decide

end Command

/-- The name of the program with its version. -/
def versionText : String := "fonts_tool 0.1.0\n"

/-- The description of the command line. -/
def helpText : String :=
  "Reports how Unicode blocks map onto a directory of fonts.\n\n" ++
  "Usage: fonts_tool [OPTIONS] --blocks <BLOCKS> <FONTS_DIR> [TEXT]\n\n" ++
  "Arguments:\n" ++
  "  <FONTS_DIR>  Directory with the .ttf and .otf files to examine\n" ++
  "  [TEXT]       Text file whose lines are checked for characters without a font\n\n" ++
  "Options:\n" ++
  "      --blocks <BLOCKS>        Unicode block list: `name startHex endHex` per line\n" ++
  "      --whitelist <WHITELIST>  Fonts forced onto blocks: `block font` per line\n" ++
  "      --blacklist <BLACKLIST>  " ++
  "Fonts excluded from blocks: `block font` per line, `*` for all blocks\n" ++
  "  -v, --verbose...             Log lines to stderr, repeat for more detail\n" ++
  "  -h, --help                   Print help\n" ++
  "  -V, --version                Print version\n"

end Typecase.Report
