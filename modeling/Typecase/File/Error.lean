/-!
# File errors

Why a file or a directory could not be read, with the wording of the operating system.
-/

namespace Typecase

/-- The causes of a failed read. -/
inductive FileError where
  /-- There is nothing at the path. -/
  | notFound
  /-- A step of the path leads through something that is not a directory. -/
  | notADirectory
  /-- The path leads to a directory where a file is needed. -/
  | isADirectory
  /-- The path, or one of its names, is longer than the system allows. -/
  | nameTooLong
  /-- The path has a zero byte. -/
  | zeroByte
  /-- The bytes of the file are not a text. -/
  | notText
  /-- Any other failure, in the words of the system. -/
  | other (wording : String)
  deriving DecidableEq, Repr

/-- The wording of a failed read. -/
def FileError.message : FileError → String
  | .notFound => "No such file or directory (os error 2)"
  | .notADirectory => "Not a directory (os error 20)"
  | .isADirectory => "Is a directory (os error 21)"
  | .nameTooLong => "File name too long (os error 36)"
  | .zeroByte => "file name contained an unexpected NUL byte"
  | .notText => "stream did not contain valid UTF-8"
  | .other wording => wording

end Typecase
