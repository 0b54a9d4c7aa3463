import Unreached.Text.Basic

/-!
# Faults of file operations

`Fault` lists the ways in which an operation on files fails, and `Fault.message` the text of each.
-/

namespace Unreached

set_option autoImplicit false

/-- Why an operation on files fails. -/
inductive Fault where
  | notFound
  | busy
  | alreadyExists
  | notADirectory
  | isADirectory
  | invalidArgument
  | nameTooLong
  | notEmpty
  | linkLoop
  /-- The path holds a NUL character. -/
  | nulInPath
  /-- The content is not UTF-8. -/
  | notText
  /-- No directory of the path could be made. -/
  | noWholeTree
deriving DecidableEq, Repr

/-- The text of a fault. -/
def Fault.message : Fault → Text
  | .notFound => "No such file or directory (os error 2)".toList
  | .busy => "Device or resource busy (os error 16)".toList
  | .alreadyExists => "File exists (os error 17)".toList
  | .notADirectory => "Not a directory (os error 20)".toList
  | .isADirectory => "Is a directory (os error 21)".toList
  | .invalidArgument => "Invalid argument (os error 22)".toList
  | .nameTooLong => "File name too long (os error 36)".toList
  | .notEmpty => "Directory not empty (os error 39)".toList
  | .linkLoop => "Too many levels of symbolic links (os error 40)".toList
  | .nulInPath => "file name contained an unexpected NUL byte".toList
  | .notText => "stream did not contain valid UTF-8".toList
  | .noWholeTree => "failed to create whole tree".toList

end Unreached
