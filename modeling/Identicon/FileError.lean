/-!
# File errors

Why a file cannot be read or written, in the words of the operating system.
-/

namespace Identicon

/-- Why an operation on a file fails. -/
inductive FileError where
  | notFound
  | alreadyExists
  | notDirectory
  | isDirectory
  | nameTooLong
  /-- The bytes of the file are no text. -/
  | notText
  /-- A reason that an operating system gives in its own words. -/
  | other (text : String)
deriving DecidableEq, Repr

/-- The reason in words, with the number that the system knows it by. -/
def FileError.message : FileError → String
  | .notFound => "No such file or directory (os error 2)"
  | .alreadyExists => "File exists (os error 17)"
  | .notDirectory => "Not a directory (os error 20)"
  | .isDirectory => "Is a directory (os error 21)"
  | .nameTooLong => "File name too long (os error 36)"
  | .notText => "stream did not contain valid UTF-8"
  | .other text => text

end Identicon
