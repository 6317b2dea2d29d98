import Identicon.Command.Run
import Identicon.Png

/-!
# The program

The command line on the file system of the machine. All decisions are made by `runProgram`; here
its effects are carried out.
-/

namespace Identicon

/-- What an operating system says about a file. -/
def FileError.ofSystem : IO.Error → FileError
  | .noFileOrDirectory .. => .notFound
  | .alreadyExists .. => .alreadyExists
  | .inappropriateType _ code _ => if code = 20 then .notDirectory else .isDirectory
  | e => .other (toString e)

/-- The outcome of an operation on a file. -/
def attempt {α : Type} (operation : IO α) : IO (Except FileError α) := do
  match ← operation.toBaseIO with
  | .ok a => return .ok a
  | .error e => return .error (.ofSystem e)

instance : Storage IO where
  readText path := do
    match ← attempt (IO.FS.readBinFile path) with
    | .error e => return .error e
    | .ok bytes =>
      match String.fromUTF8? bytes with
      | some text => return .ok text
      | none => return .error .notText
  createDirectories path := attempt (IO.FS.createDirAll path)
  writeImage path image := attempt (IO.FS.writeBinFile path (Png.encode image))
  tell line := IO.eprintln line

end Identicon

open Identicon in
/-- Runs the program with these arguments and shows what it leaves behind. -/
def main (args : List String) : IO UInt32 := do
  let report ← runProgram .system args
  IO.print report.output
  IO.eprint report.message
  return report.code.toUInt32
