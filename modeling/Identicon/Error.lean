import Identicon.FileError
import Identicon.Json.Fault

/-!
# Errors

Everything that can keep an avatar from being made, by cause. A cause belongs to one of six kinds,
and the message is made of the kind and the cause.

Apart from errors there is one way to stop without a result: a canvas without pixels has rows of
length zero, which cannot be dealt out, and that ends the whole program. A `Failure` is either.
-/

namespace Identicon

/-- Why an avatar cannot be made. -/
inductive Error where
  /-- The identifier has fewer than three characters; `length` counts them in lowercase. -/
  | shortIdentifier (identifier : String) (length : Nat)
  /-- A third of an identifier has no characters. -/
  | emptyPart
  | zeroHalfSize
  | largeHalfSize (halfSize : UInt32)
  | zeroThreads
  /-- A rounded intensity is no byte. -/
  | channelOverflow (value : Float)
  /-- The pixels of a plane are fewer than its canvas has. -/
  | incompletePlane
  | planesDiffer
  /-- The pixels of an image are fewer than its planes have. -/
  | incompleteImage
  | unreadableOptions (reason : Json.ReadError)
  | optionsFile (path : String) (reason : FileError)

/-- The kinds of errors. -/
inductive Error.Kind where
  | identifier
  | validation
  | overflow
  | evaluation
  | document
  | file
deriving DecidableEq, Repr

namespace Error

/-- The greatest half size of a canvas. -/
def greatestHalfSize : UInt32 := 4096

/-- The kind of an error. -/
def kind : Error → Kind
  | shortIdentifier .. => .identifier
  | zeroHalfSize | largeHalfSize _ | zeroThreads => .validation
  | channelOverflow _ => .overflow
  | emptyPart | incompletePlane | planesDiffer | incompleteImage => .evaluation
  | unreadableOptions _ => .document
  | optionsFile .. => .file

/-- What a message says before the cause. -/
def Kind.lead : Kind → String
  | .identifier => "invalid identifier: "
  | .validation => "validation error: "
  | .overflow => "channel overflow: "
  | .evaluation => "evaluation error: "
  | .document => "serialization error: "
  | .file => ""

/-- The decimal digits of a number. -/
def digits (n : Nat) : String :=
  String.ofList (Decimal.digitsOf n)

/-- The cause in words. -/
def detail : Error → String
  | shortIdentifier identifier length =>
    "'" ++ identifier ++ "' has " ++ digits length ++ " character(s), at least 3 are required"
  | emptyPart => "identifier part unexpectedly empty"
  | zeroHalfSize => "canvas half_size must be > 0"
  | largeHalfSize n =>
    "canvas half_size " ++ digits n.toNat ++ " exceeds maximum " ++
      digits greatestHalfSize.toNat
  | zeroThreads => "avatar option 'threads' must be >= 1 when set"
  | channelOverflow value =>
    "intensity " ++ String.ofList (Decimal.plain value) ++ " is outside [0, 255]"
  | incompletePlane => "intensity plane buffer does not match canvas"
  | planesDiffer => "merge_planes expects three planes of identical size"
  | incompleteImage => "rgb buffer does not match plane size"
  | unreadableOptions reason => reason.message
  | optionsFile path _ => "read avatar options '" ++ path ++ "'"

/-- The whole message. -/
def message (e : Error) : String :=
  e.kind.lead ++ e.detail

/-- What caused an error that came from outside the program. -/
def cause? : Error → Option String
  | optionsFile _ reason => some reason.message
  | _ => none

end Error

/-- How a computation ends without a result. -/
inductive Failure where
  /-- It reports an error to its caller. -/
  | error (e : Error)
  /-- It ends the program, since rows of length zero cannot be dealt out. -/
  | emptyRows

instance : MonadLift (Except Error) (Except Failure) where
  monadLift
    | .ok a => .ok a
    | .error e => .error (.error e)

end Identicon
