import Identicon.Options

/-!
# Command lines

What the arguments of the program ask for. They are read from left to right. An argument that begins
with a dash is a flag or an option; the value of an option is the argument after it, or follows an
equals sign. Everything after `--` is taken as it stands. Names of options are not abbreviated, and
each is given once, except that the flag for a log may come both before and after the name of a
command.

A request for help or for the version is granted as soon as it is met.

## Main definitions

* `Command`: what the program can do.
* `Usage`: what can be wrong with arguments.
* `Request`: what arguments ask for.
* `Form.read`: the arguments of a command, as the form of the command has them.
* `Request.ofArguments`: all arguments of the program.
-/

namespace Identicon

/-- Options of an avatar that are given as arguments. -/
structure OptionArguments where
  /-- A file that holds options. -/
  file : Option String
  halfSize : Option UInt32
  parallel : Bool
  threads : Option UInt64
deriving DecidableEq, Repr

/-- What the program can do. -/
inductive Command where
  /-- Writes the avatar of a user to a file. -/
  | render (user out : String) (options : OptionArguments)
  /-- Writes the avatars of users to files in a directory. -/
  | batch (directory : String) (users : List String) (options : OptionArguments)
  /-- Tells what the avatar of a user is made from. -/
  | describe (user : String)
deriving DecidableEq, Repr

/-- What can be wrong with arguments. The words for it are left out. -/
inductive Usage where
  | noCommand
  | unknownCommand (name : String)
  | unknownOption (name : String)
  | unexpectedArgument (text : String)
  | unexpectedValue (option : String)
  | missingValue (option : String)
  | missingOption (option : String)
  | repeatedOption (option : String)
  | invalidValue (option value : String)
deriving DecidableEq, Repr

/-- What arguments ask for. -/
inductive Request where
  | help
  | version
  | run (command : Command)
  | refuse (u : Usage)
deriving DecidableEq, Repr

/-! ## Values -/

/-- The number that decimal digits denote, if there are any and nothing else. -/
def decimal? (digits : List Char) : Option Nat :=
  if digits.isEmpty || !digits.all Char.isDigit then none
  else some (digits.foldl (fun n d => 10 * n + (d.toNat - '0'.toNat)) 0)

/-- A half size: a number of 32 bits, with any sign that leaves it in range. -/
def halfSize? (value : String) : Option UInt32 := do
  let n ←
    match value.toList with
    | '+' :: digits => decimal? digits
    | '-' :: digits => (decimal? digits).filter (· == 0)
    | digits => decimal? digits
  if n < UInt32.size then some n.toUInt32 else none

/-- A number of workers: a number of 64 bits that may have a plus. -/
def threads? (value : String) : Option UInt64 := do
  let n ←
    match value.toList with
    | '+' :: digits => decimal? digits
    | digits => decimal? digits
  if n < UInt64.size then some n.toUInt64 else none

/-- What an option of a command takes. -/
inductive ValueKind where
  | flag
  | text
  /-- A path, which is not empty. -/
  | path
  | halfSize
  | threads
deriving DecidableEq, Repr

/-- Whether a value is of a kind. -/
def ValueKind.accepts (value : String) : ValueKind → Bool
  | .flag => false
  | .text => true
  | .path => !value.isEmpty
  | .halfSize => (halfSize? value).isSome
  | .threads => (threads? value).isSome

/-! ## Arguments of a command -/

/-- What a command takes: its options, and whether it takes arguments that belong to none. -/
structure Form where
  options : List (String × ValueKind)
  takesRest : Bool

/-- What has been read of the arguments of a command. -/
structure Given where
  flags : List String := []
  values : List (String × String) := []
  rest : List String := []

/-- The flag that asks for a log. -/
def logFlag : String := "--verbose"

namespace Given

/-- Adds a flag. -/
def addFlag (g : Given) (name : String) : Except Request Given :=
  if g.flags.contains name then .error (.refuse (.repeatedOption name))
  else .ok { g with flags := name :: g.flags }

/-- Adds an option with its value. -/
def addValue (g : Given) (kind : ValueKind) (name value : String) : Except Request Given :=
  if !kind.accepts value then .error (.refuse (.invalidValue name value))
  else if (g.values.lookup name).isSome then .error (.refuse (.repeatedOption name))
  else .ok { g with values := (name, value) :: g.values }

/-- Adds flags of one letter each. -/
def addLetters (g : Given) : List Char → Except Request Given
  | [] => .ok g
  | c :: cs => do
    if c = 'v' then (← g.addFlag logFlag).addLetters cs
    else if c = 'h' then throw .help
    else throw (.refuse (.unknownOption (String.ofList ['-', c])))

/-- The value of an option that has to be given. -/
def required (g : Given) (name : String) : Except Request String :=
  match g.values.lookup name with
  | some value => .ok value
  | none => .error (.refuse (.missingOption name))

end Given

/-- Whether an argument stands for an option, so that it is no value of the option before it. A
dash alone does not. -/
def looksLikeOption (argument : String) : Bool :=
  match argument.toList with
  | '-' :: _ :: _ => true
  | _ => false

/-- The letters of an argument that is a dash with letters, `none` for names that begin with two
dashes. -/
def letters? (argument : String) : Option (List Char) :=
  match argument.toList with
  | '-' :: '-' :: _ => none
  | '-' :: cs => some cs
  | _ => none

/-- An argument cut at its first equals sign. -/
def cutAtEquals (argument : String) : String × Option String :=
  let text := argument.toList
  match text.dropWhile (· != '=') with
  | [] => (argument, none)
  | _ :: value => (String.ofList (text.takeWhile (· != '=')), some (String.ofList value))

/-- Reads the arguments of a command. -/
def Form.read (form : Form) (g : Given) : List String → Except Request Given
  | [] => .ok g
  | a :: rest =>
    if a = "--" then
      match form.takesRest, rest with
      | false, b :: _ => .error (.refuse (.unexpectedArgument b))
      | _, rest => .ok { g with rest := g.rest ++ rest }
    else if looksLikeOption a then
      match letters? a with
      | some cs => do form.read (← g.addLetters cs) rest
      | none =>
        let (name, attached) := cutAtEquals a
        match form.options.lookup name, attached, rest with
        | none, _, _ => .error (if a = "--help" then .help else .refuse (.unknownOption name))
        | some .flag, none, rest => do form.read (← g.addFlag name) rest
        | some .flag, some _, _ => .error (.refuse (.unexpectedValue name))
        | some kind, some value, rest => do form.read (← g.addValue kind name value) rest
        | some _, none, [] => .error (.refuse (.missingValue name))
        | some kind, none, value :: rest =>
          if looksLikeOption value then .error (.refuse (.missingValue name))
          else do form.read (← g.addValue kind name value) rest
    else if form.takesRest then form.read { g with rest := g.rest ++ [a] } rest
    else .error (.refuse (.unexpectedArgument a))
termination_by args => args.length

/-! ## Arguments of the program -/

/-- The options that say how to render. -/
def renderingOptions : List (String × ValueKind) :=
  [("--opts", .path), ("--half-size", .halfSize), ("--parallel", .flag), ("--threads", .threads),
    (logFlag, .flag)]

/-- The options of an avatar among the arguments of a command. -/
def Given.options (g : Given) : OptionArguments where
  file := g.values.lookup "--opts"
  halfSize := (g.values.lookup "--half-size").bind halfSize?
  parallel := g.flags.contains "--parallel"
  threads := (g.values.lookup "--threads").bind threads?

/-- The command with this name and these arguments. -/
def Command.ofArguments (name : String) (args : List String) : Except Request Command :=
  if name = "render" then do
    let g ← Form.read ⟨("--user", .text) :: ("--out", .path) :: renderingOptions, false⟩ {} args
    return .render (← g.required "--user") (← g.required "--out") g.options
  else if name = "batch" then do
    let g ← Form.read ⟨("--out-dir", .path) :: renderingOptions, true⟩ {} args
    return .batch (← g.required "--out-dir") g.rest g.options
  else if name = "describe" then do
    let g ← Form.read ⟨[("--user", .text), (logFlag, .flag)], false⟩ {} args
    return .describe (← g.required "--user")
  else if name = "help" then .error .help
  else .error (.refuse (.unknownCommand name))

namespace Request

/-- Reads flags of one letter each before the name of a command. `log` tells whether the flag for a
log has been met. -/
def readLetters (log : Bool) : List Char → Except Request Bool
  | [] => .ok log
  | c :: cs =>
    if c = 'v' then
      if log then .error (.refuse (.repeatedOption logFlag)) else readLetters true cs
    else if c = 'V' then .error .version
    else if c = 'h' then .error .help
    else .error (.refuse (.unknownOption (String.ofList ['-', c])))

/-- Reads arguments up to the name of a command, and the command. -/
def readCommand (log : Bool) : List String → Except Request Command
  | [] => .error (.refuse .noCommand)
  | a :: rest =>
    if looksLikeOption a then
      match letters? a with
      | some cs => do readCommand (← readLetters log cs) rest
      | none =>
        if a = logFlag then
          if log then .error (.refuse (.repeatedOption logFlag)) else readCommand true rest
        else if a = "--version" then .error .version
        else if a = "--help" then .error .help
        else .error (.refuse (.unknownOption a))
    else Command.ofArguments a rest

/-- What the arguments of the program ask for. -/
def ofArguments (args : List String) : Request :=
  match readCommand false args with
  | .ok command => .run command
  | .error r => r

end Request

end Identicon
