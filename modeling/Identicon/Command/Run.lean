import Identicon.Avatar
import Identicon.Command.Arguments
import Identicon.Options.Document
import Identicon.Seeds.Document
import Identicon.Storage

/-!
# Running commands

What the program does when it is asked for a command. Options come from a file, if one is named, and
are then overridden by arguments; both the file and the outcome have to be valid. An avatar is
rendered before anything is written. A batch stops at the first user whose avatar cannot be made,
and what was written before stays.

## Main definitions

* `Trouble`: why a command fails, in the words that are shown.
* `resolveOptions`, `writeAvatar`, `describe`: the parts of commands.
* `Command.run`: a command in any storage.
* `runProgram`, `runOn`: the program in any storage, and on a file tree in memory.
-/

namespace Identicon

/-- Why a command fails: what could not be done, and what caused it. -/
structure Trouble where
  message : String
  cause : Option String
deriving DecidableEq, Repr

namespace Trouble

/-- The trouble that an error makes by itself. -/
def ofError (e : Error) : Trouble :=
  ⟨e.message, e.cause?⟩

/-- The cause with each line indented. -/
def indented (cause : String) : String :=
  String.ofList ("    ".toList ++ cause.toList.flatMap fun c =>
    if c = '\n' then "\n    ".toList else [c])

/-- The trouble as it is shown. -/
def text (t : Trouble) : String :=
  match t.cause with
  | none => "Error: " ++ t.message ++ "\n"
  | some cause => "Error: " ++ t.message ++ "\n\nCaused by:\n" ++ indented cause ++ "\n"

end Trouble

/-- How a command ends early. -/
inductive Ending where
  | trouble (t : Trouble)
  /-- The program is ended in the middle of its work. -/
  | abort

/-- The ending that a failure of rendering for a user makes. -/
def Ending.ofFailure (user : String) : Failure → Ending
  | .error e => .trouble ⟨"render avatar for '" ++ user ++ "'", some e.message⟩
  | .emptyRows => .abort

/-- The ending that a failed operation on a file makes, where `doing` tells the operation. -/
def Ending.ofFile (doing path : String) (reason : FileError) : Ending :=
  .trouble ⟨doing ++ " '" ++ path ++ "'", some reason.message⟩

/-- Options with those given as arguments in place of their own. -/
def Options.override (o : Options) (args : OptionArguments) : Options where
  halfSize := args.halfSize.getD o.halfSize
  policy := o.policy
  parallel := o.parallel || args.parallel
  threads := args.threads <|> o.threads

/-- The overridden options, which have to be valid. -/
def Options.overrideValid (o : Options) (args : OptionArguments) : Except Error Options := do
  (o.override args).validate
  return o.override args

section

variable {m : Type → Type} [Monad m] [Storage m]

/-- The options of a command: those of the file or the default ones, overridden by arguments. -/
def resolveOptions (args : OptionArguments) : ExceptT Ending m Options := do
  let result : Except Error Options ←
    match args.file with
    | none => pure (.ok {})
    | some path => pure (Options.ofFile path (← Storage.readText path))
  match result >>= (·.overrideValid args) with
  | .ok o => return o
  | .error e => throw (.trouble (.ofError e))

/-- Renders the avatar of a user, writes it to a file and tells so. The directories that the file
has to be in are created. -/
def writeAvatar (trig : Trig) (user out : String) (o : Options) : ExceptT Ending m Unit := do
  let avatar ←
    match Avatar.render trig user o with
    | .ok avatar => pure avatar
    | .error f => throw (.ofFailure user f)
  match Path.parent? out.toList with
  | none => pure ()
  | some [] => pure ()
  | some parent =>
    let parent := String.ofList parent
    match ← Storage.createDirectories parent with
    | .ok () => pure ()
    | .error e => throw (.ofFile "create output dir" parent e)
  match ← Storage.writeImage out avatar.image with
  | .ok () => pure ()
  | .error e => throw (.ofFile "write png" out e)
  Storage.tell ("wrote " ++ out)

end

/-- The users of a batch that names none. -/
def sampleUsers : List String :=
  ["testuser", "chrsintyre", "username", "underscore_________"]

/-- The file for a user of a batch. -/
def batchFile (directory user : String) : String :=
  String.ofList (Path.join directory.toList (user ++ ".png").toList)

/-- What the avatar of a user is made from, as a document: the user, the seeds, and the expressions
of the three channels. -/
def description (user : String) (seeds : Seeds) : Json.Value :=
  let expressions := seeds.map fun seed => Json.Value.string (Expr.grow seed).formula
  .object [("user".toList, .string user.toList), ("seeds".toList, seeds.toJson),
    ("red".toList, expressions.red), ("green".toList, expressions.green),
    ("blue".toList, expressions.blue)]

/-- Does what a command says and returns what it prints. -/
def Command.run {m : Type → Type} [Monad m] [Storage m] (trig : Trig) :
    Command → ExceptT Ending m String
  | .render user out args => do
    let o ← resolveOptions args
    writeAvatar trig user out o
    return ""
  | .batch directory users args => do
    let o ← resolveOptions args
    let users := if users.isEmpty then sampleUsers else users
    users.forM fun user => writeAvatar trig user (batchFile directory user) o
    return ""
  | .describe user =>
    match Seeds.derive user with
    | .ok seeds => return String.ofList ((description user seeds).indented 0) ++ "\n"
    | .error e => throw (.trouble (.ofError e))

/-! ## The program as a whole -/

/-- The name and the version of the program. -/
def versionText : String := "avatargen 0.1.0\n"

/-- What a run of the program leaves behind apart from its effects. -/
structure Report where
  code : Nat
  output : String
  /-- What is shown apart from the output. -/
  message : String
deriving DecidableEq, Repr

/-- What a command leaves behind, given what came of it. -/
def Report.ofResult : Except Ending String → Report
  | .ok output => ⟨0, output, ""⟩
  | .error (.trouble t) => ⟨1, "", t.text⟩
  | .error .abort => ⟨101, "", ""⟩

/-- Runs the program with these arguments in any storage. The text that explains the arguments and
the words for what is wrong with them are left out, so that a request for help and arguments that
are refused show in the exit code alone. -/
def runProgram {m : Type → Type} [Monad m] [Storage m] (trig : Trig) (args : List String) :
    m Report :=
  match Request.ofArguments args with
  | .help => pure ⟨0, "", ""⟩
  | .version => pure ⟨0, versionText, ""⟩
  | .refuse _ => pure ⟨2, "", ""⟩
  | .run command => do return .ofResult (← (command.run trig).run)

/-- Runs the program with these arguments on a file tree. The lines it tells meanwhile are shown
before what it shows at the end. -/
def runOn (trig : Trig) (args : List String) (tree : FileTree) : Report × FileTree :=
  let run : StateM Memory Report := runProgram trig args
  let (report, memory) := run.run ⟨tree, []⟩
  let told := String.join (memory.told.map (· ++ "\n"))
  ({ report with message := told ++ report.message }, memory.tree)

end Identicon
