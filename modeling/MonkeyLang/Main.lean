import MonkeyLang.Command.Execute
import MonkeyLang.Settings.Toml
import MonkeyLang.Settings.Yaml

/-!
# The program

Reads the surroundings, carries out the command line and shows what came of it.
-/

namespace MonkeyLang.Main

/-- Evaluations without a limit on nested calls may follow this many. -/
def budget : Nat := 1000000000

/-- The bytes of a text as an array. -/
def bytes (text : Text) : ByteArray := ⟨text.toArray⟩

/-- The characters of a text. -/
def shown (text : Text) : String := String.ofList (text.symbols.filterMap Symbol.char?)

/-- Writes an event to the terminal. -/
def write (event : Event) : IO Unit := do
  match event with
  | .out text =>
    let out ← IO.getStdout
    out.write (bytes text)
    out.flush
  | .err text =>
    let err ← IO.getStderr
    err.write (bytes text)
    err.flush
  | .prompt text =>
    let out ← IO.getStdout
    out.write (bytes text)
    out.flush
  | .history _ => pure ()

/-- What the program takes from libraries. -/
def libraries : Command.Libraries := ⟨.listed, ⟨Toml.decode, Yaml.decode⟩, Tint.escaped⟩

/-- What lies at a path: a file, a directory or nothing. -/
def look (path : Text) : IO (Option FileNode) := do
  try
    let content ← IO.FS.readBinFile (shown path)
    return some (.file content.toList)
  catch error =>
    match error with
    | .noFileOrDirectory .. => return none
    | .permissionDenied .. => return some .locked
    | _ => return some .directory

/-- The tree of what lies at the given paths. -/
def tree (paths : List Text) : IO FileTree := do
  let mut files := []
  let mut locked := []
  let mut directories := []
  for path in paths do
    match ← look path with
    | some (.file content) => files := (path, content) :: files
    | some .locked => locked := path :: locked
    | some .directory => directories := path :: directories
    | none => pure ()
  return .ofPaths files locked directories

/-- The value of an environment variable, empty when it is not set. -/
def variableValue (name : String) : IO Text := do
  return ((← IO.getEnv name).map Text.ofString).getD []

/-- All lines of the ordinary input. -/
partial def allInput (input : IO.FS.Stream) (sofar : ByteArray) : IO ByteArray := do
  let piece ← input.read 65536
  if piece.isEmpty then return sofar else allInput input (sofar ++ piece)

/-- Leads the dialogue to its end. -/
partial def converse (input : IO.FS.Stream) (r : Repl) : IO Unit := do
  write (.prompt r.prompt)
  let line ← input.getLine
  if line.isEmpty then
    write (.outLine [])
  else
    match r.step budget (.line (Text.ofString (line.dropEndWhile (· == '\n')).toString)) with
    | none => pure ()
    | some (events, after?) =>
      events.forM write
      match after? with
      | none => pure ()
      | some after => converse input after

/-- Carries out a command line. -/
def carryOut (arguments : List Text) : IO UInt32 := do
  let home ← variableValue "HOME"
  let named ← variableValue "MONKEY_CONFIG"
  let files ← tree (arguments ++ named :: Settings.candidates home)
  let wantsInput := arguments.contains (Text.ofString "-")
  let input ← if wantsInput then allInput (← IO.getStdin) .empty else pure .empty
  let world : Command.World := ⟨⟨files, home, named⟩, input.toList⟩
  let fail (error : Command.Error) : IO UInt32 := do
    write (.errLine (Text.ofString "monkey: " ++ error.message))
    return 1
  match Command.prepare libraries world arguments with
  | .error error => fail error
  | .ok (.converse, s) =>
    let settings := Command.replSettings libraries s []
    (Repl.greeting settings).forM write
    converse (← IO.getStdin) (Repl.start settings)
    return 0
  | .ok (task, s) =>
    match Command.perform libraries budget world s task with
    | none => return 1
    | some (.error error) => fail error
    | some (.ok outcome) =>
      outcome.events.forM write
      return if outcome.failed then 1 else 0

end MonkeyLang.Main

/-- The program. -/
def main (arguments : List String) : IO UInt32 :=
  MonkeyLang.Main.carryOut (arguments.map MonkeyLang.Text.ofString)
