import MonkeyLang.Command.Flags
import MonkeyLang.Console
import MonkeyLang.Settings.Basic

/-!
# Carrying out a command line

The words of a command line are counted first, then the settings are made, and
only then is a source read.  An error before that is not reported by the command
itself and is handed on.
-/

namespace MonkeyLang.Command

/-- Everything a command can see. -/
structure World where
  around : Settings.Surroundings
  /-- The text on the ordinary input. -/
  input : Text

/-- Why a command was not carried out. -/
inductive Error where
  | flags (error : FlagError)
  /-- A word that names nothing to do, after the given command. -/
  | unknownVerb (word after : Text)
  | wordCount (found : Nat)
  | settings (error : Settings.LoadError)
  | unreadable (name : Text) (error : FileError)

/-- The wording of an error. -/
def Error.message : Error → Text
  | .flags error => error.message
  | .unknownVerb word after =>
    Text.ofString "unknown command " ++ word.quoted ++ Text.ofString " for " ++ after.quoted
  | .wordCount found => Text.ofString "accepts 1 arg(s), received " ++ Text.ofNat found
  | .settings error => error.message
  | .unreadable name error =>
    Text.ofString "cannot read " ++ name ++ Text.ofString ": " ++ error.message

/-- What a command line asks for. -/
inductive Task where
  | run (path : Text)
  | render (path : Text)
  | version
  /-- The interactive loop. -/
  | converse
  /-- Telling how the program is used. -/
  | help
  deriving DecidableEq, Repr

/-- The task that a word names, and how many words it takes: one for a task on a
file, else none. -/
def Task.ofVerb? (verb : Text) : Option (Task ⊕ (Text → Task)) :=
  if verb = ("run" : Text) then some (.inr .run)
  else if verb = ("parse" : Text) then some (.inr .render)
  else if verb = ("version" : Text) then some (.inl .version)
  else if verb = ("repl" : Text) then some (.inl .converse)
  else none

/-- The task of a command line, for the words that are left beside the one that names
it.  Without such a word it is the interactive loop. -/
def Task.ofWords (named? : Option (Text × (Task ⊕ (Text → Task)))) (words : List Text) :
    Except Error Task :=
  let alone (task : Task) (after : Text) : Except Error Task :=
    match words with
    | [] => .ok task
    | word :: _ => .error (.unknownVerb word after)
  match named? with
  | none => alone .converse "monkey"
  | some (verb, .inl task) => alone task (Text.ofString "monkey " ++ verb)
  | some (_, .inr task) =>
    match words with
    | [path] => .ok (task path)
    | _ => .error (.wordCount words.length)

/-- The settings of a command: those of the source that is used, with the flags
laid over them. -/
def configure (decoders : Decoders) (around : Settings.Surroundings) (flags : Flags) :
    Except Settings.LoadError Settings :=
  match (Settings.choose decoders around flags.settingsFile).1 with
  | .error error => .error error
  | .ok s =>
    let leveled := if flags.level.isEmpty then s else { s with level := flags.level }
    match if flags.level.isEmpty then none else leveled.fault? with
    | some fault => .error (.badLevel fault)
    | none => .ok (if flags.noColor then { leveled with colored := false } else leveled)

/-- What the program knows of its logger: the objection it has to a level, or none. -/
structure Logger where
  objection? : Text → Option Text

/-- The logger that takes the levels of settings and no others. -/
def Logger.listed : Logger where
  objection? level :=
    if Settings.levels.contains level then none else some (Text.ofString "unknown level")

/-- What the program takes from libraries. -/
structure Libraries where
  logger : Logger
  decoders : Decoders
  /-- A line of text in a colour. -/
  render : Tint → Text → Text

/-- Puts the settings of a command in force, once the logger has taken their level. -/
def setUp (logger : Logger) (decoders : Decoders) (around : Settings.Surroundings)
    (flags : Flags) : ExceptT Settings.LoadError (StateM Settings) Unit := do
  let s ← ExceptT.mk (pure (configure decoders around flags))
  match logger.objection? s.level.lower with
  | some objection => throw (.refusedLevel s.level objection)
  | none => set s

/-- The source that a path names, and the name it has in reports.  A dash is the
ordinary input. -/
def fetch (world : World) (path : Text) : Except Error (Text × Text) :=
  if path = ("-" : Text) then .ok (world.input, "<stdin>")
  else
    match world.around.files.read path with
    | .error error => .error (.unreadable path error)
    | .ok source => .ok (source, path)

/-- What the version command shows. -/
def versionEvents : List Event :=
  [.outLine (Text.ofString "monkey " ++ version),
    .outLine (Text.ofString "  Build Date: " ++ buildDate)]

/-- How the program is used. -/
def usage : Text :=
  Text.ofString "monkey [repl | run FILE | parse FILE | version] " ++
    Text.ofString "[--config FILE] [--log-level LEVEL] [--no-color]"

/-- A new interpreter as the settings want it. -/
def newInterpreter (s : Settings) : Interpreter :=
  Interpreter.new s.callLimit.toNat

/-- How text looks, as the settings want it. -/
def Libraries.palette (libraries : Libraries) (s : Settings) : Palette :=
  ⟨s.colored, libraries.render⟩

/-- The settings of the interactive loop. -/
def replSettings (libraries : Libraries) (s : Settings) (session : Text) : ReplSettings :=
  ⟨s.prompt, s.continuation, libraries.palette s, s.banner, session, s.callLimit.toNat⟩

/-- Carries out a task that is no dialogue. -/
def perform (libraries : Libraries) (budget : Nat) (world : World) (s : Settings) :
    Task → Option (Except Error ScriptOutcome)
  | .run path =>
    match fetch world path with
    | .error error => some (.error error)
    | .ok (source, name) =>
      (runScript budget (libraries.palette s) source name (newInterpreter s)).map .ok
  | .render path =>
    match fetch world path with
    | .error error => some (.error error)
    | .ok (source, name) => some (.ok (showScript (libraries.palette s) source name))
  | .version => some (.ok ⟨versionEvents, false⟩)
  | .converse => some (.ok ⟨[], false⟩)
  | .help => some (.ok ⟨[.outLine usage], false⟩)

/-- What a command line asks for, and the settings for it. -/
def prepare (libraries : Libraries) (world : World) (arguments : List Text) :
    Except Error (Task × Settings) :=
  let named? := (verb? arguments).bind fun verb => (Task.ofVerb? verb).map (verb, ·)
  let others := (named?.map fun (verb, _) => withoutVerb verb arguments).getD arguments
  match Line.empty.read others with
  | .error error => .error (.flags error)
  | .ok line =>
    if line.flags.help then .ok (.help, .default)
    else
      match Task.ofWords named? line.words with
      | .error error => .error error
      | .ok task =>
        let attempt := setUp libraries.logger libraries.decoders world.around line.flags
        match attempt.run .default with
        | (.error error, _) => .error (.settings error)
        | (.ok _, s) => .ok (task, s)

/-- Carries out a command line that starts no dialogue. -/
def execute (libraries : Libraries) (budget : Nat) (world : World) (arguments : List Text) :
    Option (Except Error ScriptOutcome) :=
  match prepare libraries world arguments with
  | .error error => some (.error error)
  | .ok (task, s) => perform libraries budget world s task

end MonkeyLang.Command
