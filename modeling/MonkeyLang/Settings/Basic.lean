import MonkeyLang.Files.Tree
import MonkeyLang.Text.Quoted

/-!
# Settings

Every setting has a default.  A document of settings changes some of them; after
that the limit on nested calls must not be negative and the level of logging
must be one of those listed, in upper or lower case.
-/

namespace MonkeyLang

/-- The settings of the program. -/
structure Settings where
  prompt : Text
  continuation : Text
  /-- The file that keeps the lines typed, empty for none. -/
  historyFile : Text
  colored : Bool
  banner : Bool
  /-- The level of logging. -/
  level : Text
  /-- The limit on nested calls, zero for none. -/
  callLimit : Int
  deriving DecidableEq, Repr

namespace Settings

/-- The settings when nothing is said. -/
def default : Settings where
  prompt := ">> "
  continuation := ".. "
  historyFile := "~/.monkey_history"
  colored := true
  banner := true
  level := "warning"
  callLimit := 10000

/-- The levels of logging. -/
def levels : List Text :=
  ["debug", "verbose", "info", "warning", "error", "critical", "fatal"]

/-- Why settings cannot be used. -/
inductive Fault where
  | negativeLimit (limit : Int)
  | unknownLevel (level : Text)
  deriving DecidableEq, Repr

/-- The wording of a fault. -/
def Fault.message : Fault → Text
  | .negativeLimit limit =>
    Text.ofString "eval.max_call_depth must be >= 0, got " ++ Text.ofInt limit
  | .unknownLevel level =>
    Text.ofString "log.level " ++ level.quoted ++ Text.ofString " is not one of " ++
      Text.joined ", " levels

/-- The first reason why settings cannot be used. -/
def fault? (s : Settings) : Option Fault :=
  if s.callLimit < 0 then some (.negativeLimit s.callLimit)
  else if levels.contains s.level.lower then none
  else some (.unknownLevel s.level)

end Settings

/-!
## Entries of a settings document

A settings document has sections with entries.  Each format writes scalars in
its own way; what matters here is only which types of setting a scalar can be
read as.
-/

/-- A scalar of a document, read as each type of setting. -/
structure Scalar where
  text? : Option Text
  truth? : Option Bool
  number? : Option Int

/-- What an entry does to settings. -/
inductive Assignment where
  /-- There is no such setting. -/
  | unknown
  /-- The setting has another type. -/
  | mismatch
  | changed (settings : Settings)

namespace Assignment

/-- The settings with a scalar put in, if it could be read. -/
def ofRead {α : Type} (read : Option α) (put : α → Settings) : Assignment :=
  match read with
  | none => .mismatch
  | some a => .changed (put a)

end Assignment

namespace Settings

/-- The sections of a document. -/
def sections : List Text := ["repl", "log", "eval"]

/-- The names of all settings, with their sections. -/
def fields : List (Text × Text) :=
  [("repl", "prompt"), ("repl", "continuation_prompt"), ("repl", "history_file"),
    ("repl", "color"), ("repl", "banner"), ("log", "level"), ("eval", "max_call_depth")]

/-- The settings after one entry of a section. -/
def assign (s : Settings) (division name : Text) (scalar : Scalar) : Assignment :=
  if division = ("repl" : Text) then
    if name = ("prompt" : Text) then
      .ofRead scalar.text? fun prompt => { s with prompt }
    else if name = ("continuation_prompt" : Text) then
      .ofRead scalar.text? fun continuation => { s with continuation }
    else if name = ("history_file" : Text) then
      .ofRead scalar.text? fun historyFile => { s with historyFile }
    else if name = ("color" : Text) then
      .ofRead scalar.truth? fun colored => { s with colored }
    else if name = ("banner" : Text) then
      .ofRead scalar.truth? fun banner => { s with banner }
    else .unknown
  else if division = ("log" : Text) then
    if name = ("level" : Text) then .ofRead scalar.text? fun level => { s with level }
    else .unknown
  else if division = ("eval" : Text) then
    if name = ("max_call_depth" : Text) then
      .ofRead scalar.number? fun callLimit => { s with callLimit }
    else .unknown
  else .unknown

end Settings

/-!
## Decoders

Documents are decoded by libraries.  A decoder lays a document over settings; what it
objects to it says in words of its own.
-/

/-- Why a decoder of a stream of documents stops. -/
inductive StreamError where
  /-- The stream has ended, without a further document. -/
  | ended
  | failed (reason : Text)

/-- The decoders of settings documents. -/
structure Decoders where
  /-- The settings after a TOML document, with those of its keys that are no settings;
  or what is wrong with the document. -/
  toml : Text → Settings → Except Text (Settings × List Text)
  /-- The settings after the first YAML document of a text, and why it was not read to
  its end.  A key that is no setting is a failure. -/
  yaml : Text → Settings → Settings × Option StreamError

/-- Why a document gives no settings. -/
inductive DecodeFault where
  /-- The decoder does not take the document, for the reason it gives. -/
  | refused (reason : Text)
  | unknownKeys (keys : List Text)

/-- The wording of a fault. -/
def DecodeFault.message : DecodeFault → Text
  | .refused reason => reason
  | .unknownKeys keys => Text.ofString "unknown keys: " ++ Text.joined ", " keys

namespace Decoders

/-- The settings after a TOML document in which every key is a setting. -/
def readToml (decoders : Decoders) (document : Text) (s : Settings) :
    Except DecodeFault Settings :=
  match decoders.toml document s with
  | .error reason => .error (.refused reason)
  | .ok (after, keys) => if keys.isEmpty then .ok after else .error (.unknownKeys keys)

/-- The settings after a YAML document.  There may be none. -/
def readYaml (decoders : Decoders) (document : Text) (s : Settings) :
    Except DecodeFault Settings :=
  match decoders.yaml document s with
  | (_, some (.failed reason)) => .error (.refused reason)
  | (after, _) => .ok after

end Decoders

/-!
## Where settings come from

Settings come from a file that is named, from the one that an environment
variable names, from the first of three files in the home directory, or from the
defaults, in this order.  A source that is chosen and cannot be used is an error;
no later one takes its place.
-/

namespace Settings

/-- The surroundings of the program. -/
structure Surroundings where
  files : FileTree
  /-- The home directory, empty when it is not known. -/
  home : Text
  /-- The value of the environment variable that names a settings file, empty when
  it is not set. -/
  named : Text

/-- The environment variable that names a settings file. -/
def variableName : Text := "MONKEY_CONFIG"

/-- Why no settings could be had from a file. -/
inductive LoadError where
  | unreadable (error : FileError)
  | unsupported (path extension : Text)
  | undecodable (path : Text) (fault : DecodeFault)
  | invalid (path : Text) (fault : Fault)
  /-- The level given apart from any file cannot be used. -/
  | badLevel (fault : Fault)
  /-- The logger does not take the level, for the reason it gives. -/
  | refusedLevel (level objection : Text)

/-- The wording of an error. -/
def LoadError.message : LoadError → Text
  | .unreadable error => Text.ofString "reading config: " ++ error.message
  | .unsupported path extension =>
    Text.ofString "config " ++ path ++ Text.ofString ": unsupported extension " ++
      extension.quoted ++ Text.ofString " (want .toml, .yaml or .yml)"
  | .undecodable path fault =>
    Text.ofString "config " ++ path ++ Text.ofString ": " ++ fault.message
  | .invalid path fault =>
    Text.ofString "config " ++ path ++ Text.ofString ": " ++ fault.message
  | .badLevel fault => Text.ofString "--log-level: " ++ fault.message
  | .refusedLevel level objection =>
    Text.ofString "log level " ++ level.quoted ++ Text.ofString ": " ++ objection

/-- What comes of laying a document over the defaults, by the extension of its file;
none for an extension that belongs to no decoder. -/
def decode? (decoders : Decoders) (extension document : Text) :
    Option (Except DecodeFault Settings) :=
  if extension = (".toml" : Text) then some (decoders.readToml document default)
  else if extension = (".yaml" : Text) || extension = (".yml" : Text) then
    some (decoders.readYaml document default)
  else none

/-- The settings of a file. -/
def ofFile (decoders : Decoders) (files : FileTree) (path : Text) :
    Except LoadError Settings :=
  match files.read path with
  | .error error => .error (.unreadable error)
  | .ok document =>
    let extension := (Path.extension path).lower
    match decode? decoders extension document with
    | none => .error (.unsupported path extension)
    | some (.error fault) => .error (.undecodable path fault)
    | some (.ok s) =>
      match s.fault? with
      | some fault => .error (.invalid path fault)
      | none => .ok s

/-- The settings files of a home directory, the first one that is there counts. -/
def candidates (home : Text) : List Text :=
  let directory := Path.join [home, ".config", "monkey"]
  [Text.ofString "config.toml", "config.yaml", "config.yml"].map fun name =>
    Path.join [directory, name]

/-- The settings file when none is named, empty for none. -/
def standardFile (around : Surroundings) : Text :=
  if !around.named.isEmpty then around.named
  else if around.home.isEmpty then []
  else ((candidates around.home).find? around.files.isFile).getD []

/-- The settings file that is used, empty for none. -/
def chosen (around : Surroundings) (path : Text) : Text :=
  if path.isEmpty then standardFile around else path

/-- The settings that are used, and the file they come from, empty for none. -/
def choose (decoders : Decoders) (around : Surroundings) (path : Text) :
    Except LoadError Settings × Text :=
  let used := chosen around path
  (if used.isEmpty then .ok default else ofFile decoders around.files used, used)

/-- A path whose leading tilde stands for the home directory. -/
def withHome (home path : Text) : Text :=
  if (path = ("~" : Text) || path.startsWith "~/") && !home.isEmpty then
    Path.join [home, path.drop 1]
  else path

end Settings
end MonkeyLang
