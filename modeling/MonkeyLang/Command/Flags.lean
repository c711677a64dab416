import MonkeyLang.Text.Quoted

/-!
# Flags and words of a command line

Flags may stand anywhere before a double dash, with their values behind an equals
sign or as the next argument.  All other arguments are words, and so are all after
a double dash.  The first word may name what to do; it is looked for before the
flags are read, and is then taken out of the arguments.
-/

namespace MonkeyLang.Command

/-- The flags of a command line. -/
structure Flags where
  /-- The settings file, empty for none. -/
  settingsFile : Text
  /-- The level of logging, empty for the one in the settings. -/
  level : Text
  noColor : Bool
  /-- Only tell how the program is used. -/
  help : Bool

/-- Why a command line cannot be read. -/
inductive FlagError where
  | badSyntax (argument : Text)
  | unknownFlag (name : Text)
  /-- A letter that is no flag, before the letters behind it. -/
  | unknownLetter (letter : UInt8) (behind : Text)
  | valueMissing (name : Text)
  | notBoolean (value flag : Text)

/-- The wording of an error. -/
def FlagError.message : FlagError → Text
  | .badSyntax argument => Text.ofString "bad flag syntax: " ++ argument
  | .unknownFlag name => Text.ofString "unknown flag: --" ++ name
  | .unknownLetter letter behind =>
    Text.ofString "unknown shorthand flag: " ++ Text.quotedChar (Char.ofUInt8 letter) ++
      Text.ofString " in -" ++ letter :: behind
  | .valueMissing name => Text.ofString "flag needs an argument: --" ++ name
  | .notBoolean value flag =>
    Text.ofString "invalid argument " ++ value.quoted ++ Text.ofString " for \"" ++ flag ++
      Text.ofString "\" flag: strconv.ParseBool: parsing " ++ value.quoted ++
      Text.ofString ": invalid syntax"

/-- A command line that has been read. -/
structure Line where
  flags : Flags
  words : List Text

/-- The command line without arguments. -/
def Line.empty : Line := ⟨⟨[], [], false, false⟩, []⟩

/-- The truth value of a text. -/
def truth? (text : Text) : Option Bool :=
  if [Text.ofString "1", "t", "T", "true", "TRUE", "True"].contains text then some true
  else if [Text.ofString "0", "f", "F", "false", "FALSE", "False"].contains text then some false
  else none

/-- The truth value of a text that is given to a flag. -/
def truthFor (flag value : Text) : Except FlagError Bool :=
  match truth? value with
  | some b => .ok b
  | none => .error (.notBoolean value flag)

/-- The names of the flags that take a text. -/
def textFlags : List Text := ["config", "log-level"]

/-- The flags with the value of one that takes a text. -/
def Flags.setText (flags : Flags) (name value : Text) : Flags :=
  if name = ("config" : Text) then { flags with settingsFile := value }
  else { flags with level := value }

/-- The flags with the value of the one that turns colours off. -/
def Flags.setNoColor (flags : Flags) (value : Text) : Except FlagError Flags :=
  (truthFor "--no-color" value).map fun noColor => { flags with noColor }

/-- The flags with the value of the one that asks for help. -/
def Flags.setHelp (flags : Flags) (value : Text) : Except FlagError Flags :=
  (truthFor "-h, --help" value).map fun help => { flags with help }

/-- The name of a flag and its value behind an equals sign. -/
def cutFlag (body : Text) : Text × Option Text :=
  let (name, rest) := body.span (· != '='.toUInt8)
  match rest with
  | [] => (name, none)
  | _ :: value => (name, some value)

/-- Reads the letters behind a single dash.  Letters that start with a word for the
tools that test programs are passed over. -/
def Flags.readLetters (flags : Flags) : Text → Except FlagError Flags
  | [] => .ok flags
  | letter :: rest =>
    if Text.startsWith (letter :: rest) "test." then .ok flags
    else if letter ≠ 'h'.toUInt8 then .error (.unknownLetter letter rest)
    else if Text.startsWith rest "=" && 1 < rest.length then flags.setHelp (rest.drop 1)
    else Flags.readLetters { flags with help := true } rest

/-- Reads the arguments of a command line. -/
def Line.read : Line → List Text → Except FlagError Line
  | line, [] => .ok line
  | line, argument :: rest =>
    if argument = ("--" : Text) then .ok { line with words := line.words ++ rest }
    else if argument.startsWith "---" || argument.startsWith "--=" then
      .error (.badSyntax argument)
    else if argument.startsWith "--" then
      let (name, value?) := cutFlag (argument.drop 2)
      if textFlags.contains name then
        match value? with
        | some value => Line.read { line with flags := line.flags.setText name value } rest
        | none =>
          match rest with
          | value :: after =>
            Line.read { line with flags := line.flags.setText name value } after
          | [] => .error (.valueMissing name)
      else if name = ("no-color" : Text) then
        match line.flags.setNoColor (value?.getD "true") with
        | .ok flags => Line.read { line with flags } rest
        | .error error => .error error
      else if name = ("help" : Text) then
        match line.flags.setHelp (value?.getD "true") with
        | .ok flags => Line.read { line with flags } rest
        | .error error => .error error
      else .error (.unknownFlag name)
    else if argument.startsWith "-" && 1 < argument.length then
      match line.flags.readLetters (argument.drop 1) with
      | .ok flags => Line.read { line with flags } rest
      | .error error => .error error
    else Line.read { line with words := line.words ++ [argument] } rest

/-- The next argument is passed over in the search for a word that names what to do.
Of the flags with dashes and no equals sign, only the one that turns colours off is
known there to take no value. -/
def takesNext (argument : Text) : Bool :=
  !argument.contains '='.toUInt8 &&
    ((argument.startsWith "--" && argument ≠ ("--no-color" : Text)) ||
      (argument.startsWith "-" && argument.length == 2))

/-- A word that may name what to do. -/
def isVerb (argument : Text) : Bool :=
  !argument.isEmpty && !argument.startsWith "-"

/-- The word that may name what to do. -/
def verb? : List Text → Option Text
  | [] => none
  | [argument] => if isVerb argument then some argument else none
  | argument :: next :: rest =>
    if argument = ("--" : Text) then none
    else if takesNext argument then verb? rest
    else if isVerb argument then some argument
    else verb? (next :: rest)

/-- The arguments without the word that names what to do. -/
def withoutVerb (verb : Text) : List Text → List Text
  | [] => []
  | [argument] => if argument = verb then [] else [argument]
  | argument :: next :: rest =>
    if argument = ("--" : Text) then argument :: next :: rest
    else if takesNext argument then argument :: next :: withoutVerb verb rest
    else if argument = verb then next :: rest
    else argument :: withoutVerb verb (next :: rest)

end MonkeyLang.Command
