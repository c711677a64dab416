import MonkeyLang.Interpreter
import MonkeyLang.Parse.Fault

/-!
# The console

What a user sees is a row of events: a prompt at which a line is asked for, an entry
for the history of lines, text on the ordinary output and text on the error output.
Text for a terminal may be coloured.

A script is a whole source with a name.  It is run for what it prints, or shown
in canonical text, one line for each statement.  Syntax errors and runtime
errors are reported on the error output and count as failures.
-/

namespace MonkeyLang

/-- The version of the program. -/
def version : Text := "v0.1.0-dev"

/-- When the program was built. -/
def buildDate : Text := "unknown"

/-! ## Events -/

/-- One thing that happens in a dialogue. -/
inductive Event where
  | prompt (text : Text)
  | history (entry : Text)
  | out (text : Text)
  | err (text : Text)
  deriving DecidableEq, Repr

namespace Event

/-- A line on the ordinary output. -/
def outLine (text : Text) : Event := .out (text ++ [Text.newline])

/-- A line on the error output. -/
def errLine (text : Text) : Event := .err (text ++ [Text.newline])

/-- Text on the ordinary output, if there is any. -/
def printed (text : Text) : List Event :=
  if text.isEmpty then [] else [.out text]

end Event

/-! ## Colours -/

/-- What a text is, for its colour. -/
inductive Tint where
  | error | value | muted
  deriving DecidableEq, Repr

/-- How text looks on a terminal: whether colours are wanted, and what a line that is
not empty becomes in one. -/
structure Palette where
  colored : Bool
  render : Tint → Text → Text

/-- A text in a colour, one line at a time, if colours are wanted. -/
def Palette.paint (palette : Palette) (tint : Tint) (text : Text) : Text :=
  if !palette.colored || text.isEmpty then text
  else
    Text.joined "\n" (text.lines.map fun line =>
      if line.isEmpty then line else palette.render tint line)

/-- The terminal code of a colour. -/
def Tint.code : Tint → Text
  | .error => "38;2;239;68;68"
  | .value => "38;2;96;165;250"
  | .muted => "3;38;2;107;113;128"

/-- The start of a terminal code. -/
def escapeStart : Text := "\x1b["

/-- A line between terminal codes, with its tabs widened to four spaces. -/
def Tint.escaped (tint : Tint) (line : Text) : Text :=
  escapeStart ++ tint.code ++ Text.ofString "m" ++
    Text.replaceByte '\t'.toUInt8 "    " line ++ escapeStart ++ Text.ofString "0m"

/-! ## Scripts -/

/-- What came of a script. -/
structure ScriptOutcome where
  events : List Event
  failed : Bool

/-- The report of syntax errors on the error output. -/
def reportEvent (palette : Palette) (source name : Text) (errors : List SyntaxError) : Event :=
  .errLine (palette.paint .error (SyntaxError.report source name errors))

/-- Runs a script in the global frame of an interpreter. -/
def runScript (budget : Nat) (palette : Palette) (source name : Text) (ip : Interpreter) :
    Option ScriptOutcome :=
  match parse? source with
  | .error errors => some ⟨[reportEvent palette source name errors], true⟩
  | .ok program =>
    (ip.withoutOutput.evalGlobal budget program).map fun (value, after) =>
      let printed := Event.printed after.output
      if value.isError then
        ⟨printed ++ [.errLine (palette.paint .error value.inspect)], true⟩
      else ⟨printed, false⟩

/-- Shows a script in canonical text. -/
def showScript (palette : Palette) (source name : Text) : ScriptOutcome :=
  match parse? source with
  | .error errors => ⟨[reportEvent palette source name errors], true⟩
  | .ok program => ⟨program.statements.map fun s => .outLine s.render, false⟩

/-!
## The interactive loop

The loop asks for lines and gathers them into units.  A unit is submitted when
it is a command, when it parses, or when it fails to parse for a reason that
more lines cannot mend; an empty line submits what there is.  A submitted unit
is evaluated in the global frame and its value is echoed, unless it ends in a
binding.

Everything between two answers is one step of `Repl.step`, and nothing is kept
between steps but the interpreter and the lines of the unit begun.
-/

/-- How the loop looks and what it runs. -/
structure ReplSettings where
  prompt : Text
  /-- The prompt while a unit has been begun. -/
  continuation : Text
  palette : Palette
  banner : Bool
  /-- The name of the session. -/
  session : Text
  /-- The limit on nested calls, zero for none. -/
  limit : Nat

/-- The answer to a prompt. -/
inductive Answer where
  | line (text : Text)
  /-- The user drops what has been typed. -/
  | interrupt
  deriving DecidableEq, Repr

/-- The state of the loop. -/
structure Repl where
  settings : ReplSettings
  interpreter : Interpreter
  /-- The lines of the unit that has been begun, empty for none. -/
  pending : Text

namespace Repl

/-- What the loop says at its start. -/
def welcome : Text :=
  Text.ofString "Monkey " ++ version ++
    Text.ofString " REPL\nCtrl+C cancels input, Ctrl+D exits. Type :help for commands."

/-- What `:help` shows. -/
def commandList : Text :=
  Text.ofString "REPL commands:\n" ++
    Text.ofString "  :help    Show this help\n" ++
    Text.ofString "  :env     List global bindings\n" ++
    Text.ofString "  :reset   Discard all global bindings\n" ++
    Text.ofString "  :session Print the session id used in log lines\n" ++
    Text.ofString "  :quit    Exit the REPL\n"

/-- The loop at its start. -/
def start (settings : ReplSettings) : Repl :=
  ⟨settings, Interpreter.new settings.limit, []⟩

/-- The prompt for the next line. -/
def prompt (r : Repl) : Text :=
  if r.pending.isEmpty then r.settings.prompt else r.settings.continuation

/-- The text is a command rather than a program. -/
def isCommand (unit : Text) : Bool :=
  unit.trimmed.startsWith ":"

/-- More lines might still make a program of the unit. -/
def wantsMore (unit : Text) : Bool :=
  SyntaxError.allIncomplete (parse unit).2

/-- The unit that a line makes of the pending lines, and whether it is
submitted. -/
def gather (pending line : Text) : Text × Bool :=
  if !pending.isEmpty && line.isBlank then (pending, true)
  else
    let unit := if pending.isEmpty then line else pending ++ Text.newline :: line
    (unit, isCommand unit || !wantsMore unit)

/-- What a command leads to: the loop after it, or nothing when it ends the loop,
and what is seen meanwhile. -/
def obey (r : Repl) (name : Text) : List Event × Option Repl :=
  if name = (":quit" : Text) ∨ name = (":q" : Text) then ([], none)
  else if name = (":help" : Text) then ([.out commandList], some r)
  else if name = (":env" : Text) then
    let row (binding : Text × Value) : Event :=
      .outLine (binding.1 ++ Text.ofString " = " ++
        r.settings.palette.paint .value binding.2.inspect.squeezed)
    ((r.interpreter.bindings Frames.global).map row, some r)
  else if name = (":reset" : Text) then
    ([], some { r with interpreter := Interpreter.new r.settings.limit })
  else if name = (":session" : Text) then ([.outLine r.settings.session], some r)
  else
    ([.outLine (Text.ofString "unknown command " ++ name ++
      Text.ofString ". Type :help for commands.")], some r)

/-- What the evaluation of a program leads to. -/
def evaluate (budget : Nat) (r : Repl) (program : Program) : Option (List Event × Repl) :=
  (r.interpreter.withoutOutput.evalGlobal budget program).map fun (value, after) =>
    let palette := r.settings.palette
    let echo : List Event :=
      if value.isError then [.errLine (palette.paint .error value.inspect)]
      else if program.endsWithBind then []
      else [.outLine (palette.paint .value value.inspect)]
    (Event.printed after.output ++ echo, { r with interpreter := after })

/-- What a submitted unit leads to: the loop after it, or nothing when it ends
the loop, and what is seen meanwhile. -/
def submit (budget : Nat) (r : Repl) (unit : Text) : Option (List Event × Option Repl) :=
  if unit.isBlank then some ([], some r)
  else if isCommand unit then some (r.obey unit.trimmed.lower)
  else
    let entry := Event.history (Text.replaceByte Text.newline " " unit)
    match parse? unit with
    | .error errors =>
      some ([entry, reportEvent r.settings.palette unit "<repl>" errors], some r)
    | .ok program =>
      (r.evaluate budget program).map fun (events, after) => (entry :: events, some after)

/-- What an answer leads to. -/
def step (budget : Nat) (r : Repl) : Answer → Option (List Event × Option Repl)
  | .interrupt => some ([], some { r with pending := [] })
  | .line line =>
    match gather r.pending line with
    | (unit, true) => submit budget { r with pending := [] } unit
    | (unit, false) => some ([], some { r with pending := unit })

/-- The events of the loop for the given answers, which end the input, and the
number of answers left over when the loop is told to end. -/
def follow (budget : Nat) (r : Repl) : List Answer → Option (List Event × Nat)
  | [] => some ([.prompt r.prompt, .outLine []], 0)
  | answer :: rest =>
    match r.step budget answer with
    | none => none
    | some (events, none) => some (.prompt r.prompt :: events, rest.length)
    | some (events, some after) =>
      match after.follow budget rest with
      | none => none
      | some (more, unread) => some (.prompt r.prompt :: events ++ more, unread)

/-- What the loop shows before its first prompt. -/
def greeting (settings : ReplSettings) : List Event :=
  if settings.banner then [.outLine (settings.palette.paint .muted welcome)] else []

/-- A whole dialogue. -/
def dialogue (budget : Nat) (settings : ReplSettings) (answers : List Answer) :
    Option (List Event × Nat) :=
  ((start settings).follow budget answers).map fun (events, unread) =>
    (greeting settings ++ events, unread)

end Repl
end MonkeyLang
