import MonkeyLang.Text.Quoted
import MonkeyLang.Token.Basic

/-!
# Syntax errors

A syntax error has a cause and the token that gave rise to it.  It is incomplete
when that token ends the source, for then more input might still make a program
of it.  Errors are summed up in messages or reported with the source lines they
stand on.
-/

namespace MonkeyLang

/-- Why a token cannot stand where it stands. -/
inductive Fault where
  /-- Another kind of token was required. -/
  | expected (wanted found : Kind)
  /-- No expression starts with this kind of token. -/
  | noOperand (found : Kind)
  /-- The digits name no 64-bit integer. -/
  | badInteger (literal : Text)
  /-- The piece of source is no token at all. -/
  | illegal (literal : Text)
  deriving DecidableEq, Repr

/-- The wording of a fault. -/
def Fault.message : Fault → Text
  | .expected wanted found =>
    Text.ofString "expected next token to be " ++ wanted.name ++ Text.ofString ", got " ++
      found.name ++ Text.ofString " instead"
  | .noOperand found =>
    Text.ofString "no prefix parse function for " ++ found.name ++ Text.ofString " found"
  | .badInteger literal =>
    Text.ofString "could not parse " ++ literal.quoted ++ Text.ofString " as integer"
  | .illegal literal => Text.ofString "illegal token " ++ literal.quoted

/-- A fault at a token. -/
structure SyntaxError where
  fault : Fault
  token : Token
  deriving DecidableEq, Repr

namespace SyntaxError

/-- The wording of a syntax error. -/
def message (e : SyntaxError) : Text := e.fault.message

/-- More input might still mend the error. -/
def isIncomplete (e : SyntaxError) : Bool := e.token.endsSource

end SyntaxError

/-!
## Reports of syntax errors

A report shows each error as a header, the source line it stands on and a caret
under its column.  Reports are made from notes, which hold only what is shown,
so that they can be written for errors from anywhere: a place outside the source
is moved to the nearest place inside.
-/

/-- What a report shows of an error. -/
structure Note where
  message : Text
  line : Int
  column : Int
  incomplete : Bool

/-- The note of a syntax error. -/
def SyntaxError.note (e : SyntaxError) : Note :=
  ⟨e.message, e.token.position.line, e.token.position.column, e.isIncomplete⟩

namespace Note

/-- The messages of notes, one on each line. -/
def summary (notes : List Note) : Text :=
  Text.joined "\n" (notes.map message)

/-- More input might still mend everything: there are notes, and all of them are
incomplete. -/
def allIncomplete (notes : List Note) : Bool :=
  !notes.isEmpty && notes.all incomplete

/-- The number in the range from one to `most` that is nearest to `n`. -/
def clamp (n : Int) (most : Nat) : Nat :=
  min (max n 1).toNat most

/-- The numeral of a number, filled up with spaces on the left to four places. -/
def lineLabel (n : Nat) : Text :=
  let numeral := Text.ofNat n
  List.replicate (4 - numeral.length) ' '.toUInt8 ++ numeral

/-- The snippet of a note: header, blank line, source line, caret line. -/
def snippet (source name : Text) (note : Note) : Text :=
  let lines := source.lines
  let line := clamp note.line lines.length
  let text := lines.getD (line - 1) []
  let column := clamp note.column (text.length + 1)
  let place : Text := if name.isEmpty then [] else Text.ofString " in " ++ name
  Text.ofString "PARSE ERROR" ++ place ++ Text.ofString " at " ++ Text.ofNat line ++
    Text.ofString ":" ++ Text.ofNat column ++ Text.ofString ": " ++ note.message ++
    Text.ofString "\n\n" ++ lineLabel line ++ Text.ofString " | " ++ text ++
    Text.ofString "\n     | " ++ List.replicate (column - 1) ' '.toUInt8 ++
    Text.ofString "^\n"

/-- All snippets, a blank line between neighbours. -/
def report (source name : Text) (notes : List Note) : Text :=
  Text.joined "\n" (notes.map (snippet source name))

end Note

namespace SyntaxError

/-- The messages of syntax errors, one on each line. -/
def summary (errors : List SyntaxError) : Text :=
  Note.summary (errors.map note)

/-- More input might still make a program of the source. -/
def allIncomplete (errors : List SyntaxError) : Bool :=
  Note.allIncomplete (errors.map note)

/-- The report of all syntax errors of a source. -/
def report (source name : Text) (errors : List SyntaxError) : Text :=
  Note.report source name (errors.map note)

end SyntaxError
end MonkeyLang
