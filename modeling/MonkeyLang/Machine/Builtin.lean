import MonkeyLang.Machine.Run
import MonkeyLang.Value.Basic

/-!
# Operators and built-in functions

What operators, indexing and the built-in functions make of values that have been
evaluated and are no errors.  Whatever they cannot do is an error among their
results.
-/

namespace MonkeyLang.Value

/-!
## Operators and indexing

Operators see evaluated operands that are no errors.  Equality works on all
values; any other operator between two values needs both of one class.
Arithmetic is that of 64-bit words in two's complement, division goes towards
zero.
-/

/-- An operator before its operand. -/
def unary (operator : Text) (operand : Value) : Value :=
  if operator = ("!" : Text) then .boolean (!operand.isTruthy)
  else if operator = ("-" : Text) then
    match operand with
    | .integer n => .integer (-n)
    | other => .error (.unknownUnary "-" other.kind)
  else .error (.unknownUnary operator operand.kind)

/-- An operator between two integers. -/
def arithmetic (operator : Text) (a b : Int64) : Value :=
  if operator = ("+" : Text) then .integer (a + b)
  else if operator = ("-" : Text) then .integer (a - b)
  else if operator = ("*" : Text) then .integer (a * b)
  else if operator = ("/" : Text) then
    if b = 0 then .error .divisionByZero else .integer (a / b)
  else if operator = ("<" : Text) then .boolean (decide (a < b))
  else if operator = (">" : Text) then .boolean (decide (b < a))
  else .error (.unknownBinary operator .integer .integer)

/-- An operator between two strings. -/
def concatenation (operator : Text) (a b : Text) : Value :=
  if operator = ("+" : Text) then .string (a ++ b)
  else .error (.unknownBinary operator .string .string)

/-- An operator between two values. -/
def binary (operator : Text) (left right : Value) : Value :=
  if operator = ("==" : Text) then .boolean (left.same right)
  else if operator = ("!=" : Text) then .boolean (!left.same right)
  else if left.kind ≠ right.kind then .error (.typeMismatch operator left.kind right.kind)
  else
    match left, right with
    | .integer a, .integer b => arithmetic operator a b
    | .string a, .string b => concatenation operator a b
    | _, _ => .error (.unknownBinary operator left.kind right.kind)

/-- The element of an array at an index, null outside the array. -/
def element (elements : List Value) (i : Int64) : Value :=
  if i < 0 then .null else elements.getD i.toInt.toNat .null

/-- Indexing of a collection. -/
def index (collection key : Value) : Value :=
  match collection with
  | .array _ elements =>
    match key with
    | .integer i => element elements i
    | other => .error (.badIndex .array other.kind)
  | .hash _ entries =>
    match key.key? with
    | some k => (Table.get? entries k).getD .null
    | none => .error (.unusableKey key.kind)
  | other => .error (.notIndexable other.kind)

end MonkeyLang.Value

/-!
## The built-in functions

Each function checks the number of its arguments before anything else.  None of
them changes an argument: `rest` and `push` make new arrays.
-/

namespace MonkeyLang.CoreFunction

/-- The name a function is bound to. -/
def name : CoreFunction → Text
  | .len => "len"
  | .first => "first"
  | .last => "last"
  | .rest => "rest"
  | .push => "push"
  | .puts => "puts"

/-- All functions, in the order in which they are bound. -/
def all : List CoreFunction := [.len, .first, .last, .rest, .push, .puts]

/-- Applies a function of one array. -/
def onArray (name : Text) (f : List Value → Effect Value) : Native
  | [.array _ elements] => f elements
  | [other] => pure (.error (.arrayWanted name other.kind))
  | arguments => pure (.error (.argumentCount arguments.length 1))

/-- The number of bytes of a string or of elements of an array. -/
def length : Native
  | [.string s] => pure (.integer (Int64.ofNat s.length))
  | [.array _ elements] => pure (.integer (Int64.ofNat elements.length))
  | [other] => pure (.error (.noLength other.kind))
  | arguments => pure (.error (.argumentCount arguments.length 1))

/-- A new array with a value at its end.  On an empty array there is none. -/
def append : Native
  | [.array _ elements, value] =>
    if elements.isEmpty then pure .null else Effect.newArray (elements ++ [value])
  | [other, _] => pure (.error (.arrayWanted "push" other.kind))
  | arguments => pure (.error (.argumentCount arguments.length 2))

/-- Prints each argument on a line. -/
def printLines : Native
  | [] => pure .null
  | argument :: more => do
    Effect.print (argument.inspect ++ [Text.newline])
    printLines more

/-- What a function does. -/
def run : CoreFunction → Native
  | .len => length
  | .first => onArray "first" fun elements => pure (elements.headD .null)
  | .last => onArray "last" fun elements => pure (elements.getLastD .null)
  | .rest => onArray "rest" fun
    | [] => pure .null
    | _ :: tail => Effect.newArray tail
  | .push => append
  | .puts => printLines

/-- The function as a value. -/
def value (f : CoreFunction) : Value := .builtin f.name (.core f)

end MonkeyLang.CoreFunction
