import MonkeyLang.Tree.Basic

/-!
# Values

Integers, booleans, strings and null are equal when they look the same.  Every
other value carries a stamp, given out once when the value is made, and equals
only itself.  A value on its way out of a function is a value too, and so is an
error.

A function holds the frame it was made in by its number; what that frame binds
is read when the function runs.
-/

namespace MonkeyLang

/-!
## Runtime errors

An error is an ordinary value of the language.  It has a cause; the wording of
each cause is fixed here, in terms of the classes of the values involved.
-/

/-- The classes of values. -/
inductive ValueClass where
  | integer | boolean | string | null | returned | error | function | builtin | array | hash
  deriving DecidableEq, Repr

/-- The name of a class in messages. -/
def ValueClass.name : ValueClass → Text
  | .integer => "INTEGER"
  | .boolean => "BOOLEAN"
  | .string => "STRING"
  | .null => "NULL"
  | .returned => "RETURN_VALUE"
  | .error => "ERROR"
  | .function => "FUNCTION"
  | .builtin => "BUILTIN"
  | .array => "ARRAY"
  | .hash => "HASH"

/-- Why an evaluation failed. -/
inductive RuntimeError where
  /-- No frame binds the name. -/
  | unboundName (name : Text)
  /-- A call with the wrong number of arguments. -/
  | argumentCount (got want : Nat)
  /-- A call nested deeper than the limit. -/
  | callDepth (limit : Nat)
  /-- A call of something else than a function; `none` for no value at all. -/
  | notFunction (found : Option ValueClass)
  /-- A hash key of a class without keys. -/
  | unusableKey (found : ValueClass)
  | divisionByZero
  /-- An operator between values of two classes. -/
  | typeMismatch (operator : Text) (left right : ValueClass)
  /-- An operator before a value it does not apply to. -/
  | unknownUnary (operator : Text) (operand : ValueClass)
  /-- An operator between values it does not apply to. -/
  | unknownBinary (operator : Text) (left right : ValueClass)
  /-- An array indexed by something else than an integer. -/
  | badIndex (collection key : ValueClass)
  /-- Indexing of something that has no elements. -/
  | notIndexable (found : ValueClass)
  /-- The length of something that has none. -/
  | noLength (found : ValueClass)
  /-- A built-in function applied to something else than an array. -/
  | arrayWanted (builtin : Text) (found : ValueClass)
  /-- Evaluation of no node at all. -/
  | unknownNode
  /-- An error with a message of its own, made outside the language. -/
  | custom (message : Text)
  deriving DecidableEq, Repr

/-- The wording of a runtime error. -/
def RuntimeError.message : RuntimeError → Text
  | .unboundName name => Text.ofString "identifier not found: " ++ name
  | .argumentCount got want =>
    Text.ofString "wrong number of arguments. got=" ++ Text.ofNat got ++
      Text.ofString ", want=" ++ Text.ofNat want
  | .callDepth limit =>
    Text.ofString "maximum call depth exceeded (" ++ Text.ofNat limit ++ Text.ofString ")"
  | .notFunction none => Text.ofString "not a function: <nil>"
  | .notFunction (some found) => Text.ofString "not a function: " ++ found.name
  | .unusableKey found => Text.ofString "unusable as hash key: " ++ found.name
  | .divisionByZero => Text.ofString "division by zero"
  | .typeMismatch operator left right =>
    Text.ofString "type mismatch: " ++ left.name ++ Text.ofString " " ++ operator ++
      Text.ofString " " ++ right.name
  | .unknownUnary operator operand =>
    Text.ofString "unknown operator: " ++ operator ++ operand.name
  | .unknownBinary operator left right =>
    Text.ofString "unknown operator: " ++ left.name ++ Text.ofString " " ++ operator ++
      Text.ofString " " ++ right.name
  | .badIndex collection key =>
    Text.ofString "index operator not supported: " ++ collection.name ++ Text.ofString "[" ++
      key.name ++ Text.ofString "]"
  | .notIndexable found => Text.ofString "index operator not supported: " ++ found.name
  | .noLength found => Text.ofString "argument to 'len' not supported, got " ++ found.name
  | .arrayWanted builtin found =>
    Text.ofString "argument to '" ++ builtin ++ Text.ofString "' must be ARRAY, got " ++
      found.name
  | .unknownNode => Text.ofString "unknown node type: <nil>"
  | .custom message => message

/-!
## Keys and hashes

Integers, booleans and strings can be keys.  A key has a code of fixed layout: a
class, a word and a text.  The word of a string is its fingerprint; the text
tells strings with the same fingerprint apart, so codes of different keys
differ.

A hash is made by putting pairs in.  It keeps them by the codes of their keys, and
beside them the codes in the order in which they first came.  Nothing but `Hash.set`
keeps the two in step.  A hash that has been made is told by its table: its pairs,
in order.
-/

/-- A value that can be looked up in a hash. -/
inductive Key where
  | integer (n : Int64)
  | boolean (b : Bool)
  | string (s : Text)
  deriving DecidableEq, Repr

/-- The code of a key. -/
structure KeyCode where
  kind : ValueClass
  word : UInt64
  text : Text
  deriving DecidableEq, Repr

/-- The 64-bit Fowler-Noll-Vo hash of a text, variant 1a: each byte is mixed in by
exclusive or before the multiplication. -/
def Text.fingerprint (text : Text) : UInt64 :=
  text.foldl (fun h b => (h ^^^ b.toUInt64) * 1099511628211) 14695981039346656037

/-- The code of a key. -/
def Key.code : Key → KeyCode
  | .integer n => ⟨.integer, n.toUInt64, []⟩
  | .boolean b => ⟨.boolean, if b then 1 else 0, []⟩
  | .string s => ⟨.string, s.fingerprint, s⟩

/-- Keys with entries, each key once, in the order in which the keys were first
put in. -/
abbrev Table (α : Type) := List (Key × α)

namespace Table

variable {α : Type}

/-- The entry of a key. -/
def get? (table : Table α) (key : Key) : Option α :=
  (table.find? fun entry => entry.1.code == key.code).map Prod.snd

/-- Puts an entry in: a new key goes to the end, a key that is there keeps its
place. -/
def set (table : Table α) (key : Key) (value : α) : Table α :=
  match table with
  | [] => [(key, value)]
  | entry :: rest =>
    if entry.1.code == key.code then (key, value) :: rest else entry :: set rest key value

end Table

/-- A hash while it is made. -/
structure Hash (α : Type) where
  /-- The pair under a code. -/
  pairs : KeyCode → Option (Key × α)
  /-- The codes in the order in which they were first put in. -/
  order : List KeyCode

namespace Hash

variable {α : Type}

/-- The hash without pairs. -/
def empty : Hash α := ⟨fun _ => none, []⟩

/-- Puts a pair in, in place of the one under the same code.  A new code goes to the
end of the order. -/
def set (hash : Hash α) (key : Key) (value : α) : Hash α where
  pairs code := if code = key.code then some (key, value) else hash.pairs code
  order := if (hash.pairs key.code).isSome then hash.order else hash.order ++ [key.code]

/-- The value under a key. -/
def get? (hash : Hash α) (key : Key) : Option α :=
  (hash.pairs key.code).map Prod.snd

/-- The pairs in order.  A code of the order without a pair is passed over. -/
def table (hash : Hash α) : Table α :=
  hash.order.filterMap hash.pairs

end Hash

/-! ## The values of the language -/

/-- The number of a frame of bindings. -/
abbrev FrameId := Nat

/-- The number that tells a value from all others. -/
abbrev Stamp := Nat

/-- The functions every interpreter has. -/
inductive CoreFunction where
  | len | first | last | rest | push | puts
  deriving DecidableEq, Repr

/-- What a built-in function runs. -/
inductive BuiltinCode where
  | core (f : CoreFunction)
  /-- A function supplied from outside, by its number. -/
  | supplied (index : Nat)
  deriving DecidableEq, Repr

/-- A value of the language. -/
inductive Value where
  | integer (n : Int64)
  | boolean (b : Bool)
  | string (s : Text)
  | null
  /-- A value that leaves a function. -/
  | returned (stamp : Stamp) (value : Value)
  | error (cause : RuntimeError)
  | function (stamp : Stamp) (parameters : List Token) (body : Block) (frame : FrameId)
  | builtin (name : Text) (code : BuiltinCode)
  | array (stamp : Stamp) (elements : List Value)
  | hash (stamp : Stamp) (entries : List (Key × Value))

instance : Inhabited Value := ⟨.null⟩

/-- The value a key stands for. -/
def Key.value : Key → Value
  | .integer n => .integer n
  | .boolean b => .boolean b
  | .string s => .string s

/-- The text of a key. -/
def Key.inspect : Key → Text
  | .integer n => Text.ofInt n.toInt
  | .boolean true => "true"
  | .boolean false => "false"
  | .string s => s

namespace Value

/-- The class of a value. -/
def kind : Value → ValueClass
  | .integer _ => .integer
  | .boolean _ => .boolean
  | .string _ => .string
  | .null => .null
  | .returned .. => .returned
  | .error _ => .error
  | .function .. => .function
  | .builtin .. => .builtin
  | .array .. => .array
  | .hash .. => .hash

/-- The value is an error. -/
def isError : Value → Bool
  | .error _ => true
  | _ => false

/-- Everything but `false` and null counts as true. -/
def isTruthy : Value → Bool
  | .null => false
  | .boolean b => b
  | _ => true

/-- The key a value is, if it can be one. -/
def key? : Value → Option Key
  | .integer n => some (.integer n)
  | .boolean b => some (.boolean b)
  | .string s => some (.string s)
  | _ => none

/-- The equality of the language. -/
def same : Value → Value → Bool
  | .integer a, .integer b => a == b
  | .boolean a, .boolean b => a == b
  | .string a, .string b => a == b
  | .null, .null => true
  | .returned a _, .returned b _ => a == b
  | .function a .., .function b .. => a == b
  | .builtin _ a, .builtin _ b => a == b
  | .array a _, .array b _ => a == b
  | .hash a _, .hash b _ => a == b
  | _, _ => false

/-- A value as the caller of a function gets it: freed, once, from the mark that
it leaves the function. -/
def landed : Value → Value
  | .returned _ value => value
  | value => value

mutual

/-- The text of a value. -/
def inspect : Value → Text
  | .integer n => Text.ofInt n.toInt
  | .boolean true => "true"
  | .boolean false => "false"
  | .string s => s
  | .null => "null"
  | .returned _ value => value.inspect
  | .error cause => Text.ofString "ERROR: " ++ cause.message
  | .function _ parameters body _ =>
    Text.ofString "fn(" ++ Text.joined ", " (parameters.map Token.literal) ++
      Text.ofString ") \x7b\n" ++ body.render ++ Text.ofString "\n\x7d"
  | .builtin .. => "builtin function"
  | .array _ elements =>
    Text.ofString "[" ++ Text.joined ", " (inspectAll elements) ++ Text.ofString "]"
  | .hash _ entries =>
    Text.ofString "\x7b" ++ Text.joined ", " (inspectEntries entries) ++ Text.ofString "\x7d"

/-- The texts of values. -/
def inspectAll : List Value → List Text
  | [] => []
  | value :: rest => value.inspect :: inspectAll rest

/-- The texts of the entries of a hash. -/
def inspectEntries : List (Key × Value) → List Text
  | [] => []
  | (key, value) :: rest =>
    (key.inspect ++ Text.ofString ": " ++ value.inspect) :: inspectEntries rest

end

end Value

/-- The text of a hash while it is made.  A code of the order without a pair has no
text, and then there is none at all. -/
def Hash.inspect? (hash : Hash Value) : Option Text :=
  (hash.order.mapM hash.pairs).map fun pairs =>
    Text.ofString "\x7b" ++
      Text.joined ", " (pairs.map fun pair =>
        pair.1.inspect ++ Text.ofString ": " ++ pair.2.inspect) ++
      Text.ofString "\x7d"

end MonkeyLang
