import MonkeyLang.Settings.Yaml.Scalar

/-!
# Tokens of YAML

A scanner turns a document into tokens.  Indentation shows as tokens of its own, and
so does the start of a key, which is known only when the colon behind it has been
found: until then a token that may be a key is kept in mind, and the token that says
so is put in before it.  Tokens are therefore handed out with a delay, and always at
least two further ones have been read by then.

All faults are alike: there are no tokens from there on.
-/

namespace MonkeyLang.Yaml

/-- A token of a document. -/
inductive Token where
  | finish
  | documentStart
  | documentEnd
  /-- The version of the format. -/
  | version (major minor : Nat)
  /-- A handle that abbreviates the start of tags. -/
  | handle (name start : List Char)
  | sequenceStart
  | mappingStart
  /-- The end of a sequence or mapping shown by indentation. -/
  | blockEnd
  | flowSequenceStart
  | flowSequenceEnd
  | flowMappingStart
  | flowMappingEnd
  | dash
  | comma
  | key
  | value
  | mention (name : List Char)
  | anchor (name : List Char)
  | tag (handle rest : List Char)
  | scalar (text : List Char) (isPlain : Bool)
  deriving DecidableEq, Repr

/-- A token that may turn out to be a key. -/
structure KeyStart where
  /-- Nothing but a key can stand here. -/
  required : Bool
  /-- The number of tokens before it. -/
  number : Nat
  index : Nat
  line : Nat
  column : Nat

/-- A document that is turned into tokens. -/
structure Scanner where
  reader : Reader
  /-- The tokens not yet handed out. -/
  queue : List Token
  /-- The number of tokens handed out. -/
  taken : Nat
  /-- The indentation of the innermost collection, and those around it. -/
  indent : Int
  outer : List Int
  /-- A key may start here. -/
  keyAllowed : Bool
  /-- What may be a key, in the innermost flow collection and in those around it. -/
  keyStart? : Option KeyStart
  outerKeys : List (Option KeyStart)

namespace Scanner

/-- A scanner at the start of a document. -/
def start (text : List Char) : Scanner :=
  ⟨Reader.start text, [], 0, -1, [], true, none, []⟩

/-- Inside a flow collection. -/
def inFlow (s : Scanner) : Bool := !s.outerKeys.isEmpty

/-- Adds a token. -/
def push (token : Token) (s : Scanner) : Scanner :=
  { s with queue := s.queue ++ [token] }

/-- Adds a token for the given number of characters at hand. -/
def pushMark (token : Token) (width : Nat) (s : Scanner) : Scanner :=
  { s with reader := s.reader.advance width }.push token

/-- Adds a token before the one with the given number. -/
def insert (number : Nat) (token : Token) (s : Scanner) : Scanner :=
  let place := number - s.taken
  { s with queue := s.queue.take place ++ token :: s.queue.drop place }

/-- Passes blanks, comments and the ends of lines up to the next token, with the given
number of steps.  A tab is no indentation. -/
def toNextToken : Nat → Scanner → Scanner
  | 0, s => s
  | n + 1, s =>
    let passes (c : Char) : Bool := c == ' ' || ((s.inFlow || !s.keyAllowed) && c == '\t')
    let r := s.reader.skipWhile passes
    let r := if r.sees '#' then r.skipComments (r.rest.length + 1) else r
    if r.head?.any isBreak then
      toNextToken n { s with reader := r.skipBreak, keyAllowed := s.keyAllowed || !s.inFlow }
    else { s with reader := r }

/-- Ends the collections that lie deeper than the given column. -/
def unroll (column : Int) (s : Scanner) : Scanner :=
  if s.inFlow then s
  else
    let rec close : List Int → Int → List Token → List Token × Int × List Int
      | [], indent, tokens => (tokens, indent, [])
      | around :: rest, indent, tokens =>
        if column < indent then close rest around (.blockEnd :: tokens)
        else (tokens, indent, around :: rest)
    let (ends, indent, outer) := close s.outer s.indent []
    { s with queue := s.queue ++ ends, indent, outer }

/-- Starts a collection at a column that lies deeper than the innermost one, before
the token with the given number. -/
def roll (column number : Nat) (token : Token) (s : Scanner) : Scanner :=
  if !s.inFlow && s.indent < (column : Int) then
    { s with indent := column, outer := s.indent :: s.outer }.insert number token
  else s

/-- The number of the next token. -/
def nextNumber (s : Scanner) : Nat := s.taken + s.queue.length

/-- Gives up what may be a key, unless it has to be one. -/
def dropKey? (s : Scanner) : Option Scanner :=
  match s.keyStart? with
  | some k => if k.required then none else some { s with keyStart? := none }
  | none => some s

/-- Keeps in mind that the next token may be a key. -/
def saveKey? (s : Scanner) : Option Scanner :=
  if s.keyAllowed then do
    let r := s.reader
    let required := !s.inFlow && s.indent = (r.column : Int)
    let s' ← s.dropKey?
    return { s' with
      keyStart? := some ⟨required, s.nextNumber, r.index, r.line, r.column⟩ }
  else some s

/-- A key ends on the line on which it starts, and is not too long. -/
def isLate (k : KeyStart) (s : Scanner) : Bool :=
  k.line < s.reader.line || k.index + 1024 < s.reader.index

/-- The end of the document. -/
def fetchFinish? (s : Scanner) : Option Scanner := do
  let r := s.reader
  let r := if r.column = 0 then r else { r with column := 0, line := r.line + 1 }
  let s ← ({ s with reader := r }.unroll (-1)).dropKey?
  return { s with keyAllowed := false }.push .finish

/-- The start or the end of a document among several. -/
def fetchBoundary? (token : Token) (s : Scanner) : Option Scanner := do
  let s ← (s.unroll (-1)).dropKey?
  return { s with keyAllowed := false }.pushMark token 3

/-- The start of a flow collection. -/
def fetchFlowStart? (token : Token) (s : Scanner) : Option Scanner := do
  let s ← s.saveKey?
  return { s with
    keyStart? := none
    outerKeys := s.keyStart? :: s.outerKeys
    keyAllowed := true }.pushMark token 1

/-- The end of a flow collection. -/
def fetchFlowEnd? (token : Token) (s : Scanner) : Option Scanner := do
  let s ← s.dropKey?
  let s :=
    match s.outerKeys with
    | [] => s
    | keyStart? :: outerKeys => { s with keyStart?, outerKeys }
  return { s with keyAllowed := false }.pushMark token 1

/-- A comma. -/
def fetchComma? (s : Scanner) : Option Scanner := do
  let s ← s.dropKey?
  return { s with keyAllowed := true }.pushMark .comma 1

/-- A dash before an element of a sequence. -/
def fetchDash? (s : Scanner) : Option Scanner :=
  if !s.inFlow && !s.keyAllowed then none
  else do
    let s ← (s.roll s.reader.column s.nextNumber .sequenceStart).dropKey?
    return { s with keyAllowed := true }.pushMark .dash 1

/-- A question mark before a key. -/
def fetchKey? (s : Scanner) : Option Scanner :=
  if !s.inFlow && !s.keyAllowed then none
  else do
    let s ← (s.roll s.reader.column s.nextNumber .mappingStart).dropKey?
    return { s with keyAllowed := !s.inFlow }.pushMark .key 1

/-- A colon before a value. -/
def fetchValue? (s : Scanner) : Option Scanner :=
  match s.keyStart? with
  | some k =>
    if !s.isLate k then
      let s := (s.insert k.number .key).roll k.column k.number .mappingStart
      some ({ s with keyStart? := none, keyAllowed := false }.pushMark .value 1)
    else if k.required then none
    else complex { s with keyStart? := none }
  | none => complex s
where
  /-- A colon behind a key that is marked by a question mark or left out. -/
  complex (s : Scanner) : Option Scanner :=
    if !s.inFlow && !s.keyAllowed then none
    else
      let s := s.roll s.reader.column s.nextNumber .mappingStart
      some ({ s with keyAllowed := !s.inFlow }.pushMark .value 1)

/-- Adds a token that was read from the characters at hand, and may be a key. -/
def fetchWord? (read? : Reader → Option (Token × Reader)) (s : Scanner) : Option Scanner := do
  let s ← s.saveKey?
  let (token, reader) ← read? s.reader
  return { s with reader, keyAllowed := false }.push token

/-- Reads the name of an anchor. -/
def readName? (token : List Char → Token) (r : Reader) : Option (Token × Reader) :=
  let (name, after) := r.skip.readWhile isNameChar
  if name.isEmpty then none
  else if endsWord after.rest || after.head?.any "?:,]\x7d%@\x60".toList.contains then
    some (token name, after)
  else none

/-- The characters of a tag. -/
def isTagChar (c : Char) : Bool :=
  isNameChar c || ";/?:@&=+$,.!~*'()[]%".toList.contains c

/-- Reads the handle of a tag. -/
def readHandle (r : Reader) : List Char × Reader :=
  let (name, after) := r.skip.readWhile isNameChar
  if after.sees '!' then ('!' :: name ++ ['!'], after.skip) else ('!' :: name, after)

/-- Reads a tag. -/
def readTag? (r : Reader) : Option (Token × Reader) :=
  let ended (token : Token) (after : Reader) : Option (Token × Reader) :=
    if endsWord after.rest then some (token, after) else none
  match r.rest with
  | '!' :: '<' :: _ =>
    let (name, after) := (r.advance 2).readWhile isTagChar
    if name.isEmpty || !after.sees '>' then none else ended (.tag [] name) after.skip
  | _ =>
    let (handle, after) := readHandle r
    let (rest, end_) := after.readWhile isTagChar
    if handle.length > 1 && handle.getLast? == some '!' then
      if rest.isEmpty then none else ended (.tag handle rest) end_
    else
      let name := handle.drop 1 ++ rest
      ended (if name.isEmpty then .tag [] ['!'] else .tag ['!'] name) end_

/-- A plain scalar.  After one that ends on a later line a key may start. -/
def fetchPlain? (s : Scanner) : Option Scanner := do
  let s ← s.saveKey?
  let r := s.reader
  let (text, broken, reader) ←
    plain? s.inFlow (s.indent + 1) (r.rest.length + 1) [] Gap.empty r
  return { s with reader, keyAllowed := broken }.push (.scalar text true)

/-- A block of lines. -/
def fetchBlock? (folds : Bool) (s : Scanner) : Option Scanner := do
  let s ← s.dropKey?
  let (text, reader) ← block? folds s.indent s.reader.skip
  return { s with reader, keyAllowed := true }.push (.scalar text false)

/-- A quoted scalar. -/
def readQuoted? (quote : Char) (r : Reader) : Option (Token × Reader) :=
  (quoted? quote (r.rest.length + 1) [] r.skip).map fun (text, after) =>
    (.scalar text false, after)

/-- Reads a number of one or two digits. -/
def readNumber? (r : Reader) : Option (Nat × Reader) :=
  let (digits, after) := r.readWhile Char.isDigit
  if digits.isEmpty || digits.length > 2 then none else some (numberInBase 10 digits, after)

/-- Reads what a directive says. -/
def readDirective? (name : List Char) (r : Reader) : Option (Token × Reader) :=
  if name = "YAML".toList then do
    let (major, r) ← readNumber? r
    if r.sees '.' then
      let (minor, r) ← readNumber? r.skip
      return (.version major minor, r)
    else none
  else if name = "TAG".toList then
    if !r.sees '!' then none
    else
      let (handle, r) := readHandle r
      if handle.length > 1 && handle.getLast? != some '!' then none
      else if !r.head?.any isBlank then none
      else
        let (start, r) := (r.skipWhile isBlank).readWhile isTagChar
        if start.isEmpty || !endsWord r.rest then none else some (.handle handle start, r)
  else none

/-- A directive, which takes a line. -/
def fetchDirective? (s : Scanner) : Option Scanner := do
  let s ← (s.unroll (-1)).dropKey?
  let (name, r) := s.reader.skip.readWhile isNameChar
  if name.isEmpty || !endsWord r.rest then none
  else
    let (token, r) ← readDirective? name (r.skipWhile isBlank)
    let r := r.skipWhile isBlank
    let r := if r.sees '#' then r.skipLine else r
    if endsLine r.rest then
      return { s with reader := r.skipBreak, keyAllowed := false }.push token
    else none

/-- A comment may follow a token, unless it was a dash. -/
def withComment (s : Scanner) : Scanner :=
  if s.queue.getLast? = some .dash then s else { s with reader := s.reader.skipTrailing }

/-- Adds the token at hand. -/
def fetchToken? (c : Char) (rest : List Char) (s : Scanner) : Option Scanner :=
  let alone := endsWord rest
  if c = '[' then s.fetchFlowStart? .flowSequenceStart
  else if c = '\x7b' then s.fetchFlowStart? .flowMappingStart
  else if c = ']' then s.fetchFlowEnd? .flowSequenceEnd
  else if c = '\x7d' then s.fetchFlowEnd? .flowMappingEnd
  else if c = ',' then s.fetchComma?
  else if c = '-' && alone then s.fetchDash?
  else if c = '?' && (s.inFlow || alone) then s.fetchKey?
  else if c = ':' && (s.inFlow || alone) then s.fetchValue?
  else if c = '*' then s.fetchWord? (readName? .mention)
  else if c = '&' then s.fetchWord? (readName? .anchor)
  else if c = '!' then s.fetchWord? readTag?
  else if c = '|' && !s.inFlow then s.fetchBlock? false
  else if c = '>' && !s.inFlow then s.fetchBlock? true
  else if c = '\x27' || c = '"' then s.fetchWord? (readQuoted? c)
  else if isBlank c || "#|>%@\x60".toList.contains c then none
  else s.fetchPlain?

/-- Adds the next token, with those that its indentation calls for. -/
def fetch? (s : Scanner) : Option Scanner :=
  let s := s.toNextToken (s.reader.rest.length + 1)
  let s := s.unroll s.reader.column
  match s.reader.rest with
  | [] => s.fetchFinish?
  | c :: rest =>
    if s.reader.column = 0 && c = '%' then s.fetchDirective?
    else if s.reader.atMark '-' then s.fetchBoundary? .documentStart
    else if s.reader.atMark '.' then s.fetchBoundary? .documentEnd
    else (s.fetchToken? c rest).map withComment

/-- The first token may still turn out to be a key.  If it had to be one and cannot be
any more, that is a fault. -/
def waits? (s : Scanner) : Option Bool :=
  match (s.keyStart? :: s.outerKeys).find? fun k => k.any fun k => k.number = s.taken with
  | some (some k) =>
    if !s.isLate k then some true else if k.required then none else some false
  | _ => some false

/-- Reads on until the first token can be handed out, with the given number of
steps. -/
def ready? : Nat → Scanner → Option Scanner
  | 0, _ => none
  | n + 1, s => do
    if s.queue.length < 3 || (← s.waits?) then ready? n (← s.fetch?) else return s

/-- The first token, and the scanner that is ready to hand it out. -/
def peek? (s : Scanner) : Option (Token × Scanner) := do
  let s ← s.ready? (s.reader.rest.length + 8)
  return (← s.queue.head?, s)

/-- Hands out the first token. -/
def pass (s : Scanner) : Scanner :=
  { s with queue := s.queue.tail, taken := s.taken + 1 }

end Scanner
end MonkeyLang.Yaml
