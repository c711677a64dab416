import MonkeyLang.Text.Symbol

/-!
# A place in a YAML document

A document is a row of characters in lines.  Lines end at newlines and returns, and
at the three line ends beyond ASCII.  A reader knows what is left of the document,
and where in it it stands.
-/

namespace MonkeyLang.Yaml

/-- A blank inside a line. -/
def isBlank (c : Char) : Bool := c == ' ' || c == '\t'

/-- A character that ends a line. -/
def isBreak (c : Char) : Bool :=
  c == '\n' || c == '\r' || c == '\u0085' || c == '\u2028' || c == '\u2029'

/-- No word goes on at the start of the text: there is a blank, the end of a line or
the end of the document. -/
def endsWord (text : List Char) : Bool :=
  text.head?.all fun c => isBlank c || isBreak c

/-- A line ends at the start of the text. -/
def endsLine (text : List Char) : Bool := text.head?.all isBreak

/-- The characters of names. -/
def isNameChar (c : Char) : Bool := c.isAlphanum || c == '_' || c == '-'

/-- What is left of a document, and how far it has been read. -/
structure Reader where
  rest : List Char
  /-- The number of characters passed. -/
  index : Nat
  /-- The number of lines passed. -/
  line : Nat
  /-- The number of characters passed on the line. -/
  column : Nat
  /-- The number of line ends passed since anything else but blanks. -/
  newlines : Nat

namespace Reader

/-- A reader at the start of a document. -/
def start (text : List Char) : Reader := ⟨text, 0, 0, 0, 0⟩

/-- The character at hand. -/
def head? (r : Reader) : Option Char := r.rest.head?

/-- The given character is at hand. -/
def sees (r : Reader) (c : Char) : Bool := r.rest.head? == some c

/-- Passes the given number of characters on the line. -/
def advance (n : Nat) (r : Reader) : Reader :=
  let passed := r.rest.take n
  { r with
    rest := r.rest.drop n
    index := r.index + passed.length
    column := r.column + passed.length
    newlines := if passed.all isBlank then r.newlines else 0 }

/-- Passes one character on the line. -/
def skip (r : Reader) : Reader := r.advance 1

/-- Passes all characters of a class, none of which ends a line. -/
def skipWhile (p : Char → Bool) (r : Reader) : Reader :=
  r.advance (r.rest.takeWhile p).length

/-- Reads all characters of a class, none of which ends a line. -/
def readWhile (p : Char → Bool) (r : Reader) : List Char × Reader :=
  (r.rest.takeWhile p, r.skipWhile p)

/-- Passes what is left of the line. -/
def skipLine (r : Reader) : Reader := r.skipWhile fun c => !isBreak c

/-- Reads the end of a line, if there is one.  All ends count as a newline, but the
separators of lines and paragraphs stay as they are. -/
def readBreak (r : Reader) : List Char × Reader :=
  let next (text rest : List Char) (width : Nat) : List Char × Reader :=
    (text, ⟨rest, r.index + width, r.line + 1, 0, r.newlines + 1⟩)
  match r.rest with
  | '\r' :: '\n' :: rest => next ['\n'] rest 2
  | c :: rest =>
    if c = '\u2028' || c = '\u2029' then next [c] rest 1
    else if isBreak c then next ['\n'] rest 1
    else ([], r)
  | [] => ([], r)

/-- Passes the end of a line, if there is one. -/
def skipBreak (r : Reader) : Reader := r.readBreak.2

/-- A line of three dashes or dots starts here. -/
def atMark (mark : Char) (r : Reader) : Bool :=
  r.column == 0 && r.rest.take 3 == [mark, mark, mark] && endsWord (r.rest.drop 3)

/-- A document starts or ends here. -/
def atBoundary (r : Reader) : Bool := r.atMark '-' || r.atMark '.'

/-- Passes a comment at hand with the comment lines after it, among which there may
be blank ones.  It stays at the end of the last comment. -/
def skipComments : Nat → Reader → Reader
  | 0, r => r
  | n + 1, r =>
    let after := r.skipLine
    let gap := after.rest.takeWhile fun c => isBlank c || c == '\n' || c == '\r'
    if (after.rest.drop gap.length).head? == some '#' then
      skipComments n (passGap gap.length after)
    else after
where
  /-- Passes blanks and ends of lines, at most the given number. -/
  passGap : Nat → Reader → Reader
    | 0, r => r
    | n + 1, r =>
      match r.rest with
      | '#' :: _ => r
      | c :: _ => passGap n (if isBreak c then r.skipBreak else r.skip)
      | [] => r

/-- Passes a comment behind something on the line. -/
def skipTrailing (r : Reader) : Reader :=
  if r.newlines > 0 then r
  else
    let after := r.skipWhile isBlank
    if after.sees '#' then after.skipLine else r

end Reader

/-- The unit of two bytes at the start of a text. -/
def unit? (lowFirst : Bool) : Text → Option (Nat × Text)
  | a :: b :: rest =>
    some (if lowFirst then b.toNat * 256 + a.toNat else a.toNat * 256 + b.toNat, rest)
  | _ => none

/-- The characters of a text in units of two bytes, with the given number of steps. -/
def wideChars? (lowFirst : Bool) : Nat → Text → Option (List Char)
  | _, [] => some []
  | 0, _ => none
  | n + 1, text => do
    let (high, rest) ← unit? lowFirst text
    if 0xDC00 ≤ high && high ≤ 0xDFFF then none
    else if 0xD800 ≤ high && high ≤ 0xDBFF then
      let (low, rest) ← unit? lowFirst rest
      if 0xDC00 ≤ low && low ≤ 0xDFFF then
        let c := Char.ofNat (0x10000 + (high - 0xD800) * 0x400 + (low - 0xDC00))
        return c :: (← wideChars? lowFirst n rest)
      else none
    else return Char.ofNat high :: (← wideChars? lowFirst n rest)

/-- A character that can stand in a document. -/
def isAllowed (c : Char) : Bool :=
  let n := c.toNat
  n == 0x09 || n == 0x0A || n == 0x0D || (0x20 ≤ n && n ≤ 0x7E) || n == 0x85 ||
    (0xA0 ≤ n && n ≤ 0xFFFD) || 0x10000 ≤ n

/-- The characters of a document, in the encoding that its first bytes mark. -/
def characters? (text : Text) : Option (List Char) :=
  let chars? :=
    match text with
    | 0xFF :: 0xFE :: rest => wideChars? true rest.length rest
    | 0xFE :: 0xFF :: rest => wideChars? false rest.length rest
    | 0xEF :: 0xBB :: 0xBF :: rest => Text.chars? rest
    | _ => text.chars?
  chars?.filter fun chars => chars.all isAllowed

end MonkeyLang.Yaml
