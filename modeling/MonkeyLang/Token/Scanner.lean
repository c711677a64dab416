import MonkeyLang.Token.Basic

/-!
# Scanning

A source is cut into gaps and lexemes, and a scanner says where each lexeme stands.
The key fact is `Lexeme.span_append`: the bytes of a lexeme and the text after it
are the text it was read from.
-/

namespace MonkeyLang

/-!
## Lexemes

A source is cut into gaps and lexemes.  A gap is white space and comments; a
lexeme is the longest piece that is one token.  Cutting needs no position and
never fails: a byte that starts nothing is an illegal lexeme of its own, and a
string literal without its closing quote is one that takes all that is left.
-/

/-- White space between tokens. -/
def isSpace (b : UInt8) : Bool :=
  b == ' '.toUInt8 || b == '\t'.toUInt8 || b == '\n'.toUInt8 || b == '\r'.toUInt8

/-- The bytes at the start of a text that belong to no token, and the rest.  In
a comment everything up to the end of the line is skipped. -/
def splitGap (inComment : Bool) : Text → Text × Text
  | [] => ([], [])
  | b :: rest =>
    let skip (inComment : Bool) :=
      let (gap, after) := splitGap inComment rest
      (b :: gap, after)
    if inComment then skip (b != Text.newline)
    else if isSpace b then skip false
    else if b = '/'.toUInt8 && rest.head? = some '/'.toUInt8 then skip true
    else ([], b :: rest)

/-- What a backslash and the byte after it stand for in a string literal. -/
def unescape (b : UInt8) : Text :=
  match Char.ofUInt8 b with
  | 'n' => ['\n'.toUInt8]
  | 't' => ['\t'.toUInt8]
  | 'r' => ['\r'.toUInt8]
  | '"' => [b]
  | '\\' => [b]
  | _ => ['\\'.toUInt8, b]

/-- A string literal after its opening quote. -/
structure StringBody where
  /-- The text the literal stands for. -/
  value : Text
  /-- The bytes of the literal, its closing quote among them. -/
  bytes : Text
  /-- The text after the closing quote. -/
  after : Text

/-- Reads a string literal after its opening quote, if it is closed. -/
def StringBody.read? : Text → Option StringBody
  | [] => none
  | b :: rest =>
    if b = '"'.toUInt8 then some ⟨[], [b], rest⟩
    else if b = '\\'.toUInt8 then
      match rest with
      | [] => none
      | e :: more =>
        (read? more).map fun s => ⟨unescape e ++ s.value, b :: e :: s.bytes, s.after⟩
    else
      (read? rest).map fun s => ⟨b :: s.value, b :: s.bytes, s.after⟩

/-- A piece of source that is one token. -/
structure Lexeme where
  kind : Kind
  literal : Text
  /-- The bytes of the source. -/
  span : Text
  deriving DecidableEq, Repr

namespace Lexeme

/-- The end of the source. -/
def finish : Lexeme := ⟨.eof, [], []⟩

/-- A lexeme that stands for its own bytes. -/
def plain (kind : Kind) (span : Text) : Lexeme := ⟨kind, span, span⟩

/-- The bytes that may follow the first letter of a name. -/
def continuesName (b : UInt8) : Bool :=
  Text.isLetter b || Text.isDigit b

/-- Reads an operator, a delimiter or an illegal byte. -/
def readMark (b : UInt8) (rest : Text) : Lexeme × Text :=
  let single := Kind.ofByte? b
  match rest with
  | next :: more =>
    match Kind.ofBytes? b next, single with
    | some kind, _ => (plain kind [b, next], more)
    | none, some kind => (plain kind [b], rest)
    | none, none => (⟨.illegal, String.utf8EncodeChar (Char.ofUInt8 b), [b]⟩, rest)
  | [] =>
    match single with
    | some kind => (plain kind [b], rest)
    | none => (⟨.illegal, String.utf8EncodeChar (Char.ofUInt8 b), [b]⟩, rest)

/-- Reads the lexeme at the start of a text that begins with no gap, and gives
the text after it. -/
def read : Text → Lexeme × Text
  | [] => (finish, [])
  | b :: rest =>
    if b = '"'.toUInt8 then
      match StringBody.read? rest with
      | some s => (⟨.string, s.value, b :: s.bytes⟩, s.after)
      | none => (plain .illegal (b :: rest), [])
    else if Text.isLetter b then
      let word := b :: rest.takeWhile continuesName
      (plain (Kind.ofWord word) word, rest.dropWhile continuesName)
    else if Text.isDigit b then
      (plain .int (b :: rest.takeWhile Text.isDigit), rest.dropWhile Text.isDigit)
    else readMark b rest

end Lexeme

/-- A gap and the text after it are the text it was cut from. -/
theorem splitGap_append (inComment : Bool) (text : Text) :
    (splitGap inComment text).1 ++ (splitGap inComment text).2 = text := by
  induction text generalizing inComment with
  | nil => rfl
  | cons b rest ih =>
    unfold splitGap
    grind

/-- A closed string literal and the text after it are the text it was read
from. -/
theorem StringBody.bytes_append {text : Text} {s : StringBody}
    (h : read? text = some s) : s.bytes ++ s.after = text := by
  fun_induction read? text generalizing s with
  | case1 => simp at h
  | case2 => cases h; rfl
  | case3 => simp at h
  | case4 e more _ ih =>
    obtain ⟨u, hu, rfl⟩ := Option.map_eq_some_iff.1 h
    simp [ih hu]
  | case5 b rest _ _ ih =>
    obtain ⟨u, hu, rfl⟩ := Option.map_eq_some_iff.1 h
    simp [ih hu]

namespace Lexeme

/-- An operator, delimiter or illegal byte and the text after it are the text it
was read from. -/
theorem readMark_append (b : UInt8) (rest : Text) :
    (readMark b rest).1.span ++ (readMark b rest).2 = b :: rest := by
  unfold readMark plain
  grind

/-- **Nothing is lost.**  The bytes of a lexeme and the text after it are the
text it was read from. -/
theorem span_append (text : Text) : (read text).1.span ++ (read text).2 = text := by
  unfold read
  split
  · rfl
  · next b rest =>
    split
    · split
      · next s hs => simp [StringBody.bytes_append hs]
      · simp [plain]
    · split
      · simp [plain]
      · split
        · simp [plain]
        · exact readMark_append b rest

/-- Only the end of the source takes no bytes. -/
theorem span_ne_nil (b : UInt8) (rest : Text) : (read (b :: rest)).1.span ≠ [] := by
  unfold read readMark plain
  grind

end Lexeme

/-!
## Scanners

A scanner stands at a place of a source.  Each step skips a gap, reads a lexeme
and moves by exactly the bytes of both, so that the place of a token is the
place of its first byte.  At the end of the source it keeps answering with the
same end token; a scan stops at the first one.
-/

/-- The unread part of a source and where it starts. -/
structure Scanner where
  rest : Text
  position : Position

namespace Scanner

/-- A scanner at the start of a source. -/
def start (source : Text) : Scanner := ⟨source, .start⟩

/-- The next token, and the scanner after it. -/
def next (s : Scanner) : Token × Scanner :=
  let (gap, text) := splitGap false s.rest
  let (lexeme, after) := Lexeme.read text
  let place := s.position.after gap
  (⟨lexeme.kind, lexeme.literal, place⟩, ⟨after, place.after lexeme.span⟩)

/-- Every token but the end takes at least one byte. -/
theorem length_next_lt (s : Scanner) (h : s.next.1.kind ≠ .eof) :
    s.next.2.rest.length < s.rest.length := by
  have hgap := splitGap_append false s.rest
  have hspan := Lexeme.span_append (splitGap false s.rest).2
  simp only [next] at h ⊢
  generalize splitGap false s.rest = cut at *
  obtain ⟨gap, text⟩ := cut
  cases text with
  | nil => simp [Lexeme.read, Lexeme.finish] at h
  | cons b rest =>
    have hne := Lexeme.span_ne_nil b rest
    have := List.length_pos_iff.2 hne
    have := congrArg List.length hgap
    have := congrArg List.length hspan
    simp only [List.length_append] at *
    omega

/-- All tokens up to the first end, and the scanner after it. -/
def drain (s : Scanner) : List Token × Scanner :=
  if _h : s.next.1.kind = .eof then ([s.next.1], s.next.2)
  else
    let (more, last) := drain s.next.2
    (s.next.1 :: more, last)
termination_by s.rest.length
decreasing_by exact length_next_lt s _h

/-- The next `n` tokens. -/
def take : Nat → Scanner → List Token
  | 0, _ => []
  | n + 1, s => s.next.1 :: take n s.next.2

end Scanner

/-- The tokens of a source, the end among them. -/
def scan (source : Text) : List Token :=
  (Scanner.start source).drain.1

end MonkeyLang
