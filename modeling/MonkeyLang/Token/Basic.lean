import MonkeyLang.Text.Basic

/-!
# Tokens

A token is a piece of source with the place it starts at.  Its kind says what it
is for the grammar and its literal is the text it stands for.  Kinds are
numbered; a number outside the table is a kind too, which no rule of the grammar
mentions.
-/

namespace MonkeyLang

/-- What a token is for the grammar. -/
inductive Kind where
  | illegal | eof | ident | int | string
  | assign | plus | minus | bang | star | slash | less | greater | equal | notEqual
  | comma | semicolon | colon
  | lparen | rparen | lbrace | rbrace | lbracket | rbracket
  | fnWord | letWord | trueWord | falseWord | ifWord | elseWord | returnWord
  /-- A kind known only by its number. -/
  | unlisted (code : Int)
  deriving DecidableEq, Repr

namespace Kind

/-- The named kinds in the order of their numbers. -/
def listed : List Kind :=
  [.illegal, .eof, .ident, .int, .string, .assign, .plus, .minus, .bang, .star, .slash, .less,
    .greater, .equal, .notEqual, .comma, .semicolon, .colon, .lparen, .rparen, .lbrace, .rbrace,
    .lbracket, .rbracket, .fnWord, .letWord, .trueWord, .falseWord, .ifWord, .elseWord,
    .returnWord]

/-- The kind with the given number. -/
def ofCode : Int → Kind
  | .ofNat n => listed.getD n (.unlisted n)
  | .negSucc n => .unlisted (.negSucc n)

/-- The name of a kind in messages. -/
def name : Kind → Text
  | .illegal => "ILLEGAL"
  | .eof => "EOF"
  | .ident => "IDENT"
  | .int => "INT"
  | .string => "STRING"
  | .assign => "="
  | .plus => "+"
  | .minus => "-"
  | .bang => "!"
  | .star => "*"
  | .slash => "/"
  | .less => "<"
  | .greater => ">"
  | .equal => "=="
  | .notEqual => "!="
  | .comma => ","
  | .semicolon => ";"
  | .colon => ":"
  | .lparen => "("
  | .rparen => ")"
  | .lbrace => "\x7b"
  | .rbrace => "\x7d"
  | .lbracket => "["
  | .rbracket => "]"
  | .fnWord => "FUNCTION"
  | .letWord => "LET"
  | .trueWord => "TRUE"
  | .falseWord => "FALSE"
  | .ifWord => "IF"
  | .elseWord => "ELSE"
  | .returnWord => "RETURN"
  | .unlisted code => Text.ofString "TokenType(" ++ Text.ofInt code ++ Text.ofString ")"

/-- The reserved words and their kinds. -/
def reserved : List (Text × Kind) :=
  [("fn", .fnWord), ("let", .letWord), ("true", .trueWord), ("false", .falseWord),
    ("if", .ifWord), ("else", .elseWord), ("return", .returnWord)]

/-- The kind of a word: a reserved word's own, else an identifier. -/
def ofWord (word : Text) : Kind :=
  (reserved.lookup word).getD .ident

/-- The kind of an operator or delimiter of one byte. -/
def ofByte? (b : UInt8) : Option Kind :=
  match Char.ofUInt8 b with
  | '=' => some .assign
  | '+' => some .plus
  | '-' => some .minus
  | '!' => some .bang
  | '*' => some .star
  | '/' => some .slash
  | '<' => some .less
  | '>' => some .greater
  | ',' => some .comma
  | ';' => some .semicolon
  | ':' => some .colon
  | '(' => some .lparen
  | ')' => some .rparen
  | '\x7b' => some .lbrace
  | '\x7d' => some .rbrace
  | '[' => some .lbracket
  | ']' => some .rbracket
  | _ => none

/-- The kind of an operator of two bytes. -/
def ofBytes? (a b : UInt8) : Option Kind :=
  match Char.ofUInt8 a, Char.ofUInt8 b with
  | '=', '=' => some .equal
  | '!', '=' => some .notEqual
  | _, _ => none

end Kind

/-- A place in a source: line and column count from one, columns in bytes. -/
structure Position where
  line : Int
  column : Int
  deriving DecidableEq, Repr

namespace Position

/-- The first place of a source. -/
def start : Position := ⟨1, 1⟩

/-- The place after one byte. -/
def step (p : Position) (b : UInt8) : Position :=
  if b = Text.newline then ⟨p.line + 1, 1⟩ else ⟨p.line, p.column + 1⟩

/-- The place after a text. -/
def after (p : Position) (text : Text) : Position :=
  text.foldl step p

end Position

/-- A token of a source. -/
structure Token where
  kind : Kind
  literal : Text
  position : Position
  deriving DecidableEq, Repr

namespace Token

/-- A string literal that runs to the end of the source. -/
def isUnterminated (t : Token) : Bool :=
  t.kind = .illegal && t.literal.startsWith "\""

/-- The source ends in this token, so that more input might change it. -/
def endsSource (t : Token) : Bool :=
  t.kind = .eof || t.isUnterminated

end Token
end MonkeyLang
