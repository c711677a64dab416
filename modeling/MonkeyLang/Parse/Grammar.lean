import MonkeyLang.Parse.Rule
import MonkeyLang.Token.Scanner
import MonkeyLang.Tree.Basic

/-!
# The grammar

Statements are read by their first token.  Expressions are read by binding
power: an operand first, then every operator that binds tighter than the power
asked for, each with a right operand read at its own power.  Calls and indexing
continue an expression like operators do.

Every rule that reads an expression inside another one is given a reader for
shorter expressions, and `expression` ties the knot: its first argument bounds
the number of tokens left, and an inner expression always starts at least one
token further on.
-/

namespace MonkeyLang

/-- How tightly an operator binds. -/
abbrev Power := Nat

namespace Power

def lowest : Power := 1
def equality : Power := 2
def comparison : Power := 3
def sum : Power := 4
def product : Power := 5
def sign : Power := 6
def call : Power := 7
def index : Power := 8

end Power

/-- The binding power of a token that continues an expression, the lowest one
for any other. -/
def Kind.power : Kind → Power
  | .equal | .notEqual => .equality
  | .less | .greater => .comparison
  | .plus | .minus => .sum
  | .star | .slash => .product
  | .lparen => .call
  | .lbracket => .index
  | _ => .lowest

namespace Grammar

open Rule

/-- A reader for expressions of a given binding power. -/
abbrev Reader := Power → Rule Expr

/-- Reads a `let` statement. -/
def bindStatement (read : Reader) : Rule Stmt := do
  let t ← current
  expectNext .ident
  let name ← current
  expectNext .assign
  advance
  let value ← read .lowest
  skipNext .semicolon
  pure (.bind t name value)

/-- Reads a `return` statement, with a value unless the statement ends there. -/
def leaveStatement (read : Reader) : Rule Stmt := do
  let t ← current
  let next ← upcoming
  if next.kind = .semicolon ∨ next.kind = .rbrace ∨ next.kind = .eof then
    skipNext .semicolon
    pure (.leave t none)
  else
    advance
    let value ← read .lowest
    skipNext .semicolon
    pure (.leave t (some value))

/-- Reads a statement that is an expression. -/
def exprStatement (read : Reader) : Rule Stmt := do
  let t ← current
  let value ← read .lowest
  skipNext .semicolon
  pure (.expr t value)

/-- Reads a statement. -/
def statement (read : Reader) : Rule Stmt := do
  let t ← current
  match t.kind with
  | .letWord => bindStatement read
  | .returnWord => leaveStatement read
  | _ => exprStatement read

/-- Where a list of statements stops: at the end of the source, inside a block
also at a closing brace. -/
def stops (inBlock : Bool) (kind : Kind) : Bool :=
  kind = .eof || inBlock && kind = .rbrace

/-- Reads statements up to where they stop.  A statement that cannot be read is
dropped, and reading goes on one token further. -/
def statements (read : Reader) (inBlock : Bool) : Nat → Rule (List Stmt)
  | 0 => pure []
  | n + 1 => do
    let t ← current
    if stops inBlock t.kind then
      pure []
    else if t.kind = .semicolon then
      advance
      statements read inBlock n
    else
      let found ← attempt (statement read)
      advance
      let rest ← statements read inBlock n
      pure (found.toList ++ rest)

/-- Reads a block.  The cursor stands on its opening brace before and on its
closing brace after. -/
def block (read : Reader) : Rule Block := do
  let t ← current
  advance
  let body ← looped (statements read true)
  let stop ← current
  if stop.kind = .eof then fail (.expected .rbrace .eof) stop else pure (.mk t body)

/-- Reads a parameter name. -/
def parameter : Rule Token := do
  let t ← current
  if t.kind = .ident then pure t else fail (.expected .ident t.kind) t

/-- Reads the entries of a hash literal up to its closing brace.  A comma may
stand after the last one. -/
def pairs (read : Reader) : Nat → Rule (List (Expr × Expr))
  | 0 => pure []
  | n + 1 => do
    let t ← upcoming
    if t.kind = .rbrace then
      advance
      pure []
    else
      advance
      let key ← read .lowest
      expectNext .colon
      advance
      let value ← read .lowest
      let after ← upcoming
      if after.kind ≠ .rbrace then
        expectNext .comma
      let rest ← pairs read n
      pure ((key, value) :: rest)

/-- Reads a conditional. -/
def conditional (read : Reader) : Rule Expr := do
  let t ← current
  advance
  let test ← read .lowest
  expectNext .lbrace
  let consequence ← block read
  let next ← upcoming
  if next.kind = .elseWord then
    advance
    expectNext .lbrace
    let alternative ← block read
    pure (.cond t test consequence (some alternative))
  else
    pure (.cond t test consequence none)

/-- Reads a function literal. -/
def function (read : Reader) : Rule Expr := do
  let t ← current
  expectNext .lparen
  let parameters ← items parameter .rparen
  expectNext .lbrace
  let body ← block read
  pure (.function t parameters body)

/-- Reads what an expression starts with. -/
def operand (read : Reader) : Rule Expr := do
  let t ← current
  match t.kind with
  | .ident => pure (.ident t)
  | .int =>
    match t.literal.toInt64? with
    | some value => pure (.int t value)
    | none => fail (.badInteger t.literal) t
  | .string => pure (.string t)
  | .trueWord => pure (.bool t true)
  | .falseWord => pure (.bool t false)
  | .bang | .minus =>
    advance
    let right ← read .sign
    pure (.unary t right)
  | .lparen =>
    advance
    let inner ← read .lowest
    expectNext .rparen
    pure inner
  | .ifWord => conditional read
  | .fnWord => function read
  | .lbracket =>
    let elements ← items (read .lowest) .rbracket
    pure (.array t elements)
  | .lbrace =>
    let entries ← looped (pairs read)
    pure (.hash t entries)
  | .illegal => fail (.illegal t.literal) t
  | _ => fail (.noOperand t.kind) t

/-- Reads on after a left operand, the cursor on the token that continues it. -/
def continuation (read : Reader) (left : Expr) : Rule Expr := do
  let t ← current
  match t.kind with
  | .lparen =>
    let arguments ← items (read .lowest) .rparen
    pure (.call t left arguments)
  | .lbracket =>
    advance
    let key ← read .lowest
    expectNext .rbracket
    pure (.index t left key)
  | kind =>
    advance
    let right ← read kind.power
    pure (.binary t left right)

/-- Reads on for as long as the next token binds tighter than the given power. -/
def climb (read : Reader) (power : Power) : Nat → Expr → Rule Expr
  | 0, left => pure left
  | n + 1, left => do
    let t ← upcoming
    if power < t.kind.power then
      advance
      let larger ← continuation read left
      climb read power n larger
    else
      pure left

/-- Reads an expression, given a reader for the shorter ones inside it. -/
def expressionWith (read : Reader) (power : Power) : Rule Expr := do
  let left ← operand read
  looped fun n => climb read power n left

/-- Reads an expression when fewer than the given number of tokens are left. -/
def expression : Nat → Reader
  | 0 => fun _ c => ⟨none, c, []⟩
  | n + 1 => expressionWith (expression n)

/-- Reads a whole program. -/
def program : Rule Program := looped fun n => do
  let body ← statements (expression (n + 1)) false n
  pure ⟨body⟩

end Grammar

/-- The outcome of reading a program from tokens: what could be read of it, and
all syntax errors. -/
def parseTokens (tokens : List Token) : Program × List SyntaxError :=
  let outcome := Grammar.program (Cursor.ofTokens tokens)
  (outcome.node?.getD ⟨[]⟩, outcome.errors)

/-- The outcome of reading a program from its source. -/
def parse (source : Text) : Program × List SyntaxError :=
  parseTokens (scan source)

/-- The program of a source without syntax errors. -/
def parse? (source : Text) : Except (List SyntaxError) Program :=
  match parse source with
  | (program, []) => .ok program
  | (_, errors) => .error errors

end MonkeyLang
