import MonkeyLang.Token.Basic

/-!
# Programs

A program is a list of statements.  Every node keeps the token it was read at:
a name, a string or an operator is the literal of that token, and blocks carry
no scope of their own.  Every program has a canonical text.
-/

namespace MonkeyLang

mutual

/-- An expression. -/
inductive Expr where
  /-- A name. -/
  | ident (token : Token)
  | int (token : Token) (value : Int64)
  | string (token : Token)
  | bool (token : Token) (value : Bool)
  /-- An operator before its operand. -/
  | unary (token : Token) (operand : Expr)
  /-- An operator between its operands. -/
  | binary (token : Token) (left right : Expr)
  | cond (token : Token) (test : Expr) (consequence : Block) (alternative : Option Block)
  | function (token : Token) (parameters : List Token) (body : Block)
  | call (token : Token) (callee : Expr) (arguments : List Expr)
  | array (token : Token) (elements : List Expr)
  | index (token : Token) (collection key : Expr)
  | hash (token : Token) (pairs : List (Expr × Expr))

/-- A statement. -/
inductive Stmt where
  /-- Binds a name to a value. -/
  | bind (token name : Token) (value : Expr)
  /-- Leaves the function, with a value or without one. -/
  | leave (token : Token) (value : Option Expr)
  | expr (token : Token) (value : Expr)

/-- Statements in braces. -/
inductive Block where
  | mk (token : Token) (statements : List Stmt)

end

/-- A whole program. -/
structure Program where
  statements : List Stmt

/-- The token an expression was read at. -/
def Expr.token : Expr → Token
  | .ident t | .int t _ | .string t | .bool t _ | .unary t _ | .binary t _ _ | .cond t _ _ _
  | .function t _ _ | .call t _ _ | .array t _ | .index t _ _ | .hash t _ => t

/-- The token a statement starts with. -/
def Stmt.token : Stmt → Token
  | .bind t _ _ | .leave t _ | .expr t _ => t

/-- The opening brace of a block. -/
def Block.token : Block → Token
  | .mk t _ => t

/-- The statements of a block. -/
def Block.statements : Block → List Stmt
  | .mk _ statements => statements

/-- The statement binds a name. -/
def Stmt.isBind : Stmt → Bool
  | .bind .. => true
  | .leave .. | .expr .. => false

/-- The last statement binds a name. -/
def Program.endsWithBind (p : Program) : Bool :=
  p.statements.getLast?.any Stmt.isBind

/-- The literal of the first token of a program, empty when there is none. -/
def Program.literal (p : Program) : Text :=
  match p.statements with
  | [] => []
  | s :: _ => s.token.literal

/-!
## Canonical text of programs

Every application of an operator is written in parentheses of its own, so that
the text shows how an expression was grouped.  Strings appear without quotes,
and the statements of a block follow each other without a separator.
-/

mutual

/-- The canonical text of an expression. -/
def Expr.render : Expr → Text
  | .ident t | .int t _ | .string t | .bool t _ => t.literal
  | .unary t operand => Text.ofString "(" ++ t.literal ++ operand.render ++ Text.ofString ")"
  | .binary t left right =>
    Text.ofString "(" ++ left.render ++ Text.ofString " " ++ t.literal ++ Text.ofString " " ++
      right.render ++ Text.ofString ")"
  | .cond _ test consequence none =>
    Text.ofString "if" ++ test.render ++ Text.ofString " " ++ consequence.render
  | .cond _ test consequence (some alternative) =>
    Text.ofString "if" ++ test.render ++ Text.ofString " " ++ consequence.render ++
      Text.ofString "else " ++ alternative.render
  | .function t parameters body =>
    t.literal ++ Text.ofString "(" ++ Text.joined ", " (parameters.map Token.literal) ++
      Text.ofString ") " ++ body.render
  | .call _ callee arguments =>
    callee.render ++ Text.ofString "(" ++ Text.joined ", " (renderAll arguments) ++
      Text.ofString ")"
  | .array _ elements =>
    Text.ofString "[" ++ Text.joined ", " (renderAll elements) ++ Text.ofString "]"
  | .index _ collection key =>
    Text.ofString "(" ++ collection.render ++ Text.ofString "[" ++ key.render ++
      Text.ofString "])"
  | .hash _ pairs =>
    Text.ofString "\x7b" ++ Text.joined ", " (renderPairs pairs) ++ Text.ofString "\x7d"

/-- The canonical texts of expressions. -/
def renderAll : List Expr → List Text
  | [] => []
  | e :: rest => e.render :: renderAll rest

/-- The canonical texts of the entries of a hash literal. -/
def renderPairs : List (Expr × Expr) → List Text
  | [] => []
  | (key, value) :: rest =>
    (key.render ++ Text.ofString ":" ++ value.render) :: renderPairs rest

/-- The canonical text of a statement. -/
def Stmt.render : Stmt → Text
  | .bind t name value =>
    t.literal ++ Text.ofString " " ++ name.literal ++ Text.ofString " = " ++ value.render ++
      Text.ofString ";"
  | .leave t none => t.literal ++ Text.ofString " ;"
  | .leave t (some value) =>
    t.literal ++ Text.ofString " " ++ value.render ++ Text.ofString ";"
  | .expr _ value => value.render

/-- The canonical texts of statements, in a row. -/
def renderStatements : List Stmt → Text
  | [] => []
  | s :: rest => s.render ++ renderStatements rest

/-- The canonical text of the statements of a block. -/
def Block.render : Block → Text
  | .mk _ statements => renderStatements statements

end

/-- The canonical text of a program. -/
def Program.render (p : Program) : Text :=
  renderStatements p.statements

end MonkeyLang
