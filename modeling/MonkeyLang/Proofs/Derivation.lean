import MonkeyLang.Tree.Basic

/-!
# The grammar as derivations

Which tokens form a program, and which program they form, said without any
reader.  Expressions come in levels, from comparisons for equality, which bind
loosest, to the expressions that are complete in themselves:

    equality    == !=          left to right
    comparison  < >            left to right
    sum         + -            left to right
    product     * /            left to right
    sign        ! -            before an operand of this very level
    applied     f(x) a[i]      behind what is applied
    primary     names, literals, groups, conditionals, functions

A statement may go without its semicolon.  Then the token behind it must not be
one that could continue its expression; so whether tokens form a statement
depends on the kind of the token behind them, which `Sentence` and `Body` carry
along.
-/

namespace MonkeyLang

/-- The levels of expressions, the loosest one first. -/
inductive Level where
  | equality | comparison | sum | product | sign | applied | primary
  deriving DecidableEq, Repr

namespace Level

/-- The operators that stand between two operands of a level. -/
def operators : Level → List Kind
  | .equality => [.equal, .notEqual]
  | .comparison => [.less, .greater]
  | .sum => [.plus, .minus]
  | .product => [.star, .slash]
  | .sign | .applied | .primary => []

/-- The next level, which binds tighter. -/
def tighter : Level → Level
  | .equality => .comparison
  | .comparison => .sum
  | .sum => .product
  | .product => .sign
  | .sign => .applied
  | .applied | .primary => .primary

end Level

/-- Behind an expression, a token of this kind would go on with it. -/
def Kind.continues (kind : Kind) : Prop :=
  kind ∈ [.equal, .notEqual, .less, .greater, .plus, .minus, .star, .slash, .lparen, .lbracket]

instance (kind : Kind) : Decidable kind.continues :=
  inferInstanceAs (Decidable (kind ∈ _))

/-- The kind of the first token, or of what stands behind when there is none. -/
def leadingKind (tokens : List Token) (behind : Kind) : Kind :=
  (tokens.head?.map Token.kind).getD behind

/-- Items with commas between them, at least one. -/
inductive Series {α : Type} (item : List Token → α → Prop) : List Token → List α → Prop
  | one {w : List Token} {a : α} (first : item w a) : Series item w [a]
  | more {w v : List Token} {comma : Token} {a : α} {rest : List α}
      (first : item w a)
      (hcomma : comma.kind = .comma)
      (others : Series item v rest) :
      Series item (w ++ comma :: v) (a :: rest)

/-- Any number of items with commas between them. -/
inductive Listing {α : Type} (item : List Token → α → Prop) : List Token → List α → Prop
  | none : Listing item [] []
  | some {w : List Token} {list : List α} (series : Series item w list) : Listing item w list

/-- The token is a name, and stands for itself. -/
inductive Named : List Token → Token → Prop
  | mk {t : Token} (h : t.kind = .ident) : Named [t] t

/-- How a statement may end before a token of the given kind: with a semicolon,
or without one where nothing could continue its expression. -/
inductive Ending (behind : Kind) : List Token → Prop
  | omitted (h : ¬ behind.continues) : Ending behind []
  | semicolon {t : Token} (h : t.kind = .semicolon) : Ending behind [t]

mutual

/-- The tokens are an expression of the given level. -/
inductive Phrase : Level → List Token → Expr → Prop
  | binary {level : Level} {u v : List Token} {t : Token} {a b : Expr}
      (operator : t.kind ∈ level.operators)
      (left : Phrase level u a)
      (right : Phrase level.tighter v b) :
      Phrase level (u ++ t :: v) (.binary t a b)
  | loosen {level : Level} {w : List Token} {e : Expr}
      (below : level ≠ .primary)
      (inner : Phrase level.tighter w e) :
      Phrase level w e
  | unary {t : Token} {w : List Token} {e : Expr}
      (operator : t.kind = .bang ∨ t.kind = .minus)
      (operand : Phrase .sign w e) :
      Phrase .sign (t :: w) (.unary t e)
  | call {u w : List Token} {opening closing : Token} {f : Expr} {arguments : List Expr}
      (callee : Phrase .applied u f)
      (hopening : opening.kind = .lparen)
      (list : Listing (Phrase .equality) w arguments)
      (hclosing : closing.kind = .rparen) :
      Phrase .applied (u ++ opening :: (w ++ [closing])) (.call opening f arguments)
  | index {u w : List Token} {opening closing : Token} {a k : Expr}
      (collection : Phrase .applied u a)
      (hopening : opening.kind = .lbracket)
      (key : Phrase .equality w k)
      (hclosing : closing.kind = .rbracket) :
      Phrase .applied (u ++ opening :: (w ++ [closing])) (.index opening a k)
  | ident {t : Token} (h : t.kind = .ident) : Phrase .primary [t] (.ident t)
  | int {t : Token} {value : Int64}
      (h : t.kind = .int)
      (hvalue : t.literal.toInt64? = some value) :
      Phrase .primary [t] (.int t value)
  | string {t : Token} (h : t.kind = .string) : Phrase .primary [t] (.string t)
  | yes {t : Token} (h : t.kind = .trueWord) : Phrase .primary [t] (.bool t true)
  | no {t : Token} (h : t.kind = .falseWord) : Phrase .primary [t] (.bool t false)
  | group {opening closing : Token} {w : List Token} {e : Expr}
      (hopening : opening.kind = .lparen)
      (inner : Phrase .equality w e)
      (hclosing : closing.kind = .rparen) :
      Phrase .primary (opening :: (w ++ [closing])) e
  | cond {t : Token} {u v : List Token} {test : Expr} {consequence : Block}
      (h : t.kind = .ifWord)
      (condition : Phrase .equality u test)
      (branch : Braced v consequence) :
      Phrase .primary (t :: (u ++ v)) (.cond t test consequence none)
  | condElse {t other : Token} {u v w : List Token} {test : Expr}
      {consequence alternative : Block}
      (h : t.kind = .ifWord)
      (condition : Phrase .equality u test)
      (branch : Braced v consequence)
      (hother : other.kind = .elseWord)
      (otherBranch : Braced w alternative) :
      Phrase .primary (t :: (u ++ (v ++ other :: w)))
        (.cond t test consequence (some alternative))
  | function {t opening closing : Token} {u v parameters : List Token} {body : Block}
      (h : t.kind = .fnWord)
      (hopening : opening.kind = .lparen)
      (list : Listing Named u parameters)
      (hclosing : closing.kind = .rparen)
      (block : Braced v body) :
      Phrase .primary (t :: opening :: (u ++ closing :: v)) (.function t parameters body)
  | array {opening closing : Token} {w : List Token} {elements : List Expr}
      (hopening : opening.kind = .lbracket)
      (list : Listing (Phrase .equality) w elements)
      (hclosing : closing.kind = .rbracket) :
      Phrase .primary (opening :: (w ++ [closing])) (.array opening elements)
  | hash {opening closing : Token} {w : List Token} {pairs : List (Expr × Expr)}
      (hopening : opening.kind = .lbrace)
      (entries : Entries w pairs)
      (hclosing : closing.kind = .rbrace) :
      Phrase .primary (opening :: (w ++ [closing])) (.hash opening pairs)

/-- The tokens are entries of a hash literal.  A comma may stand behind the last
one. -/
inductive Entries : List Token → List (Expr × Expr) → Prop
  | none : Entries [] []
  | last {u v : List Token} {colon : Token} {k a : Expr}
      (key : Phrase .equality u k)
      (hcolon : colon.kind = .colon)
      (value : Phrase .equality v a) :
      Entries (u ++ colon :: v) [(k, a)]
  | more {u v w : List Token} {colon comma : Token} {k a : Expr} {rest : List (Expr × Expr)}
      (key : Phrase .equality u k)
      (hcolon : colon.kind = .colon)
      (value : Phrase .equality v a)
      (hcomma : comma.kind = .comma)
      (others : Entries w rest) :
      Entries (u ++ colon :: (v ++ comma :: w)) ((k, a) :: rest)

/-- The tokens are a block. -/
inductive Braced : List Token → Block → Prop
  | mk {opening closing : Token} {w : List Token} {list : List Stmt}
      (hopening : opening.kind = .lbrace)
      (body : Body .rbrace w list)
      (hclosing : closing.kind = .rbrace) :
      Braced (opening :: (w ++ [closing])) (.mk opening list)

/-- Before a token of the given kind, the tokens are statements and lone
semicolons. -/
inductive Body : Kind → List Token → List Stmt → Prop
  | done {behind : Kind} : Body behind [] []
  | semicolon {behind : Kind} {t : Token} {w : List Token} {list : List Stmt}
      (h : t.kind = .semicolon)
      (rest : Body behind w list) :
      Body behind (t :: w) list
  | statement {behind : Kind} {u w : List Token} {s : Stmt} {list : List Stmt}
      (first : Sentence (leadingKind w behind) u s)
      (rest : Body behind w list) :
      Body behind (u ++ w) (s :: list)

/-- Before a token of the given kind, the tokens are a statement. -/
inductive Sentence : Kind → List Token → Stmt → Prop
  | bind {behind : Kind} {t name sign : Token} {w z : List Token} {e : Expr}
      (h : t.kind = .letWord)
      (hname : name.kind = .ident)
      (hsign : sign.kind = .assign)
      (value : Phrase .equality w e)
      (ending : Ending behind z) :
      Sentence behind (t :: name :: sign :: (w ++ z)) (.bind t name e)
  | leave {behind : Kind} {t : Token}
      (h : t.kind = .returnWord)
      (hbehind : behind = .semicolon ∨ behind = .rbrace ∨ behind = .eof) :
      Sentence behind [t] (.leave t none)
  | leaveMarked {behind : Kind} {t mark : Token}
      (h : t.kind = .returnWord)
      (hmark : mark.kind = .semicolon) :
      Sentence behind [t, mark] (.leave t none)
  | leaveWith {behind : Kind} {t : Token} {w z : List Token} {e : Expr}
      (h : t.kind = .returnWord)
      (value : Phrase .equality w e)
      (ending : Ending behind z) :
      Sentence behind (t :: (w ++ z)) (.leave t (some e))
  | expr {behind : Kind} {t : Token} {w z : List Token} {e : Expr}
      (value : Phrase .equality (t :: w) e)
      (ending : Ending behind z) :
      Sentence behind (t :: (w ++ z)) (.expr t e)

end

/-- The tokens form the program, the end of the source right behind them. -/
def Program.Derives (p : Program) (tokens : List Token) : Prop :=
  Body .eof tokens p.statements

end MonkeyLang
