import MonkeyLang.Proofs.ReadingComplete

/-!
# What tokens leave in a tree

Most tokens cannot be told from the tree they are read as: a semicolon or a parenthesis
around an expression leaves nothing there.  But strings, operators, brackets, `else` and
the parentheses of calls do.  Their imprint, in the order of the source, is the same
whether it is taken of the tokens or of the tree (`Body.imprint_program`).

Whether a parenthesis belongs to a call is told from the token before it: behind the last
token of an expression it does, elsewhere it opens a group or a list of parameters.  A
statement may stand right behind another one without a semicolon, but then it does not
start with a parenthesis.
-/

namespace MonkeyLang

/-! ## Of tokens -/

/-- An expression may end with a token of this kind. -/
def Kind.ends (kind : Kind) : Prop :=
  kind ∈ [.ident, .int, .string, .trueWord, .falseWord, .rparen, .rbracket, .rbrace]

instance (kind : Kind) : Decidable kind.ends :=
  inferInstanceAs (Decidable (kind ∈ _))

/-- Behind a token of the one kind, a token of the other leaves something in a tree. -/
def Kind.prints (before kind : Kind) : Prop :=
  kind ∈ [.string, .bang, .elseWord] ∨ kind.continues ∧ (kind = .lparen → before.ends)

instance (before kind : Kind) : Decidable (before.prints kind) :=
  inferInstanceAs (Decidable (_ ∨ _ ∧ (_ → _)))

/-- What a token leaves in a tree: its kind, and the text of a string. -/
def Token.print (t : Token) : Kind × Text :=
  (t.kind, if t.kind = .string then t.literal else [])

/-- What tokens leave in a tree, behind a token of the given kind. -/
def imprint (before : Kind) : List Token → List (Kind × Text)
  | [] => []
  | t :: rest =>
    if before.prints t.kind then t.print :: imprint t.kind rest else imprint t.kind rest

/-- The kind of the last token, or of the one before when there is none. -/
def lastKind (before : Kind) : List Token → Kind
  | [] => before
  | t :: rest => lastKind t.kind rest

@[simp]
theorem lastKind_nil (before : Kind) : lastKind before [] = before := rfl

@[simp]
theorem lastKind_cons (before : Kind) (t : Token) (rest : List Token) :
    lastKind before (t :: rest) = lastKind t.kind rest := rfl

@[simp]
theorem lastKind_append (before : Kind) (u w : List Token) :
    lastKind before (u ++ w) = lastKind (lastKind before u) w := by
  induction u generalizing before with
  | nil => rfl
  | cons t u ih => exact ih t.kind

@[simp]
theorem imprint_nil (before : Kind) : imprint before [] = [] := rfl

@[simp]
theorem imprint_append (before : Kind) (u w : List Token) :
    imprint before (u ++ w) = imprint before u ++ imprint (lastKind before u) w := by
  induction u generalizing before with
  | nil => rfl
  | cons t u ih =>
      simp only [List.cons_append, imprint, lastKind_cons, ih]
      split <;> rfl

theorem leadingKind_append (u w : List Token) (behind : Kind) :
    leadingKind (u ++ w) behind = leadingKind u (leadingKind w behind) := by
  cases u <;> rfl

/-- Only of a parenthesis it matters what stands before. -/
theorem imprint_behind {w : List Token} {behind : Kind} (h : leadingKind w behind ≠ .lparen)
    (before other : Kind) : imprint before w = imprint other w := by
  cases w with
  | nil => rfl
  | cons t w =>
      have ht : t.kind ≠ .lparen := h
      simp [imprint, Kind.prints, ht]

/-- Tokens of the same kinds leave as much. -/
theorem length_imprint_eq {u w : List Token} (h : u.map Token.kind = w.map Token.kind)
    (before : Kind) : (imprint before u).length = (imprint before w).length := by
  induction u generalizing before w with
  | nil =>
      obtain rfl := List.map_eq_nil_iff.1 h.symm
      rfl
  | cons t u ih =>
      obtain ⟨s, w, rfl, hs, hw⟩ := List.map_eq_cons_iff.1 h.symm
      have hrest := ih hw.symm t.kind
      simp only [imprint, hs]
      split <;> simp [hrest]

/-! ## Of trees -/

mutual

/-- What the tokens of an expression leave in it. -/
def Expr.imprint : Expr → List (Kind × Text)
  | .ident _ | .int _ _ | .bool _ _ => []
  | .string t => [(.string, t.literal)]
  | .unary t operand => (t.kind, []) :: operand.imprint
  | .binary t left right => left.imprint ++ (t.kind, []) :: right.imprint
  | .cond _ test consequence none => test.imprint ++ consequence.imprint
  | .cond _ test consequence (some alternative) =>
    test.imprint ++ (consequence.imprint ++ (.elseWord, []) :: alternative.imprint)
  | .function _ _ body => body.imprint
  | .call _ callee arguments => callee.imprint ++ (.lparen, []) :: imprintAll arguments
  | .array _ elements => (.lbracket, []) :: imprintAll elements
  | .index _ collection key => collection.imprint ++ (.lbracket, []) :: key.imprint
  | .hash _ pairs => imprintPairs pairs

/-- What the tokens of expressions leave in them. -/
def imprintAll : List Expr → List (Kind × Text)
  | [] => []
  | e :: rest => e.imprint ++ imprintAll rest

/-- What the tokens of the entries of a hash literal leave in them. -/
def imprintPairs : List (Expr × Expr) → List (Kind × Text)
  | [] => []
  | (key, value) :: rest => key.imprint ++ (value.imprint ++ imprintPairs rest)

/-- What the tokens of a statement leave in it. -/
def Stmt.imprint : Stmt → List (Kind × Text)
  | .bind _ _ value => value.imprint
  | .leave _ none => []
  | .leave _ (some value) => value.imprint
  | .expr _ value => value.imprint

/-- What the tokens of statements leave in them. -/
def imprintStatements : List Stmt → List (Kind × Text)
  | [] => []
  | s :: rest => s.imprint ++ imprintStatements rest

/-- What the tokens of a block leave in it. -/
def Block.imprint : Block → List (Kind × Text)
  | .mk _ statements => imprintStatements statements

end

/-! ## Derivations -/

/-- A block ends with its brace. -/
theorem Braced.lastKind_eq {w : List Token} {b : Block} (h : Braced w b) (before : Kind) :
    lastKind before w = .rbrace := by
  cases h with
  | mk _ _ hclosing => simp [hclosing]

/-- Every expression ends with a token that may end one. -/
theorem Phrase.lastKind_ends {level : Level} {w : List Token} {e : Expr} (h : Phrase level w e)
    (before : Kind) : (lastKind before w).ends := by
  match h with
  | .binary _ _ right => simpa using right.lastKind_ends _
  | .loosen _ inner => exact inner.lastKind_ends before
  | .unary _ operand => exact operand.lastKind_ends _
  | .call _ _ _ h | .index _ _ _ h | .group _ _ h | .array _ _ h | .hash _ _ h =>
      simp [h, Kind.ends]
  | .ident h | .int h _ | .string h | .yes h | .no h => simp [h, Kind.ends]
  | .cond _ _ branch | .condElse _ _ _ _ branch | .function _ _ _ _ branch =>
      simp [branch.lastKind_eq, Kind.ends]

/-- An operator leaves its kind, whatever it stands behind. -/
theorem imprint_operator {level : Level} {t : Token} (h : t.kind ∈ level.operators)
    (before : Kind) (w : List Token) :
    imprint before (t :: w) = (t.kind, []) :: imprint t.kind w ∧ ¬ t.kind.ends := by
  cases level <;> simp only [Level.operators, List.mem_cons, List.not_mem_nil, or_false] at h <;>
    rcases h with h | h <;> simp [imprint, Kind.prints, Kind.continues, Kind.ends, Token.print, h]

theorem Named.imprint_eq {w : List Token} {t : Token} (h : Named w t) (before : Kind) :
    imprint before w = [] := by
  cases h with
  | mk h => simp [imprint, Kind.prints, Kind.continues, h]

theorem Listing.imprint_named {w parameters : List Token} (h : Listing Named w parameters)
    (before : Kind) : imprint before w = [] := by
  cases h with
  | none => rfl
  | some series =>
      induction series generalizing before with
      | one first => exact first.imprint_eq before
      | more first hcomma _ ih =>
          simp [first.imprint_eq, ih, imprint, Kind.prints, Kind.continues, hcomma]

/-- An ending leaves nothing, and behind one without a semicolon there is no parenthesis. -/
theorem Ending.imprint_eq {behind : Kind} {z : List Token} (h : Ending behind z) (before : Kind) :
    imprint before z = [] ∧ ((lastKind before z).ends → behind ≠ .lparen) := by
  cases h with
  | omitted hbehind =>
      refine ⟨rfl, ?_⟩
      rintro _ rfl
      exact hbehind (by decide)
  | semicolon hmark => simp [imprint, Kind.prints, Kind.continues, Kind.ends, hmark]

/-- A parenthesis behind a statement comes after a semicolon. -/
theorem Sentence.behind_ne_lparen {behind before : Kind} {w : List Token} {s : Stmt}
    (h : Sentence behind w s) (hends : (lastKind before w).ends) : behind ≠ .lparen := by
  cases h with
  | bind _ _ _ _ ending | leaveWith _ _ ending | expr _ ending =>
      simp only [lastKind_cons, lastKind_append] at hends
      exact (ending.imprint_eq _).2 hends
  | leave h _ => simp [h, Kind.ends] at hends
  | leaveMarked _ hmark => simp [hmark, Kind.ends] at hends

-- The induction is on the derivation; lists are opened along with their items.
mutual

/-- An expression behind a token that ends none leaves what its tree says. -/
theorem Phrase.imprint_eq {level : Level} {w : List Token} {e : Expr} (h : Phrase level w e)
    (before : Kind) (hbefore : ¬ before.ends) : imprint before w = e.imprint := by
  match h with
  | .binary operator left right =>
      obtain ⟨hprint, hends⟩ := imprint_operator operator (lastKind before _) _
      rw [imprint_append, left.imprint_eq before hbefore, hprint, right.imprint_eq _ hends,
        Expr.imprint]
  | .loosen _ inner => exact inner.imprint_eq before hbefore
  | .unary operator operand =>
      rw [Expr.imprint]
      rcases operator with h | h
      · rw [← operand.imprint_eq .bang (by decide)]
        simp [imprint, Kind.prints, Token.print, h]
      · rw [← operand.imprint_eq .minus (by decide)]
        simp [imprint, Kind.prints, Kind.continues, Token.print, h]
  | .call callee hopening list hclosing =>
      have hcallee := callee.lastKind_ends before
      rw [imprint_append, callee.imprint_eq before hbefore, Expr.imprint,
        ← list.imprint_eq .lparen (by decide)]
      simp [imprint, Kind.prints, Kind.continues, Token.print, hopening, hclosing, hcallee]
  | .index collection hopening key hclosing =>
      rw [imprint_append, collection.imprint_eq before hbefore, Expr.imprint,
        ← key.imprint_eq .lbracket (by decide)]
      simp [imprint, Kind.prints, Kind.continues, Token.print, hopening, hclosing]
  | .ident h | .int h _ | .yes h | .no h =>
      simp [imprint, Kind.prints, Kind.continues, Expr.imprint, h]
  | .string h => simp [imprint, Kind.prints, Token.print, Expr.imprint, h]
  | .group hopening inner hclosing =>
      rw [← inner.imprint_eq .lparen (by decide)]
      simp [imprint, Kind.prints, Kind.continues, hopening, hclosing, hbefore]
  | .cond h condition branch =>
      rw [Expr.imprint, ← condition.imprint_eq .ifWord (by decide)]
      simp [imprint, Kind.prints, Kind.continues, h, branch.imprint_eq]
  | .condElse h condition branch hother otherBranch =>
      rw [Expr.imprint, ← condition.imprint_eq .ifWord (by decide)]
      simp [imprint, Kind.prints, Kind.continues, Token.print, h, branch.imprint_eq, hother,
        otherBranch.imprint_eq]
  | .function h hopening list hclosing block =>
      have hfn : ¬ Kind.fnWord.ends := by decide
      rw [Expr.imprint]
      simp [imprint, Kind.prints, Kind.continues, h, hopening, hfn, list.imprint_named, hclosing,
        block.imprint_eq]
  | .array hopening list hclosing =>
      rw [Expr.imprint, ← list.imprint_eq .lbracket (by decide)]
      simp [imprint, Kind.prints, Kind.continues, Token.print, hopening, hclosing]
  | .hash hopening entries hclosing =>
      rw [Expr.imprint, ← entries.imprint_eq .lbrace (by decide)]
      simp [imprint, Kind.prints, Kind.continues, hopening, hclosing]

theorem Listing.imprint_eq {w : List Token} {list : List Expr}
    (h : Listing (Phrase .equality) w list) (before : Kind) (hbefore : ¬ before.ends) :
    imprint before w = imprintAll list := by
  match h with
  | .none => rw [imprintAll, imprint_nil]
  | .some series => exact series.imprint_eq before hbefore

theorem Series.imprint_eq {w : List Token} {list : List Expr}
    (h : Series (Phrase .equality) w list) (before : Kind) (hbefore : ¬ before.ends) :
    imprint before w = imprintAll list := by
  match h with
  | .one first => rw [imprintAll, imprintAll, List.append_nil, first.imprint_eq before hbefore]
  | .more first hcomma others =>
      rw [imprintAll, imprint_append, first.imprint_eq before hbefore,
        ← others.imprint_eq .comma (by decide)]
      simp [imprint, Kind.prints, Kind.continues, hcomma]

theorem Entries.imprint_eq {w : List Token} {list : List (Expr × Expr)} (h : Entries w list)
    (before : Kind) (hbefore : ¬ before.ends) : imprint before w = imprintPairs list := by
  match h with
  | .none => rw [imprintPairs, imprint_nil]
  | .last key hcolon value =>
      rw [imprintPairs, imprintPairs, imprint_append, key.imprint_eq before hbefore,
        ← value.imprint_eq .colon (by decide)]
      simp [imprint, Kind.prints, Kind.continues, hcolon]
  | .more key hcolon value hcomma others =>
      rw [imprintPairs, imprint_append, key.imprint_eq before hbefore,
        ← value.imprint_eq .colon (by decide), ← others.imprint_eq .comma (by decide)]
      simp [imprint, Kind.prints, Kind.continues, hcolon, hcomma]

theorem Braced.imprint_eq {w : List Token} {b : Block} (h : Braced w b) (before : Kind) :
    imprint before w = b.imprint := by
  match h with
  | .mk hopening body hclosing =>
      rw [Block.imprint, ← body.imprint_eq .lbrace fun h => absurd h (by decide)]
      simp [imprint, Kind.prints, Kind.continues, hopening, hclosing]

theorem Body.imprint_eq {behind : Kind} {w : List Token} {list : List Stmt}
    (h : Body behind w list) (before : Kind)
    (hbefore : before.ends → leadingKind w behind ≠ .lparen) :
    imprint before w = imprintStatements list := by
  match h with
  | .done => rw [imprintStatements, imprint_nil]
  | .semicolon h rest =>
      rw [← rest.imprint_eq .semicolon fun h => absurd h (by decide)]
      simp [imprint, Kind.prints, Kind.continues, h]
  | .statement first rest =>
      rw [imprintStatements, imprint_append, first.imprint_eq before ?_,
        rest.imprint_eq _ first.behind_ne_lparen]
      rwa [← leadingKind_append]

theorem Sentence.imprint_eq {behind : Kind} {w : List Token} {s : Stmt} (h : Sentence behind w s)
    (before : Kind) (hbefore : before.ends → leadingKind w behind ≠ .lparen) :
    imprint before w = s.imprint := by
  match h with
  | .bind h hname hsign value ending =>
      rw [Stmt.imprint, ← value.imprint_eq .assign (by decide)]
      simp [imprint, Kind.prints, Kind.continues, h, hname, hsign, (ending.imprint_eq _).1]
  | .leave h _ => simp [imprint, Kind.prints, Kind.continues, Stmt.imprint, h]
  | .leaveMarked h hmark => simp [imprint, Kind.prints, Kind.continues, Stmt.imprint, h, hmark]
  | .leaveWith h value ending =>
      rw [Stmt.imprint, ← value.imprint_eq .returnWord (by decide)]
      simp [imprint, Kind.prints, Kind.continues, h, (ending.imprint_eq _).1]
  | .expr (t := t) (w := w) (e := e) value ending =>
      have hvalue : imprint before (t :: w) = e.imprint := by
        by_cases hends : before.ends
        · have ht : leadingKind (t :: w) behind ≠ .lparen := hbefore hends
          rw [imprint_behind ht before .eof, value.imprint_eq .eof (by decide)]
        · exact value.imprint_eq before hends
      rw [Stmt.imprint, ← List.cons_append, imprint_append, hvalue, (ending.imprint_eq _).1,
        List.append_nil]

end

/-- **The imprint of a program** can be taken of its tokens or of its tree. -/
theorem Body.imprint_program {w : List Token} {list : List Stmt} (h : Body .eof w list) :
    imprint .eof w = imprintStatements list :=
  h.imprint_eq .eof fun hends => absurd hends (by decide)

end MonkeyLang
