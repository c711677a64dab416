import MonkeyLang.Parse.Grammar

/-!
# Walking through the grammar

The rules of the grammar count: a loop has as many turns as tokens are left, and so has the
recursion through expressions.  They would end even if they never moved.  A walk goes through
the same grammar without counting tokens.  It stands at a position, the index of a token, and
only `Walk.advance` changes it; the closing end token has the last index.  The limit of a walk
is just a number: if a loop takes that many turns, or expressions nest deeper, the walk has no
outcome at all.  So a walk that comes to an end under some limit is one that ends by itself.

On its way a walk notes every move, every call of a rule that can contain itself, with all
the calls it is made within, and every turn of a loop, with the position where it began.
-/

namespace MonkeyLang

/-! ## Positions -/

namespace Cursor

/-- The cursor on the token with the given index; beyond the last token it is on the last. -/
def seek (c : Cursor) (i : Nat) : Cursor := { c with ahead := c.ahead.drop i }

/-- The position after the given one.  From the last token there is no way on. -/
def onwardFrom (c : Cursor) (i : Nat) : Nat := if i < c.size then i + 1 else i

variable {c : Cursor} {i : Nat}

@[simp]
theorem seek_zero (c : Cursor) : c.seek 0 = c := rfl

@[simp]
theorem size_seek (c : Cursor) (i : Nat) : (c.seek i).size = c.size - i := by
  simp [seek, size]

theorem advance_seek (c : Cursor) (i : Nat) : (c.seek i).advance = c.seek (i + 1) := by
  simp [seek, advance]

/-- Moving on is moving to the next position. -/
theorem seek_onwardFrom (c : Cursor) (i : Nat) :
    c.seek (c.onwardFrom i) = (c.seek i).advance := by
  unfold onwardFrom
  split
  · rw [advance_seek]
  · next hlast =>
    have hnil : c.ahead.drop i = [] := List.drop_eq_nil_of_le (Nat.le_of_not_lt hlast)
    simp [seek, advance, hnil]

/-- There are positions behind one that is not on an end token. -/
theorem lt_of_current (h : (c.seek i).current.kind ≠ .eof) : i < c.size := by
  have hsize := size_pos_of_current h
  rw [size_seek] at hsize
  omega

theorem lt_of_upcoming (h : (c.seek i).upcoming.kind ≠ .eof) : i + 1 < c.size := by
  have hsize := one_lt_size_of_upcoming h
  rw [size_seek] at hsize
  omega

theorem onwardFrom_of_lt (h : i < c.size) : c.onwardFrom i = i + 1 := if_pos h

theorem le_onwardFrom (c : Cursor) (i : Nat) : i ≤ c.onwardFrom i := by
  unfold onwardFrom
  split <;> omega

/-- From wherever a walk has come to, moving on leaves a position that is not the last. -/
theorem lt_onwardFrom {j : Nat} (hi : i < c.size) (hij : i ≤ j) : i < c.onwardFrom j := by
  unfold onwardFrom
  split <;> omega

theorem onwardFrom_le (h : i ≤ c.size) : c.onwardFrom i ≤ c.size := by
  unfold onwardFrom
  split <;> omega

end Cursor

/-! ## Footsteps -/

/-- The rules that can contain themselves. -/
inductive Nesting where
  | expression | block | items
  deriving DecidableEq, Repr

/-- The loops: over the statements of a program or a block, over the items behind a comma,
over the entries of a hash and over the operators behind an operand. -/
inductive Loop where
  | statements | items | pairs | operators
  deriving DecidableEq, Repr

/-- A call that has not returned, and the position where it was made. -/
structure Site where
  call : Nesting
  place : Nat
  deriving DecidableEq, Repr

/-- What a walk notes on its way. -/
inductive Footstep where
  /-- It moved on to a position. -/
  | moved (place : Nat)
  /-- A rule was called, within other calls. -/
  | called (call : Nesting) (sites : List Site) (place : Nat)
  /-- A turn of a loop that began at `start` is over. -/
  | turned (loop : Loop) (start place : Nat)
  deriving DecidableEq, Repr

/-- The position a footstep is at. -/
def Footstep.place : Footstep → Nat
  | .moved place => place
  | .called _ _ place => place
  | .turned _ _ place => place

/-! ## Walks -/

/-- What a walk leaves behind: what a rule does, and its footsteps in their order. -/
structure Walked (α : Type) where
  node? : Option α
  place : Nat
  errors : List SyntaxError
  trail : List Footstep

/-- A walk over tokens, given by the cursor on the first one, within calls that were made
before and from a position. -/
def Walk (α : Type) := Cursor → List Site → Nat → Option (Walked α)

namespace Walk

variable {α β : Type}

/-- Succeeds without moving. -/
def succeed (a : α) : Walk α := fun _ _ i => some ⟨some a, i, [], []⟩

/-- One walk after another; the second one is not tried when the first fails. -/
def andThen (first : Walk α) (second : α → Walk β) : Walk β := fun start sites i =>
  match first start sites i with
  | none => none
  | some ⟨none, j, errors, trail⟩ => some ⟨none, j, errors, trail⟩
  | some ⟨some a, j, errors, trail⟩ =>
    match second a start sites j with
    | none => none
    | some ⟨node?, k, more, later⟩ => some ⟨node?, k, errors ++ more, trail ++ later⟩

instance : Monad Walk where
  pure := succeed
  bind := andThen

/-- The limit is reached. -/
def never : Walk α := fun _ _ _ => none

/-- The position. -/
def place : Walk Nat := fun _ _ i => some ⟨some i, i, [], []⟩

/-- The current token. -/
def current : Walk Token := fun start _ i => some ⟨some (start.seek i).current, i, [], []⟩

/-- The token after the current one. -/
def upcoming : Walk Token := fun start _ i => some ⟨some (start.seek i).upcoming, i, [], []⟩

/-- Moves to the next token. -/
def advance : Walk Unit := fun start _ i =>
  some ⟨some (), start.onwardFrom i, [], [.moved (start.onwardFrom i)]⟩

/-- Records an error and fails. -/
def fail (fault : Fault) (token : Token) : Walk α := fun _ _ i =>
  some ⟨none, i, [⟨fault, token⟩], []⟩

/-- Notes a call, and goes on within it. -/
def within (call : Nesting) (walk : Walk α) : Walk α := fun start sites i =>
  match walk start (⟨call, i⟩ :: sites) i with
  | none => none
  | some ⟨node?, j, errors, trail⟩ => some ⟨node?, j, errors, .called call sites i :: trail⟩

/-- Notes the end of a turn. -/
def turned (loop : Loop) (start : Nat) : Walk Unit := fun _ _ i =>
  some ⟨some (), i, [], [.turned loop start i]⟩

/-- Moves to the next token if it has the given kind; else the error is recorded. -/
def expectNext (kind : Kind) : Walk Unit := do
  let t ← upcoming
  if t.kind = kind then advance else fail (.expected kind t.kind) t

/-- Moves over the next token if it has the given kind. -/
def skipNext (kind : Kind) : Walk Unit := do
  let t ← upcoming
  if t.kind = kind then advance else pure ()

/-- Goes on after a failure, with nothing read. -/
def attempt (walk : Walk α) : Walk (Option α) := fun start sites i =>
  match walk start sites i with
  | none => none
  | some ⟨node?, j, errors, trail⟩ => some ⟨some node?, j, errors, trail⟩

/-! ## Equations of the steps -/

/-- What follows a step that only looks is done in its place. -/
theorem bind_run_of_look {walk : Walk α} {start : Cursor} {sites : List Site} {i : Nat} {a : α}
    (h : walk start sites i = some ⟨some a, i, [], []⟩) (f : α → Walk β) :
    (walk >>= f) start sites i = f a start sites i := by
  change andThen walk f start sites i = _
  simp only [andThen, h, List.nil_append]
  cases f a start sites i <;> rfl

@[simp]
theorem current_bind_run (f : Token → Walk β) (start : Cursor) (sites : List Site) (i : Nat) :
    (current >>= f) start sites i = f (start.seek i).current start sites i :=
  bind_run_of_look rfl f

@[simp]
theorem upcoming_bind_run (f : Token → Walk β) (start : Cursor) (sites : List Site) (i : Nat) :
    (upcoming >>= f) start sites i = f (start.seek i).upcoming start sites i :=
  bind_run_of_look rfl f

@[simp]
theorem place_bind_run (f : Nat → Walk β) (start : Cursor) (sites : List Site) (i : Nat) :
    (place >>= f) start sites i = f i start sites i :=
  bind_run_of_look rfl f

/-- A required token is passed over when it is there. -/
theorem expectNext_run (kind : Kind) (start : Cursor) (sites : List Site) (i : Nat) :
    expectNext kind start sites i =
      if (start.seek i).upcoming.kind = kind then advance start sites i
      else
        fail (.expected kind (start.seek i).upcoming.kind) (start.seek i).upcoming
          start sites i := by
  unfold expectNext
  rw [upcoming_bind_run]
  split <;> rfl

/-! ## The grammar -/

/-- A walk through expressions of a given binding power. -/
abbrev Reader := Power → Walk Expr

/-- Walks through the items after the first one. -/
def moreItems (item : Walk α) (close : Kind) : Nat → Walk (List α)
  | 0 => never
  | n + 1 => do
    let t ← upcoming
    if t.kind = .comma then
      let start ← place
      advance
      advance
      let a ← item
      turned .items start
      let rest ← moreItems item close n
      pure (a :: rest)
    else
      expectNext close
      pure []

section Rules

variable (limit : Nat) (read : Reader)

/-- Walks through items with commas between them. -/
def items (item : Walk α) (close : Kind) : Walk (List α) := within .items do
  let t ← upcoming
  if t.kind = close then
    advance
    pure []
  else
    advance
    let a ← item
    let rest ← moreItems item close limit
    pure (a :: rest)

/-- Walks through a `let` statement. -/
def bindStatement : Walk Stmt := do
  let t ← current
  expectNext .ident
  let name ← current
  expectNext .assign
  advance
  let value ← read .lowest
  skipNext .semicolon
  pure (.bind t name value)

/-- Walks through a `return` statement. -/
def leaveStatement : Walk Stmt := do
  let t ← current
  let next ← upcoming
  if next.kind = .semicolon ∨ next.kind = .rbrace ∨ next.kind = .eof then
    skipNext .semicolon
    pure (.leave t none)
  else
    advance
    let value ← read .lowest
    skipNext .semicolon
    pure (.leave t (some value))

/-- Walks through a statement that is an expression. -/
def exprStatement : Walk Stmt := do
  let t ← current
  let value ← read .lowest
  skipNext .semicolon
  pure (.expr t value)

/-- Walks through a statement. -/
def statement : Walk Stmt := do
  let t ← current
  match t.kind with
  | .letWord => bindStatement read
  | .returnWord => leaveStatement read
  | _ => exprStatement read

/-- Walks through statements up to where they stop. -/
def statements (inBlock : Bool) : Nat → Walk (List Stmt)
  | 0 => never
  | n + 1 => do
    let t ← current
    if Grammar.stops inBlock t.kind then
      pure []
    else
      let start ← place
      if t.kind = .semicolon then
        advance
        turned .statements start
        statements inBlock n
      else
        let found ← attempt (statement read)
        advance
        turned .statements start
        let rest ← statements inBlock n
        pure (found.toList ++ rest)

/-- Walks through a block. -/
def block : Walk Block := within .block do
  let t ← current
  advance
  let body ← statements read true limit
  let stop ← current
  if stop.kind = .eof then fail (.expected .rbrace .eof) stop else pure (.mk t body)

/-- Walks over a parameter name. -/
def parameter : Walk Token := do
  let t ← current
  if t.kind = .ident then pure t else fail (.expected .ident t.kind) t

/-- Walks through the entries of a hash literal. -/
def pairs : Nat → Walk (List (Expr × Expr))
  | 0 => never
  | n + 1 => do
    let t ← upcoming
    if t.kind = .rbrace then
      advance
      pure []
    else
      let start ← place
      advance
      let key ← read .lowest
      expectNext .colon
      advance
      let value ← read .lowest
      let after ← upcoming
      if after.kind ≠ .rbrace then
        expectNext .comma
      turned .pairs start
      let rest ← pairs n
      pure ((key, value) :: rest)

/-- Walks through a conditional. -/
def conditional : Walk Expr := do
  let t ← current
  advance
  let test ← read .lowest
  expectNext .lbrace
  let consequence ← block limit read
  let next ← upcoming
  if next.kind = .elseWord then
    advance
    expectNext .lbrace
    let alternative ← block limit read
    pure (.cond t test consequence (some alternative))
  else
    pure (.cond t test consequence none)

/-- Walks through a function literal. -/
def function : Walk Expr := do
  let t ← current
  expectNext .lparen
  let parameters ← items limit parameter .rparen
  expectNext .lbrace
  let body ← block limit read
  pure (.function t parameters body)

/-- Walks through what an expression starts with. -/
def operand : Walk Expr := do
  let t ← current
  match t.kind with
  | .ident => pure (.ident t)
  | .int =>
    match t.literal.toInt64? with
    | some value => pure (.int t value)
    | none => fail (.badInteger t.literal) t
  | .string => pure (.string t)
  | .trueWord => pure (.bool t true)
  | .falseWord => pure (.bool t false)
  | .bang | .minus =>
    advance
    let right ← read .sign
    pure (.unary t right)
  | .lparen =>
    advance
    let inner ← read .lowest
    expectNext .rparen
    pure inner
  | .ifWord => conditional limit read
  | .fnWord => function limit read
  | .lbracket =>
    let elements ← items limit (read .lowest) .rbracket
    pure (.array t elements)
  | .lbrace =>
    let entries ← pairs read limit
    pure (.hash t entries)
  | .illegal => fail (.illegal t.literal) t
  | _ => fail (.noOperand t.kind) t

/-- Walks on after a left operand. -/
def continuation (left : Expr) : Walk Expr := do
  let t ← current
  match t.kind with
  | .lparen =>
    let arguments ← items limit (read .lowest) .rparen
    pure (.call t left arguments)
  | .lbracket =>
    advance
    let key ← read .lowest
    expectNext .rbracket
    pure (.index t left key)
  | kind =>
    advance
    let right ← read kind.power
    pure (.binary t left right)

/-- Walks on for as long as the next token binds tighter than the given power. -/
def climb (power : Power) : Nat → Expr → Walk Expr
  | 0, _ => never
  | n + 1, left => do
    let t ← upcoming
    if power < t.kind.power then
      let start ← place
      advance
      let larger ← continuation limit read left
      turned .operators start
      climb power n larger
    else
      pure left

/-- Walks through an expression. -/
def expressionWith (power : Power) : Walk Expr := within .expression do
  let left ← operand limit read
  climb limit read power limit left

end Rules

/-- Walks through an expression in which others nest less deep than the given number. -/
def expression (limit : Nat) : Nat → Reader
  | 0 => fun _ => never
  | n + 1 => expressionWith limit (expression limit n)

/-- Walks through a whole program: no loop may take as many turns as the limit, and
expressions may nest no deeper than it. -/
def program (limit : Nat) : Walk Program := do
  let body ← statements (expression limit limit) false limit
  pure ⟨body⟩

end Walk
end MonkeyLang
