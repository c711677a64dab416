import MonkeyLang.Parse.Fault
import MonkeyLang.Token.Basic

/-!
# Rules of the grammar

A rule starts on the first token of what it reads and, when it succeeds, leaves
the cursor on the last one.  A rule that fails has recorded why and leaves the
cursor where it gave up; the rules around it fail with it, up to the statement
that is dropped.  Errors come in the order in which they were recorded.
-/

namespace MonkeyLang

/-!
## Cursors over tokens

A cursor stands on a token of a list that ends in an end token.  Looking past
the end shows the end token again and moving on there stays in place, so no
reader has to ask whether there is a next token.
-/

/-- The tokens not yet passed, the closing end token apart. -/
structure Cursor where
  ahead : List Token
  finish : Token
  isEnd : finish.kind = .eof

namespace Cursor

/-- The token the cursor stands on. -/
def current (c : Cursor) : Token := c.ahead.headD c.finish

/-- The token after it. -/
def upcoming (c : Cursor) : Token := c.ahead.tail.headD c.finish

/-- The cursor on the token after it. -/
def advance (c : Cursor) : Cursor := { c with ahead := c.ahead.tail }

/-- The number of tokens before the closing end token. -/
def size (c : Cursor) : Nat := c.ahead.length

/-- The end token for a list that lacks one: just after its last token.  Tokens may
claim to stand anywhere, and columns have 64 bits. -/
def closing : List Token → Token
  | [] => ⟨.eof, [], .start⟩
  | t :: rest =>
    let last := rest.getLastD t
    let column := (last.position.column + last.literal.length).bmod (0x10000000000000000)
    ⟨.eof, [], ⟨last.position.line, column⟩⟩

/-- A closing token is an end token. -/
theorem kind_closing (tokens : List Token) : (closing tokens).kind = .eof := by
  cases tokens <;> rfl

/-- A cursor on the first of the given tokens.  A missing end token is
supplied. -/
def ofTokens (tokens : List Token) : Cursor :=
  match tokens.getLast? with
  | none => ⟨tokens, closing tokens, kind_closing tokens⟩
  | some last =>
    if h : last.kind = .eof then ⟨tokens.dropLast, last, h⟩
    else ⟨tokens, closing tokens, kind_closing tokens⟩

@[simp]
theorem size_advance (c : Cursor) : c.advance.size = c.size - 1 := by
  simp [advance, size]

/-- A cursor on anything but an end token can move on. -/
theorem size_pos_of_current {c : Cursor} (h : c.current.kind ≠ .eof) : 0 < c.size := by
  cases hc : c.ahead with
  | nil => simp [current, hc, c.isEnd] at h
  | cons t rest => simp [size, hc]

/-- A cursor before anything but an end token can move on twice. -/
theorem one_lt_size_of_upcoming {c : Cursor} (h : c.upcoming.kind ≠ .eof) : 1 < c.size := by
  cases hc : c.ahead with
  | nil => simp [upcoming, hc, c.isEnd] at h
  | cons t rest =>
    cases hr : rest with
    | nil => simp [upcoming, hc, hr, c.isEnd] at h
    | cons u more => simp [size, hc, hr]

end Cursor

/-! ## Rules -/

/-- What a rule leaves behind. -/
structure Outcome (α : Type) where
  /-- What was read, if the rule succeeded. -/
  node? : Option α
  cursor : Cursor
  /-- The errors recorded on the way. -/
  errors : List SyntaxError

/-- A rule of the grammar. -/
def Rule (α : Type) := Cursor → Outcome α

namespace Rule

variable {α β : Type}

/-- Succeeds without reading. -/
@[inline]
def succeed (a : α) : Rule α := fun c => ⟨some a, c, []⟩

/-- One rule after another; the second one is not tried when the first fails. -/
@[inline]
def andThen (first : Rule α) (second : α → Rule β) : Rule β := fun c =>
  match first c with
  | ⟨none, c', errors⟩ => ⟨none, c', errors⟩
  | ⟨some a, c', errors⟩ =>
    match second a c' with
    | ⟨node?, c'', more⟩ => ⟨node?, c'', errors ++ more⟩

instance : Monad Rule where
  pure := succeed
  bind := andThen

/-- The current token. -/
def current : Rule Token := fun c => ⟨some c.current, c, []⟩

/-- The token after the current one. -/
def upcoming : Rule Token := fun c => ⟨some c.upcoming, c, []⟩

/-- Moves to the next token. -/
def advance : Rule Unit := fun c => ⟨some (), c.advance, []⟩

/-- Records an error and fails. -/
def fail (fault : Fault) (token : Token) : Rule α := fun c => ⟨none, c, [⟨fault, token⟩]⟩

/-- Moves to the next token if it has the given kind; else the error is recorded
at that token and the cursor stays. -/
def expectNext (kind : Kind) : Rule Unit := do
  let t ← upcoming
  if t.kind = kind then advance else fail (.expected kind t.kind) t

/-- Moves over the next token if it has the given kind. -/
def skipNext (kind : Kind) : Rule Unit := do
  let t ← upcoming
  if t.kind = kind then advance else pure ()

/-- Goes on after a failure, with nothing read. -/
def attempt (rule : Rule α) : Rule (Option α) := fun c =>
  let ⟨node?, c', errors⟩ := rule c
  ⟨some node?, c', errors⟩

/-- A loop with as many turns as tokens are left.  Every turn passes a token, so
it never ends for want of turns. -/
def looped (loop : Nat → Rule α) : Rule α := fun c => loop c.size c

/-- The items after the first one, each behind a comma, up to the given end. -/
def moreItems (item : Rule α) (close : Kind) : Nat → Rule (List α)
  | 0 => do
    expectNext close
    pure []
  | n + 1 => do
    let t ← upcoming
    if t.kind = .comma then
      advance
      advance
      let a ← item
      let rest ← moreItems item close n
      pure (a :: rest)
    else
      expectNext close
      pure []

/-- Items with commas between them.  The cursor stands on the opening delimiter
before and on the closing one after. -/
def items (item : Rule α) (close : Kind) : Rule (List α) := do
  let t ← upcoming
  if t.kind = close then
    advance
    pure []
  else
    advance
    let a ← item
    let rest ← looped (moreItems item close)
    pure (a :: rest)

end Rule
end MonkeyLang
