import MonkeyLang.Proofs.GrammarOrder

/-!
# Reading tokens that were moved

The grammar goes by the kinds and the literals of tokens and never by their places.
So when every token is moved to another place, the same program is read with its
tokens moved, and the same errors are recorded at the moved tokens.

The rules are followed side by side on a cursor and on the moved one.  The two
readers of expressions may be given different numbers of turns: as long as both have
more turns than tokens are left, neither runs out of them.
-/

namespace MonkeyLang

/-! ## Moving tokens, trees and errors -/

/-- The token at another place. -/
def Token.move (f : Position → Position) (t : Token) : Token :=
  { t with position := f t.position }

@[simp]
theorem Token.kind_move (f : Position → Position) (t : Token) : (t.move f).kind = t.kind := rfl

@[simp]
theorem Token.literal_move (f : Position → Position) (t : Token) :
    (t.move f).literal = t.literal := rfl

mutual

/-- The expression with its tokens moved. -/
def Expr.move (f : Position → Position) : Expr → Expr
  | .ident t => .ident (t.move f)
  | .int t value => .int (t.move f) value
  | .string t => .string (t.move f)
  | .bool t value => .bool (t.move f) value
  | .unary t operand => .unary (t.move f) (operand.move f)
  | .binary t left right => .binary (t.move f) (left.move f) (right.move f)
  | .cond t test consequence none => .cond (t.move f) (test.move f) (consequence.move f) none
  | .cond t test consequence (some alternative) =>
    .cond (t.move f) (test.move f) (consequence.move f) (some (alternative.move f))
  | .function t parameters body =>
    .function (t.move f) (parameters.map (Token.move f)) (body.move f)
  | .call t callee arguments => .call (t.move f) (callee.move f) (moveAll f arguments)
  | .array t elements => .array (t.move f) (moveAll f elements)
  | .index t collection key => .index (t.move f) (collection.move f) (key.move f)
  | .hash t pairs => .hash (t.move f) (movePairs f pairs)

/-- Expressions with their tokens moved. -/
def moveAll (f : Position → Position) : List Expr → List Expr
  | [] => []
  | e :: rest => e.move f :: moveAll f rest

/-- The entries of a hash literal with their tokens moved. -/
def movePairs (f : Position → Position) : List (Expr × Expr) → List (Expr × Expr)
  | [] => []
  | (key, value) :: rest => (key.move f, value.move f) :: movePairs f rest

/-- The statement with its tokens moved. -/
def Stmt.move (f : Position → Position) : Stmt → Stmt
  | .bind t name value => .bind (t.move f) (name.move f) (value.move f)
  | .leave t none => .leave (t.move f) none
  | .leave t (some value) => .leave (t.move f) (some (value.move f))
  | .expr t value => .expr (t.move f) (value.move f)

/-- Statements with their tokens moved. -/
def moveStatements (f : Position → Position) : List Stmt → List Stmt
  | [] => []
  | s :: rest => s.move f :: moveStatements f rest

/-- The block with its tokens moved. -/
def Block.move (f : Position → Position) : Block → Block
  | .mk t statements => .mk (t.move f) (moveStatements f statements)

end

/-- The program with its tokens moved. -/
def Program.move (f : Position → Position) (p : Program) : Program :=
  ⟨p.statements.map (Stmt.move f)⟩

/-- The error at the moved token. -/
def SyntaxError.move (f : Position → Position) (e : SyntaxError) : SyntaxError :=
  { e with token := e.token.move f }

section Lists

variable (f : Position → Position)

theorem moveAll_eq_map (es : List Expr) : moveAll f es = es.map (Expr.move f) := by
  induction es with
  | nil => rw [moveAll, List.map_nil]
  | cons e rest ih => rw [moveAll, List.map_cons, ih]

theorem movePairs_eq_map (pairs : List (Expr × Expr)) :
    movePairs f pairs = pairs.map (Prod.map (Expr.move f) (Expr.move f)) := by
  induction pairs with
  | nil => rw [movePairs, List.map_nil]
  | cons entry rest ih =>
      obtain ⟨key, value⟩ := entry
      rw [movePairs, List.map_cons, ih]
      rfl

theorem moveStatements_eq_map (list : List Stmt) :
    moveStatements f list = list.map (Stmt.move f) := by
  induction list with
  | nil => rw [moveStatements, List.map_nil]
  | cons s rest ih => rw [moveStatements, List.map_cons, ih]

end Lists

/-- The cursor on moved tokens. -/
def Cursor.move (f : Position → Position) (c : Cursor) : Cursor :=
  ⟨c.ahead.map (Token.move f), c.finish.move f, c.isEnd⟩

namespace Cursor

variable (f : Position → Position) (c : Cursor)

@[simp]
theorem current_move : (c.move f).current = c.current.move f := by
  cases h : c.ahead <;> simp [current, move, h]

@[simp]
theorem advance_move : (c.move f).advance = c.advance.move f := by
  simp [advance, move]

@[simp]
theorem upcoming_move : (c.move f).upcoming = c.upcoming.move f := by
  rw [← current_advance, advance_move, current_move, current_advance]

@[simp]
theorem size_move : (c.move f).size = c.size := by
  simp [size, move]

end Cursor

/-- The outcome on moved tokens, given what becomes of the node. -/
def Outcome.move {α β : Type} (f : Position → Position) (g : α → β) (o : Outcome α) :
    Outcome β :=
  ⟨o.node?.map g, o.cursor.move f, o.errors.map (SyntaxError.move f)⟩

/-! ## Rules on moved tokens -/

namespace Rule

variable {α β γ δ : Type} {f : Position → Position} {n : Nat}

/-- Where at most `n` tokens are left, the second rule finds on the moved tokens what
the first one finds; and the first one adds no tokens. -/
def Commutes (f : Position → Position) (g : α → β) (n : Nat) (r : Rule α) (r' : Rule β) :
    Prop :=
  ∀ c, c.size ≤ n → r' (c.move f) = (r c).move f g ∧ (r c).cursor.size ≤ c.size

namespace Commutes

variable {g : α → β} {h : γ → δ}

theorem mono {k : Nat} {r : Rule α} {r' : Rule β} (hr : Commutes f g n r r') (hk : k ≤ n) :
    Commutes f g k r r' :=
  fun c hc => hr c (Nat.le_trans hc hk)

theorem pure (a : α) : Commutes f g n (Pure.pure a : Rule α) (Pure.pure (g a)) := by
  intro c _
  exact ⟨rfl, Nat.le_refl _⟩

/-- The same fault is found at the moved token. -/
theorem fail (fault : Fault) (t : Token) :
    Commutes f g n (Rule.fail fault t : Rule α) (Rule.fail fault (t.move f)) := by
  intro c _
  exact ⟨rfl, Nat.le_refl _⟩

/-- One rule after another. -/
theorem bind {r : Rule α} {r' : Rule β} {k : α → Rule γ} {k' : β → Rule δ}
    (hr : Commutes f g n r r') (hk : ∀ a, Commutes f h n (k a) (k' (g a))) :
    Commutes f h n (r >>= k) (r' >>= k') := by
  intro c hc
  obtain ⟨hrun, hsize⟩ := hr c hc
  rcases ho : r c with ⟨_ | a, d, errors⟩
  · rw [ho] at hrun hsize
    rw [bind_run_of_none ho, bind_run_of_none hrun]
    exact ⟨rfl, hsize⟩
  · rw [ho] at hrun hsize
    obtain ⟨hnext, hsize'⟩ := hk a d (Nat.le_trans hsize hc)
    rw [bind_run_of_some ho, bind_run_of_some hrun, hnext]
    refine ⟨?_, Nat.le_trans hsize' hsize⟩
    simp [Outcome.move]

theorem current_bind {k : Token → Rule γ} {k' : Token → Rule δ}
    (hk : ∀ t, Commutes f h n (k t) (k' (t.move f))) :
    Commutes f h n (current >>= k) (current >>= k') := by
  intro c hc
  rw [current_bind_run, current_bind_run, Cursor.current_move]
  exact hk c.current c hc

theorem upcoming_bind {k : Token → Rule γ} {k' : Token → Rule δ}
    (hk : ∀ t, Commutes f h n (k t) (k' (t.move f))) :
    Commutes f h n (upcoming >>= k) (upcoming >>= k') := by
  intro c hc
  rw [upcoming_bind_run, upcoming_bind_run, Cursor.upcoming_move]
  exact hk c.upcoming c hc

/-- Moving on leaves one token less. -/
theorem advance_bind {k : Unit → Rule γ} {k' : Unit → Rule δ}
    (hk : Commutes f h (n - 1) (k ()) (k' ())) :
    Commutes f h n (advance >>= k) (advance >>= k') := by
  intro c hc
  rw [advance_bind_run, advance_bind_run, Cursor.advance_move]
  obtain ⟨hrun, hsize⟩ := hk c.advance (Cursor.size_advance_le hc)
  exact ⟨hrun, Nat.le_trans hsize c.onward_advance.size_le⟩

/-- Both ways of a choice that both rules make alike. -/
theorem ite {p : Prop} [Decidable p] {r q : Rule α} {r' q' : Rule β}
    (hr : p → Commutes f g n r r') (hq : ¬ p → Commutes f g n q q') :
    Commutes f g n (if p then r else q) (if p then r' else q') := by
  by_cases hp : p
  · rw [if_pos hp, if_pos hp]
    exact hr hp
  · rw [if_neg hp, if_neg hp]
    exact hq hp

/-- A required token is there in both or in none. -/
theorem expectNext_bind {kind : Kind} {k : Unit → Rule γ} {k' : Unit → Rule δ}
    (hk : Commutes f h (n - 1) (k ()) (k' ())) :
    Commutes f h n (expectNext kind >>= k) (expectNext kind >>= k') := by
  intro c hc
  by_cases hkind : c.upcoming.kind = kind
  · have hrun : (expectNext kind >>= k) c = (advance >>= k) c := by
      rw [bind_run_of_some (expectNext_run kind c ▸ if_pos hkind)]
      rfl
    have hrun' : (expectNext kind >>= k') (c.move f) = (advance >>= k') (c.move f) := by
      have hmoved : (c.move f).upcoming.kind = kind := by simpa using hkind
      rw [bind_run_of_some (expectNext_run kind (c.move f) ▸ if_pos hmoved)]
      rfl
    rw [hrun, hrun']
    exact advance_bind hk c hc
  · have hmoved : (c.move f).upcoming.kind ≠ kind := by simpa using hkind
    have hrun := bind_run_of_none (expectNext_run kind c ▸ if_neg hkind) k
    have hrun' := bind_run_of_none (expectNext_run kind (c.move f) ▸ if_neg hmoved) k'
    rw [hrun, hrun', Cursor.upcoming_move]
    exact ⟨rfl, Nat.le_refl _⟩

/-- An optional token is there in both or in none. -/
theorem skipNext_bind {kind : Kind} {k : Unit → Rule γ} {k' : Unit → Rule δ}
    (hk : Commutes f h n (k ()) (k' ())) :
    Commutes f h n (skipNext kind >>= k) (skipNext kind >>= k') := by
  refine bind (g := id) ?_ fun _ => hk
  intro c _
  rw [skipNext_run, skipNext_run]
  refine ⟨?_, (c.onward_skip kind).size_le⟩
  simp only [Cursor.skip, Cursor.upcoming_move, Token.kind_move, Cursor.advance_move]
  split <;> rfl

/-- A statement is dropped in both or in none. -/
theorem attempt {r : Rule α} {r' : Rule β} (hr : Commutes f g n r r') :
    Commutes f (Option.map g) n (Rule.attempt r) (Rule.attempt r') := by
  intro c hc
  obtain ⟨hrun, hsize⟩ := hr c hc
  simp only [Rule.attempt, hrun]
  exact ⟨rfl, hsize⟩

/-- Loops have as many turns on the moved tokens. -/
theorem looped {loop : Nat → Rule α} {loop' : Nat → Rule β}
    (hloop : ∀ k ≤ n, Commutes f g k (loop k) (loop' k)) :
    Commutes f g n (Rule.looped loop) (Rule.looped loop') := by
  intro c hc
  have hturns := hloop c.size hc c (Nat.le_refl _)
  simpa only [Rule.looped, Cursor.size_move] using hturns

section Items

variable {item : Rule α} {item' : Rule β} {close : Kind}

/-- The items after the first one. -/
theorem moreItems (hitem : Commutes f g n item item') (turns : Nat) :
    Commutes f (List.map g) n (Rule.moreItems item close turns)
      (Rule.moreItems item' close turns) := by
  induction turns with
  | zero => exact expectNext_bind (pure [])
  | succ turns ih =>
      refine upcoming_bind fun t => ite (fun _ => ?_) fun _ => expectNext_bind (pure [])
      refine advance_bind (advance_bind (mono (n := n) ?_ (by omega)))
      exact hitem.bind fun a => ih.bind fun rest => pure (a :: rest)

/-- A list of items; the first one stands at least one token further on. -/
theorem items (hitem : Commutes f g (n - 1) item item') :
    Commutes f (List.map g) n (Rule.items item close) (Rule.items item' close) := by
  refine upcoming_bind fun t => ite (fun _ => advance_bind (pure [])) fun _ => advance_bind ?_
  refine hitem.bind fun a => Commutes.bind (looped fun k hk => ?_) fun rest => pure (a :: rest)
  exact moreItems (hitem.mono hk) k

end Items

end Commutes
end Rule

namespace Grammar

open Rule

variable {f : Position → Position} {n : Nat} {read read' : Reader}

/-! ## Statements -/

/-- A `let` statement. -/
theorem bindStatement_commutes (h : ∀ p, Commutes f (Expr.move f) n (read p) (read' p)) :
    Commutes f (Stmt.move f) n (bindStatement read) (bindStatement read') := by
  refine Commutes.current_bind fun t => Commutes.expectNext_bind ?_
  refine Commutes.current_bind fun name => Commutes.expectNext_bind ?_
  refine Commutes.advance_bind (Commutes.mono (n := n) ?_ (by omega))
  exact (h _).bind fun value => Commutes.skipNext_bind (Commutes.pure (Stmt.bind t name value))

/-- A `return` statement. -/
theorem leaveStatement_commutes (h : ∀ p, Commutes f (Expr.move f) n (read p) (read' p)) :
    Commutes f (Stmt.move f) n (leaveStatement read) (leaveStatement read') := by
  refine Commutes.current_bind fun t => Commutes.upcoming_bind fun next => ?_
  refine Commutes.ite (fun _ => ?_) fun _ => ?_
  · exact Commutes.skipNext_bind (Commutes.pure (Stmt.leave t none))
  · refine Commutes.advance_bind (Commutes.mono ?_ (Nat.sub_le n 1))
    refine (h _).bind fun value => ?_
    exact Commutes.skipNext_bind (Commutes.pure (Stmt.leave t (some value)))

/-- A statement that is an expression. -/
theorem exprStatement_commutes (h : ∀ p, Commutes f (Expr.move f) n (read p) (read' p)) :
    Commutes f (Stmt.move f) n (exprStatement read) (exprStatement read') := by
  refine Commutes.current_bind fun t => (h _).bind fun value => ?_
  exact Commutes.skipNext_bind (Commutes.pure (Stmt.expr t value))

/-- Every statement. -/
theorem statement_commutes (h : ∀ p, Commutes f (Expr.move f) n (read p) (read' p)) :
    Commutes f (Stmt.move f) n (statement read) (statement read') := by
  refine Commutes.current_bind fun t => ?_
  rw [Token.kind_move]
  cases t.kind
  case letWord => exact bindStatement_commutes h
  case returnWord => exact leaveStatement_commutes h
  all_goals exact exprStatement_commutes h

/-- Where no token is left there is no statement. -/
theorem statements_run_of_size_eq_zero {c : Cursor} (h : c.size = 0) (inBlock : Bool)
    (turns : Nat) : statements read inBlock turns c = ⟨some [], c, []⟩ := by
  have hend : c.current.kind = .eof := by
    rw [Cursor.current_of_size_eq_zero h, c.isEnd]
  cases turns with
  | zero => rfl
  | succ turns =>
      unfold statements
      rw [current_bind_run, if_pos (by simp [stops, hend])]
      rfl

/-- Statements, with enough turns for both. -/
theorem statements_commutes (h : ∀ p, Commutes f (Expr.move f) n (read p) (read' p))
    (inBlock : Bool) {turns turns' : Nat} (hturns : n ≤ turns) (hturns' : n ≤ turns') :
    Commutes f (List.map (Stmt.move f)) n (statements read inBlock turns)
      (statements read' inBlock turns') := by
  induction n generalizing turns turns' with
  | zero =>
      intro c hc
      have hsize : c.size = 0 := Nat.le_zero.1 hc
      rw [statements_run_of_size_eq_zero hsize, statements_run_of_size_eq_zero (by simpa)]
      exact ⟨rfl, Nat.le_refl _⟩
  | succ n ih =>
      obtain ⟨turns, rfl⟩ : ∃ k, turns = k + 1 := ⟨turns - 1, by omega⟩
      obtain ⟨turns', rfl⟩ : ∃ k, turns' = k + 1 := ⟨turns' - 1, by omega⟩
      have hrest : Commutes f (List.map (Stmt.move f)) n (statements read inBlock turns)
          (statements read' inBlock turns') :=
        ih (fun p => (h p).mono (Nat.le_succ n)) (by omega) (by omega)
      refine Commutes.current_bind fun t => ?_
      rw [Token.kind_move]
      refine Commutes.ite (fun _ => Commutes.pure []) fun _ => ?_
      refine Commutes.ite (fun _ => Commutes.advance_bind hrest) fun _ => ?_
      refine (statement_commutes h).attempt.bind fun found => Commutes.advance_bind ?_
      refine hrest.bind fun rest => ?_
      have hjoined : List.map (Stmt.move f) (found.toList ++ rest) =
          (found.map (Stmt.move f)).toList ++ rest.map (Stmt.move f) := by
        cases found <;> simp
      rw [← hjoined]
      exact Commutes.pure _

/-- A block. -/
theorem block_commutes (h : ∀ p, Commutes f (Expr.move f) n (read p) (read' p)) :
    Commutes f (Block.move f) n (block read) (block read') := by
  have hbody : Commutes f (List.map (Stmt.move f)) (n - 1) (looped (statements read true))
      (looped (statements read' true)) := by
    refine Commutes.looped fun k hk => ?_
    have hread (p : Power) := (h p).mono (show k ≤ n by omega)
    exact statements_commutes hread true (Nat.le_refl k) (Nat.le_refl k)
  refine Commutes.current_bind fun t => Commutes.advance_bind (hbody.bind fun body => ?_)
  refine Commutes.current_bind fun stop => ?_
  rw [Token.kind_move]
  refine Commutes.ite (fun _ => Commutes.fail _ _) fun _ => ?_
  rw [← moveStatements_eq_map, ← Block.move]
  exact Commutes.pure _

/-! ## Expressions -/

/-- A parameter name. -/
theorem parameter_commutes : Commutes f (Token.move f) n parameter parameter := by
  refine Commutes.current_bind fun t => ?_
  rw [Token.kind_move]
  exact Commutes.ite (fun _ => Commutes.pure t) fun _ => Commutes.fail _ _

/-- The entries of a hash literal. -/
theorem pairs_commutes (h : ∀ p, Commutes f (Expr.move f) (n - 1) (read p) (read' p))
    (turns : Nat) :
    Commutes f (List.map (Prod.map (Expr.move f) (Expr.move f))) n (pairs read turns)
      (pairs read' turns) := by
  induction turns with
  | zero => exact Commutes.pure []
  | succ turns ih =>
      have hmore (key value : Expr) : Commutes f
          (List.map (Prod.map (Expr.move f) (Expr.move f))) (n - 1)
          (do let rest ← pairs read turns
              pure ((key, value) :: rest))
          (do let rest ← pairs read' turns
              pure ((key.move f, value.move f) :: rest)) :=
        (ih.mono (Nat.sub_le n 1)).bind fun rest => Commutes.pure ((key, value) :: rest)
      refine Commutes.upcoming_bind fun t => ?_
      rw [Token.kind_move]
      refine Commutes.ite (fun _ => Commutes.advance_bind (Commutes.pure [])) fun _ => ?_
      refine Commutes.advance_bind ((h _).bind fun key => Commutes.expectNext_bind ?_)
      refine Commutes.advance_bind (Commutes.mono (n := n - 1) ?_ (by omega))
      refine (h _).bind fun value => Commutes.upcoming_bind fun after => ?_
      rw [Token.kind_move]
      refine Commutes.ite (fun _ => Commutes.expectNext_bind ?_) fun _ => hmore key value
      exact (hmore key value).mono (by omega)

/-- A conditional. -/
theorem conditional_commutes (h : ∀ p, Commutes f (Expr.move f) (n - 1) (read p) (read' p)) :
    Commutes f (Expr.move f) n (conditional read) (conditional read') := by
  refine Commutes.current_bind fun t => Commutes.advance_bind ?_
  refine (h _).bind fun test => Commutes.expectNext_bind ?_
  refine Commutes.mono (n := n - 1) ?_ (by omega)
  refine (block_commutes h).bind fun consequence => Commutes.upcoming_bind fun next => ?_
  rw [Token.kind_move]
  refine Commutes.ite (fun _ => ?_) fun _ => ?_
  · refine Commutes.advance_bind (Commutes.expectNext_bind ?_)
    refine Commutes.mono (n := n - 1) ((block_commutes h).bind fun alternative => ?_) (by omega)
    rw [← Expr.move]
    exact Commutes.pure _
  · rw [← Expr.move]
    exact Commutes.pure _

/-- A function literal. -/
theorem function_commutes (h : ∀ p, Commutes f (Expr.move f) (n - 1) (read p) (read' p)) :
    Commutes f (Expr.move f) n (function read) (function read') := by
  refine Commutes.current_bind fun t => Commutes.expectNext_bind ?_
  refine (Commutes.items parameter_commutes).bind fun parameters => Commutes.expectNext_bind ?_
  refine Commutes.mono (n := n - 1) ((block_commutes h).bind fun body => ?_) (by omega)
  rw [← Expr.move]
  exact Commutes.pure _

/-- What an expression starts with. -/
theorem operand_commutes (h : ∀ p, Commutes f (Expr.move f) (n - 1) (read p) (read' p)) :
    Commutes f (Expr.move f) n (operand read) (operand read') := by
  have hsign (t : Token) : Commutes f (Expr.move f) n
      (do advance
          let right ← read .sign
          pure (Expr.unary t right))
      (do advance
          let right ← read' .sign
          pure (Expr.unary (t.move f) right)) := by
    refine Commutes.advance_bind ((h _).bind fun right => ?_)
    rw [← Expr.move]
    exact Commutes.pure _
  refine Commutes.current_bind fun t => ?_
  rw [Token.kind_move, Token.literal_move]
  cases t.kind
  case int =>
    cases t.literal.toInt64? with
    | none => exact Commutes.fail _ _
    | some value => exact Commutes.pure (Expr.int t value)
  case bang => exact hsign t
  case minus => exact hsign t
  case lparen =>
    refine Commutes.advance_bind ((h _).bind fun inner => Commutes.expectNext_bind ?_)
    exact Commutes.pure inner
  case ifWord => exact conditional_commutes h
  case fnWord => exact function_commutes h
  case lbracket =>
    refine (Commutes.items (h _)).bind fun elements => ?_
    rw [← moveAll_eq_map, ← Expr.move]
    exact Commutes.pure _
  case lbrace =>
    have hpairs : Commutes f (List.map (Prod.map (Expr.move f) (Expr.move f))) n
        (looped (pairs read)) (looped (pairs read')) :=
      Commutes.looped fun k hk => pairs_commutes (fun p => (h p).mono (by omega)) k
    refine hpairs.bind fun entries => ?_
    rw [← movePairs_eq_map, ← Expr.move]
    exact Commutes.pure _
  case ident => exact Commutes.pure (Expr.ident t)
  case string => exact Commutes.pure (Expr.string t)
  case trueWord => exact Commutes.pure (Expr.bool t true)
  case falseWord => exact Commutes.pure (Expr.bool t false)
  all_goals exact Commutes.fail _ _

/-- Reading on after a left operand. -/
theorem continuation_commutes (h : ∀ p, Commutes f (Expr.move f) (n - 1) (read p) (read' p))
    (left : Expr) :
    Commutes f (Expr.move f) n (continuation read left) (continuation read' (left.move f)) := by
  refine Commutes.current_bind fun t => ?_
  rw [Token.kind_move]
  cases t.kind
  case lparen =>
    refine (Commutes.items (h _)).bind fun arguments => ?_
    rw [← moveAll_eq_map, ← Expr.move]
    exact Commutes.pure _
  case lbracket =>
    refine Commutes.advance_bind ((h _).bind fun key => Commutes.expectNext_bind ?_)
    rw [← Expr.move]
    exact Commutes.pure _
  all_goals
    refine Commutes.advance_bind ((h _).bind fun right => ?_)
    rw [← Expr.move]
    exact Commutes.pure _

/-- Reading on for as long as the next token binds tighter. -/
theorem climb_commutes (h : ∀ p, Commutes f (Expr.move f) (n - 1) (read p) (read' p))
    (power : Power) (turns : Nat) (left : Expr) :
    Commutes f (Expr.move f) n (climb read power turns left)
      (climb read' power turns (left.move f)) := by
  induction turns generalizing left with
  | zero => exact Commutes.pure left
  | succ turns ih =>
      refine Commutes.upcoming_bind fun t => ?_
      rw [Token.kind_move]
      refine Commutes.ite (fun _ => ?_) fun _ => Commutes.pure left
      refine Commutes.advance_bind (Commutes.mono (n := n) ?_ (Nat.sub_le n 1))
      exact (continuation_commutes h left).bind ih

/-- **Readers of expressions find on moved tokens what they find**, whatever turns they
have, as long as these are more than tokens are left. -/
theorem expression_commutes (f : Position → Position) {n turns turns' : Nat} (hturns : n ≤ turns)
    (hturns' : n ≤ turns') (power : Power) :
    Commutes f (Expr.move f) n (expression (turns + 1) power) (expression (turns' + 1) power) := by
  induction n generalizing turns turns' power with
  | zero =>
      intro c hc
      have hsize : c.size = 0 := Nat.le_zero.1 hc
      rw [expression_run_of_size_eq_zero hsize, expression_run_of_size_eq_zero (by simpa)]
      refine ⟨?_, Nat.le_refl _⟩
      rw [Cursor.current_move]
      rfl
  | succ n ih =>
      obtain ⟨turns, rfl⟩ : ∃ k, turns = k + 1 := ⟨turns - 1, by omega⟩
      obtain ⟨turns', rfl⟩ : ∃ k, turns' = k + 1 := ⟨turns' - 1, by omega⟩
      have hread (p : Power) : Commutes f (Expr.move f) (n + 1 - 1) (expression (turns + 1) p)
          (expression (turns' + 1) p) :=
        ih (by omega) (by omega) p
      refine (operand_commutes hread).bind fun left => Commutes.looped fun k hk => ?_
      exact climb_commutes (fun p => (hread p).mono (by omega)) power k left

/-- Whole programs. -/
theorem program_run_move (f : Position → Position) (c : Cursor) :
    program (c.move f) = (program c).move f (Program.move f) := by
  have hprogram : Commutes f (Program.move f) c.size program program := by
    refine Commutes.looped fun k hk => ?_
    have hread := expression_commutes f (Nat.le_refl k) (Nat.le_refl k)
    refine (statements_commutes hread false (Nat.le_refl k) (Nat.le_refl k)).bind fun body => ?_
    exact Commutes.pure (g := Program.move f) ⟨body⟩
  exact (hprogram c (Nat.le_refl _)).1

end Grammar

/-- A cursor on tokens that end in an end token. -/
theorem Cursor.ofTokens_concat (tokens : List Token) (last : Token) (h : last.kind = .eof) :
    ofTokens (tokens ++ [last]) = ⟨tokens, last, h⟩ := by
  simp [ofTokens, h]

/-- A cursor on such tokens moved. -/
theorem Cursor.ofTokens_move (f : Position → Position) (tokens : List Token) {last : Token}
    (h : last.kind = .eof) :
    ofTokens ((tokens ++ [last]).map (Token.move f)) = (ofTokens (tokens ++ [last])).move f := by
  rw [List.map_append, List.map_singleton, ofTokens_concat tokens last h,
    ofTokens_concat (tokens.map (Token.move f)) (last.move f) h]
  rfl

/-- **Where tokens stand changes nothing but where the tree and the errors point to.** -/
theorem parseTokens_move (f : Position → Position) (tokens : List Token) {last : Token}
    (h : last.kind = .eof) :
    parseTokens ((tokens ++ [last]).map (Token.move f)) =
      ((parseTokens (tokens ++ [last])).1.move f,
        (parseTokens (tokens ++ [last])).2.map (SyntaxError.move f)) := by
  unfold parseTokens
  rw [Cursor.ofTokens_move f tokens h, Grammar.program_run_move]
  rcases Grammar.program (Cursor.ofTokens (tokens ++ [last])) with ⟨_ | p, d, errors⟩ <;> rfl

end MonkeyLang
