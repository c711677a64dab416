import MonkeyLang.Proofs.RuleOutcome

/-!
# The grammar is orderly

Every rule of the grammar leaves an orderly outcome: the cursor moves onward
only, a failure is recorded, and the tokens blamed stand ahead of where the
rule started.

The rules are given a reader for the expressions inside, so each lemma here
passes orderliness on from the reader to the rule.  `expression_orderly` ties
the knot along with the definition: an expression that starts with at most `n`
tokens left is read by `expression (n + 1)`, and the expressions inside it start
at least one token further on.
-/

namespace MonkeyLang

/-- The rule is orderly wherever at most `n` tokens are left. -/
def Rule.OrderlyTo {α : Type} (n : Nat) (r : Rule α) : Prop :=
  ∀ c, c.size ≤ n → (r c).Orderly c

namespace Rule

open Outcome.Orderly

variable {α : Type} {n : Nat}

/-- With fewer tokens left a rule stays orderly. -/
theorem OrderlyTo.mono {m : Nat} {r : Rule α} (h : r.OrderlyTo n) (hm : m ≤ n) :
    r.OrderlyTo m :=
  fun c hc => h c (Nat.le_trans hc hm)

theorem skipNext_orderly (kind : Kind) (c : Cursor) : (skipNext kind c).Orderly c := by
  rw [skipNext_run]
  exact success _ (c.onward_skip kind)

/-- The items after the first one, each behind a comma. -/
theorem moreItems_orderly {item : Rule α} (hitem : item.OrderlyTo n) (close : Kind)
    (turns : Nat) : (moreItems item close turns).OrderlyTo n := by
  induction turns with
  | zero =>
      intro c _
      exact expectNext_bind (success _ (Cursor.Onward.refl _))
  | succ turns ih =>
      intro c hc
      unfold moreItems
      rw [upcoming_bind_run]
      split
      · rw [advance_bind_run, advance_bind_run]
        refine from_behind (c.onward_advance.trans (Cursor.onward_advance _)) ?_
        have hsize : c.advance.advance.size ≤ n := by
          simp only [Cursor.size_advance]
          omega
        refine sequence (hitem _ hsize) ?_
        intro a d hd
        refine sequence (ih d (Nat.le_trans hd.size_le hsize)) ?_
        intro rest e _
        exact success _ (Cursor.Onward.refl e)
      · exact expectNext_bind (success _ (Cursor.Onward.refl _))

/-- A list of items; the first one stands at least one token further on. -/
theorem items_orderly {item : Rule α} (hitem : item.OrderlyTo (n - 1)) (close : Kind) :
    (items item close).OrderlyTo n := by
  intro c hc
  unfold items
  rw [upcoming_bind_run]
  split
  · exact success _ c.onward_advance
  · rw [advance_bind_run]
    refine from_behind c.onward_advance ?_
    have hsize : c.advance.size ≤ n - 1 := Cursor.size_advance_le hc
    refine sequence (hitem _ hsize) ?_
    intro a d hd
    refine sequence (moreItems_orderly hitem close d.size d (Nat.le_trans hd.size_le hsize)) ?_
    intro rest e _
    exact success _ (Cursor.Onward.refl e)

end Rule

namespace Grammar

open Rule Outcome.Orderly

variable {read : Reader} {n : Nat}

theorem bindStatement_orderly (hread : ∀ p, (read p).OrderlyTo n) :
    (bindStatement read).OrderlyTo n := by
  intro c hc
  unfold bindStatement
  rw [current_bind_run]
  refine expectNext_bind ?_
  rw [current_bind_run]
  refine expectNext_bind ?_
  rw [advance_bind_run]
  refine from_behind (Cursor.onward_advance _) ?_
  have hsize : c.advance.advance.advance.size ≤ n := by
    simp only [Cursor.size_advance]
    omega
  refine sequence (hread _ _ hsize) ?_
  intro value d _
  refine sequence (skipNext_orderly _ d) ?_
  intro _ e _
  exact success _ (Cursor.Onward.refl e)

theorem leaveStatement_orderly (hread : ∀ p, (read p).OrderlyTo n) :
    (leaveStatement read).OrderlyTo n := by
  intro c hc
  unfold leaveStatement
  rw [current_bind_run, upcoming_bind_run]
  split
  · refine sequence (skipNext_orderly _ c) ?_
    intro _ d _
    exact success _ (Cursor.Onward.refl d)
  · rw [advance_bind_run]
    refine from_behind c.onward_advance ?_
    have hsize : c.advance.size ≤ n := by
      rw [Cursor.size_advance]
      omega
    refine sequence (hread _ _ hsize) ?_
    intro value d _
    refine sequence (skipNext_orderly _ d) ?_
    intro _ e _
    exact success _ (Cursor.Onward.refl e)

theorem exprStatement_orderly (hread : ∀ p, (read p).OrderlyTo n) :
    (exprStatement read).OrderlyTo n := by
  intro c hc
  unfold exprStatement
  rw [current_bind_run]
  refine sequence (hread _ c hc) ?_
  intro value d _
  refine sequence (skipNext_orderly _ d) ?_
  intro _ e _
  exact success _ (Cursor.Onward.refl e)

/-- Every statement is read in an orderly way. -/
theorem statement_orderly (hread : ∀ p, (read p).OrderlyTo n) :
    (statement read).OrderlyTo n := by
  intro c hc
  rw [statement_run]
  split
  · exact bindStatement_orderly hread c hc
  · exact leaveStatement_orderly hread c hc
  · exact exprStatement_orderly hread c hc

/-- A dropped statement leaves an orderly outcome too. -/
theorem attempt_orderly {α : Type} {r : Rule α} {c : Cursor} (h : (r c).Orderly c) :
    (attempt r c).Orderly c :=
  ⟨h.onward, by simp [attempt], h.blamed⟩

/-- Statements are read in an orderly way up to where they stop. -/
theorem statements_orderly (hread : ∀ p, (read p).OrderlyTo n) (inBlock : Bool)
    (turns : Nat) : (statements read inBlock turns).OrderlyTo n := by
  induction turns with
  | zero =>
      intro c _
      exact success _ (Cursor.Onward.refl c)
  | succ turns ih =>
      intro c hc
      unfold statements
      rw [current_bind_run]
      split
      · exact success _ (Cursor.Onward.refl c)
      · split
        · rw [advance_bind_run]
          refine from_behind c.onward_advance (ih _ ?_)
          exact Nat.le_trans c.onward_advance.size_le hc
        · refine sequence (attempt_orderly (statement_orderly hread c hc)) ?_
          intro found d hd
          rw [advance_bind_run]
          refine from_behind d.onward_advance (sequence (ih _ ?_) ?_)
          · exact Nat.le_trans (hd.trans d.onward_advance).size_le hc
          · intro rest e _
            exact success _ (Cursor.Onward.refl e)

theorem block_orderly (hread : ∀ p, (read p).OrderlyTo n) : (block read).OrderlyTo n := by
  intro c hc
  unfold block
  rw [current_bind_run, advance_bind_run]
  refine from_behind c.onward_advance ?_
  have hsize : c.advance.size ≤ n := Nat.le_trans c.onward_advance.size_le hc
  refine sequence (statements_orderly hread true _ _ hsize) ?_
  intro body d _
  rw [current_bind_run]
  split
  · exact failure d.current_mem
  · exact success _ (Cursor.Onward.refl d)

theorem parameter_orderly : parameter.OrderlyTo n := by
  intro c _
  unfold parameter
  rw [current_bind_run]
  split
  · exact success _ (Cursor.Onward.refl c)
  · exact failure c.current_mem

theorem pairs_orderly (hread : ∀ p, (read p).OrderlyTo (n - 1)) (turns : Nat) :
    (pairs read turns).OrderlyTo n := by
  induction turns with
  | zero =>
      intro c _
      exact success _ (Cursor.Onward.refl c)
  | succ turns ih =>
      intro c hc
      unfold pairs
      rw [upcoming_bind_run]
      split
      · exact success _ c.onward_advance
      · rw [advance_bind_run]
        refine from_behind c.onward_advance ?_
        have hsize : c.advance.size ≤ n - 1 := Cursor.size_advance_le hc
        refine sequence (hread _ _ hsize) ?_
        intro key d hd
        refine expectNext_bind ?_
        rw [advance_bind_run]
        refine from_behind (Cursor.onward_advance _) ?_
        have hvalue : d.advance.advance.size ≤ n - 1 := by
          have := hd.size_le
          simp only [Cursor.size_advance] at *
          omega
        refine sequence (hread _ _ hvalue) ?_
        intro value e he
        rw [upcoming_bind_run]
        have hrest : e.size ≤ n := by
          have := he.size_le
          omega
        have htail (f : Cursor) (hf : f.size ≤ n) :
            ((pairs read turns >>= fun rest => pure ((key, value) :: rest)) f).Orderly f := by
          refine sequence (ih f hf) ?_
          intro rest g _
          exact success _ (Cursor.Onward.refl g)
        split
        · refine expectNext_bind (htail _ ?_)
          exact Nat.le_trans e.onward_advance.size_le hrest
        · exact htail e hrest

theorem conditional_orderly (hread : ∀ p, (read p).OrderlyTo (n - 1)) :
    (conditional read).OrderlyTo n := by
  intro c hc
  unfold conditional
  rw [current_bind_run, advance_bind_run]
  refine from_behind c.onward_advance ?_
  have hsize : c.advance.size ≤ n - 1 := Cursor.size_advance_le hc
  refine sequence (hread _ _ hsize) ?_
  intro test d hd
  refine expectNext_bind ?_
  have hblock (e : Cursor) (he : d.Onward e) : (block read e).Orderly e :=
    block_orderly hread e (Nat.le_trans (hd.trans he).size_le hsize)
  refine sequence (hblock _ d.onward_advance) ?_
  intro consequence e he
  rw [upcoming_bind_run]
  split
  · rw [advance_bind_run]
    refine from_behind e.onward_advance (expectNext_bind (sequence (hblock _ ?_) ?_))
    · exact d.onward_advance.trans (he.trans (e.onward_advance.trans (Cursor.onward_advance _)))
    · intro alternative f _
      exact success _ (Cursor.Onward.refl f)
  · exact success _ (Cursor.Onward.refl e)

theorem function_orderly (hread : ∀ p, (read p).OrderlyTo (n - 1)) :
    (function read).OrderlyTo n := by
  intro c hc
  unfold function
  rw [current_bind_run]
  refine expectNext_bind ?_
  have hsize : c.advance.size ≤ n - 1 := Cursor.size_advance_le hc
  refine sequence (items_orderly parameter_orderly _ _ hsize) ?_
  intro parameters d hd
  refine expectNext_bind (sequence (block_orderly hread _ ?_) ?_)
  · exact Nat.le_trans (hd.trans d.onward_advance).size_le hsize
  · intro body e _
    exact success _ (Cursor.Onward.refl e)

/-- What an expression starts with is read in an orderly way. -/
theorem operand_orderly (hread : ∀ p, (read p).OrderlyTo (n - 1)) :
    (operand read).OrderlyTo n := by
  intro c hc
  have hsize : c.advance.size ≤ n - 1 := Cursor.size_advance_le hc
  have hsign :
      ((read .sign >>= fun right => pure (Expr.unary c.current right)) c.advance).Orderly c := by
    refine from_behind c.onward_advance (sequence (hread _ _ hsize) ?_)
    intro right d _
    exact success _ (Cursor.Onward.refl d)
  rw [operand_run]
  cases c.current.kind
  case int =>
    cases c.current.literal.toInt64? with
    | some value => exact success _ (Cursor.Onward.refl c)
    | none => exact failure c.current_mem
  case bang => exact hsign
  case minus => exact hsign
  case lparen =>
    refine from_behind c.onward_advance (sequence (hread _ _ hsize) ?_)
    intro inner d _
    exact expectNext_bind (success _ (Cursor.Onward.refl _))
  case ifWord => exact conditional_orderly hread c hc
  case fnWord => exact function_orderly hread c hc
  case lbracket =>
    refine sequence (items_orderly (hread _) _ c hc) ?_
    intro elements d _
    exact success _ (Cursor.Onward.refl d)
  case lbrace =>
    refine sequence (pairs_orderly hread _ c hc) ?_
    intro entries d _
    exact success _ (Cursor.Onward.refl d)
  case ident => exact success _ (Cursor.Onward.refl c)
  case string => exact success _ (Cursor.Onward.refl c)
  case trueWord => exact success _ (Cursor.Onward.refl c)
  case falseWord => exact success _ (Cursor.Onward.refl c)
  all_goals exact failure c.current_mem

/-- Reading on after a left operand is orderly. -/
theorem continuation_orderly (hread : ∀ p, (read p).OrderlyTo (n - 1)) (left : Expr) :
    (continuation read left).OrderlyTo n := by
  intro c hc
  have hsize : c.advance.size ≤ n - 1 := Cursor.size_advance_le hc
  rw [continuation_run]
  split
  · refine sequence (items_orderly (hread _) _ c hc) ?_
    intro arguments d _
    exact success _ (Cursor.Onward.refl d)
  · refine from_behind c.onward_advance (sequence (hread _ _ hsize) ?_)
    intro key d _
    exact expectNext_bind (success _ (Cursor.Onward.refl _))
  · refine from_behind c.onward_advance (sequence (hread _ _ hsize) ?_)
    intro right d _
    exact success _ (Cursor.Onward.refl d)

theorem climb_orderly (hread : ∀ p, (read p).OrderlyTo (n - 1)) (power : Power)
    (turns : Nat) (left : Expr) : (climb read power turns left).OrderlyTo n := by
  induction turns generalizing left with
  | zero =>
      intro c _
      exact success _ (Cursor.Onward.refl c)
  | succ turns ih =>
      intro c hc
      unfold climb
      rw [upcoming_bind_run]
      split
      · rw [advance_bind_run]
        have hsize := Nat.le_trans c.onward_advance.size_le hc
        refine from_behind c.onward_advance (sequence (continuation_orderly hread left _ hsize) ?_)
        intro larger d hd
        exact ih larger d (Nat.le_trans hd.size_le hsize)
      · exact success _ (Cursor.Onward.refl c)

/-- Where no token is left there is no expression. -/
theorem expression_run_of_size_eq_zero {c : Cursor} (h : c.size = 0) (n : Nat)
    (power : Power) :
    expression (n + 1) power c = ⟨none, c, [⟨.noOperand .eof, c.current⟩]⟩ := by
  have hend : c.current.kind = .eof := by
    rw [Cursor.current_of_size_eq_zero h, c.isEnd]
  refine bind_run_of_none ?_ _
  rw [operand_run, hend]

/-- **No reader gives up in silence.**  Where at most `n` tokens are left, the
reader with more turns than that is orderly. -/
theorem expression_orderly (n : Nat) (power : Power) :
    (expression (n + 1) power).OrderlyTo n := by
  induction n generalizing power with
  | zero =>
      intro c hc
      rw [expression_run_of_size_eq_zero (Nat.le_zero.1 hc)]
      exact failure c.current_mem
  | succ n ih =>
      have hread (p : Power) : (expression (n + 1) p).OrderlyTo (n + 1 - 1) := ih p
      intro c hc
      refine sequence (operand_orderly hread c hc) ?_
      intro left d hd
      exact climb_orderly hread power d.size left d (Nat.le_trans hd.size_le hc)

end Grammar
end MonkeyLang
