import MonkeyLang.Proofs.GrammarOrder

/-!
# Errors descend along the source

An error blames the token the cursor stands on or the one after it.  It is given a rank:
twice the number of tokens left from the blamed token on, and one more if the cursor stood
before that token.  So a token has two ranks, and the higher one comes first.

Ranks descend along the errors of a rule; only the end of the source, where the cursor
cannot move on, can be blamed any number of times.  A rule that starts on a token may blame
it, at rank `2 * c.size`; once the token is accepted, ranks below that are left.  A rule that
succeeds leaves the ranks below its last token, and one that fails leaves what a statement
one token further on may use (`Outcome.left`).

As in `GrammarOrder`, each lemma passes the property on from a reader to a rule, and
`expression_descends` ties the knot.
-/

namespace MonkeyLang

/-! ## Ranks -/

namespace Cursor

variable {c d : Cursor} {k : Nat}

/-- The token the cursor stands on once the given number of tokens is left. -/
def tokenAt (c : Cursor) (k : Nat) : Token := (c.ahead.drop (c.size - k)).headD c.finish

theorem tokenAt_size (c : Cursor) : c.tokenAt c.size = c.current := by
  simp [tokenAt, current]

theorem tokenAt_size_sub_one (c : Cursor) : c.tokenAt (c.size - 1) = c.upcoming := by
  unfold tokenAt upcoming size
  cases c.ahead with
  | nil => rfl
  | cons t rest => simp

/-- Tokens further on are the same from further on. -/
theorem Onward.tokenAt_eq (h : c.Onward d) (hk : k ≤ d.size) : d.tokenAt k = c.tokenAt k := by
  obtain ⟨hfinish, passed, hpassed⟩ := h
  have hsize : c.size - k = passed.length + (d.size - k) := by
    have hlength : c.size = passed.length + d.size := by simp [size, ← hpassed]
    omega
  rw [tokenAt, tokenAt, hfinish, hsize, ← hpassed, List.drop_length_add_append]

end Cursor

/-- The errors blame tokens ahead of the cursor, at ranks that descend from `top`.  The ranks
up to `left` are left for later errors. -/
def Ranked (c : Cursor) (top left : Nat) (errors : List SyntaxError) : Prop :=
  ∃ ranks : List Nat, errors.map SyntaxError.token = ranks.map (fun r => c.tokenAt (r / 2)) ∧
    (∀ r ∈ ranks, r ≤ top ∧ (left < r ∨ left = 0)) ∧
    ranks.Pairwise fun r r' => r' < r ∨ r' = 0

namespace Ranked

variable {c d : Cursor} {top mid left : Nat} {errors more : List SyntaxError} {fault : Fault}

theorem nil : Ranked c top left [] := ⟨[], rfl, by simp, .nil⟩

/-- More ranks to start from, and fewer to leave. -/
theorem weaken {top' left' : Nat} (h : Ranked c top left errors) (htop : top ≤ top')
    (hleft : left' ≤ left) : Ranked c top' left' errors := by
  obtain ⟨ranks, htokens, hbounds, hdescend⟩ := h
  refine ⟨ranks, htokens, ?_, hdescend⟩
  intro r hr
  have hbound := hbounds r hr
  omega

/-- The same errors from further behind. -/
theorem from_behind (hranked : Ranked d top left errors) (h : c.Onward d)
    (htop : top ≤ 2 * d.size) : Ranked c top left errors := by
  obtain ⟨ranks, htokens, hbounds, hdescend⟩ := hranked
  refine ⟨ranks, ?_, hbounds, hdescend⟩
  rw [htokens]
  apply List.map_congr_left
  intro r hr
  have hbound := hbounds r hr
  apply h.tokenAt_eq
  omega

/-- Later errors use what earlier ones have left. -/
theorem append (h : Ranked c top mid errors) (hmore : Ranked c mid left more) (hmid : mid ≤ top)
    (hleft : left ≤ mid) : Ranked c top left (errors ++ more) := by
  obtain ⟨ranks, htokens, hbounds, hdescend⟩ := h
  obtain ⟨ranks', htokens', hbounds', hdescend'⟩ := hmore
  refine ⟨ranks ++ ranks', ?_, ?_, ?_⟩
  · rw [List.map_append, List.map_append, htokens, htokens']
  · intro r hr
    rcases List.mem_append.1 hr with hr | hr
    · have hbound := hbounds r hr
      omega
    · have hbound := hbounds' r hr
      omega
  · refine List.pairwise_append.2 ⟨hdescend, hdescend', ?_⟩
    intro r hr r' hr'
    have hbound := hbounds r hr
    have hbound' := hbounds' r' hr'
    omega

/-- Blaming the token the cursor stands on. -/
theorem current : Ranked c (2 * c.size) (2 * c.size - 2) [⟨fault, c.current⟩] := by
  refine ⟨[2 * c.size], ?_, ?_, List.pairwise_singleton _ _⟩
  · rw [List.map_singleton, List.map_singleton, Nat.mul_div_cancel_left _ Nat.two_pos,
      c.tokenAt_size]
  · intro r hr
    rw [List.mem_singleton] at hr
    omega

/-- Blaming the token after it. -/
theorem upcoming : Ranked c (2 * c.size - 1) (2 * c.size - 2) [⟨fault, c.upcoming⟩] := by
  refine ⟨[2 * c.size - 1], ?_, ?_, List.pairwise_singleton _ _⟩
  · have hhalf : (2 * c.size - 1) / 2 = c.size - 1 := by omega
    rw [List.map_singleton, List.map_singleton, hhalf, c.tokenAt_size_sub_one]
  · intro r hr
    rw [List.mem_singleton] at hr
    omega

end Ranked

/-! ## Outcomes -/

/-- The ranks that an outcome leaves: those below the last token read, or, after a failure,
those from the next token on. -/
def Outcome.left {α : Type} (o : Outcome α) : Nat :=
  2 * o.cursor.size - if o.node?.isSome then 1 else 2

/-- An outcome a rule may leave behind when it starts at `c` and blames tokens from the given
rank on. -/
structure Outcome.Descending {α : Type} (o : Outcome α) (c : Cursor) (top : Nat) : Prop where
  onward : c.Onward o.cursor
  ranked : Ranked c top o.left o.errors

/-- The rule may blame the token it starts on. -/
abbrev Outcome.DescendingAt {α : Type} (o : Outcome α) (c : Cursor) : Prop :=
  o.Descending c (2 * c.size)

/-- The rule has accepted the token it starts on. -/
abbrev Outcome.DescendingBehind {α : Type} (o : Outcome α) (c : Cursor) : Prop :=
  o.Descending c (2 * c.size - 1)

namespace Outcome

variable {α β : Type} {c d : Cursor} {o : Outcome α} {top : Nat}

theorem left_le (o : Outcome α) : o.left ≤ 2 * o.cursor.size - 1 := by
  unfold left
  split <;> omega

theorem le_left (o : Outcome α) : 2 * (o.cursor.size - 1) ≤ o.left := by
  unfold left
  split <;> omega

/-- To blame less is allowed. -/
theorem DescendingBehind.at (h : o.DescendingBehind c) : o.DescendingAt c :=
  ⟨h.onward, h.ranked.weaken (Nat.sub_le _ _) (Nat.le_refl _)⟩

/-- Once a token is passed, the next one may be blamed. -/
theorem DescendingAt.advance (h : o.DescendingAt c.advance) : o.DescendingBehind c := by
  refine ⟨c.onward_advance.trans h.onward, ?_⟩
  apply Ranked.weaken (h.ranked.from_behind c.onward_advance (Nat.le_refl _)) _ (Nat.le_refl _)
  rw [Cursor.size_advance]
  omega

namespace Descending

open Rule

theorem success (a : α) (h : c.Onward d) : (⟨some a, d, []⟩ : Outcome α).Descending c top :=
  ⟨h, .nil⟩

theorem failure_current {fault : Fault} :
    (⟨none, c, [⟨fault, c.current⟩]⟩ : Outcome α).DescendingAt c :=
  ⟨Cursor.Onward.refl c, Ranked.current⟩

theorem failure_upcoming {fault : Fault} :
    (⟨none, c, [⟨fault, c.upcoming⟩]⟩ : Outcome α).DescendingBehind c :=
  ⟨Cursor.Onward.refl c, Ranked.upcoming⟩

/-- A second rule blames what the first one leaves. -/
theorem sequence {r : Rule α} {f : α → Rule β} (htop : 2 * c.size - 1 ≤ top)
    (hr : (r c).Descending c top) (hf : ∀ a d, c.Onward d → (f a d).DescendingBehind d) :
    ((r >>= f) c).Descending c top := by
  rcases h : r c with ⟨_ | a, d, errors⟩
  · rw [bind_run_of_none h]
    rw [h] at hr
    exact ⟨hr.onward, hr.ranked⟩
  · rw [bind_run_of_some h]
    rw [h] at hr
    have honward : c.Onward d := hr.onward
    have hfirst : Ranked c top (2 * d.size - 1) errors := hr.ranked
    have hnext := hf a d honward
    have hsecond := hnext.ranked.from_behind honward (Nat.sub_le _ _)
    refine ⟨honward.trans hnext.onward, hfirst.append hsecond ?_ ?_⟩
    · have hsize := honward.size_le
      omega
    · have hsize := hnext.onward.size_le
      have hleft := (f a d).left_le
      change (f a d).left ≤ _
      omega

/-- A rule that starts behind its first token, then another. -/
theorem sequence_behind {r : Rule α} {f : α → Rule β} (hr : (r c).DescendingBehind c)
    (hf : ∀ a d, c.Onward d → (f a d).DescendingBehind d) :
    ((r >>= f) c).DescendingBehind c :=
  sequence (Nat.le_refl _) hr hf

/-- A rule that starts on its first token, then another. -/
theorem sequence_at {r : Rule α} {f : α → Rule β} (hr : (r c).DescendingAt c)
    (hf : ∀ a d, c.Onward d → (f a d).DescendingBehind d) : ((r >>= f) c).DescendingAt c :=
  sequence (Nat.sub_le _ _) hr hf

/-- A required token, then a rule that has accepted it. -/
theorem expectNext_bind {kind : Kind} {f : Unit → Rule β}
    (hf : (f () c.advance).DescendingBehind c.advance) :
    ((expectNext kind >>= f) c).DescendingBehind c := by
  by_cases h : c.upcoming.kind = kind
  · rw [bind_run_of_some (expectNext_run kind c ▸ if_pos h)]
    exact DescendingAt.advance (DescendingBehind.at hf)
  · rw [bind_run_of_none (expectNext_run kind c ▸ if_neg h)]
    exact failure_upcoming

end Descending

end Outcome

/-! ## The grammar -/

/-- The rule descends from the token it starts on, wherever at most `n` tokens are left. -/
def Rule.DescendsTo {α : Type} (n : Nat) (r : Rule α) : Prop :=
  ∀ c, c.size ≤ n → (r c).DescendingAt c

namespace Rule

open Outcome Outcome.Descending

variable {α : Type} {n : Nat}

/-- The items after the first one, each behind a comma. -/
theorem moreItems_descends {item : Rule α} (hitem : item.DescendsTo n) (close : Kind)
    (turns : Nat) {c : Cursor} (hc : c.size ≤ n) :
    (moreItems item close turns c).DescendingBehind c := by
  induction turns generalizing c with
  | zero => exact expectNext_bind (success _ (Cursor.Onward.refl _))
  | succ turns ih =>
      unfold moreItems
      rw [upcoming_bind_run]
      split
      · rw [advance_bind_run, advance_bind_run]
        have hsize : c.advance.advance.size ≤ n := by
          simp only [Cursor.size_advance]
          omega
        apply DescendingAt.advance
        apply DescendingBehind.at
        apply DescendingAt.advance
        apply sequence_at (hitem _ hsize)
        intro a d hd
        apply sequence_behind (ih (Nat.le_trans hd.size_le hsize))
        intro rest e _
        exact success _ (Cursor.Onward.refl e)
      · exact expectNext_bind (success _ (Cursor.Onward.refl _))

/-- A list of items; its opening delimiter is accepted. -/
theorem items_descends {item : Rule α} (hitem : item.DescendsTo (n - 1)) (close : Kind)
    {c : Cursor} (hc : c.size ≤ n) : (items item close c).DescendingBehind c := by
  unfold items
  rw [upcoming_bind_run]
  split
  · exact success _ c.onward_advance
  · rw [advance_bind_run]
    have hsize : c.advance.size ≤ n - 1 := Cursor.size_advance_le hc
    apply DescendingAt.advance
    apply sequence_at (hitem _ hsize)
    intro a d hd
    apply sequence_behind
    · exact moreItems_descends hitem close d.size (Nat.le_trans hd.size_le hsize)
    · intro rest e _
      exact success _ (Cursor.Onward.refl e)

end Rule

namespace Grammar

open Rule Outcome Outcome.Descending

variable {read : Reader} {n : Nat} {c : Cursor}

/-- A value of a statement, with a semicolon behind it or not. -/
theorem value_descends {α : Type} (hread : ∀ p, (read p).DescendsTo n) (hc : c.size ≤ n)
    (make : Expr → α) :
    ((do
      let value ← read .lowest
      skipNext .semicolon
      pure (make value) : Rule α) c).DescendingAt c := by
  apply sequence_at (hread _ c hc)
  intro value d _
  rw [bind_run_of_some (skipNext_run _ d)]
  exact success _ (d.onward_skip _)

theorem bindStatement_descends (hread : ∀ p, (read p).DescendsTo n) (hc : c.size ≤ n) :
    (bindStatement read c).DescendingBehind c := by
  unfold bindStatement
  rw [current_bind_run]
  apply expectNext_bind
  rw [current_bind_run]
  apply expectNext_bind
  rw [advance_bind_run]
  apply DescendingAt.advance
  apply value_descends hread
  simp only [Cursor.size_advance]
  omega

theorem leaveStatement_descends (hread : ∀ p, (read p).DescendsTo n) (hc : c.size ≤ n) :
    (leaveStatement read c).DescendingBehind c := by
  unfold leaveStatement
  rw [current_bind_run, upcoming_bind_run]
  split
  · rw [bind_run_of_some (skipNext_run _ c)]
    exact success _ (c.onward_skip _)
  · rw [advance_bind_run]
    apply DescendingAt.advance
    apply value_descends hread
    rw [Cursor.size_advance]
    omega

/-- A statement may blame the token it starts with. -/
theorem statement_descends (hread : ∀ p, (read p).DescendsTo n) :
    (statement read).DescendsTo n := by
  intro c hc
  rw [statement_run]
  split
  · exact (bindStatement_descends hread hc).at
  · exact (leaveStatement_descends hread hc).at
  · exact value_descends hread hc _

/-- Statements leave all ranks from the token they stop at on. -/
theorem statements_descend (hread : ∀ p, (read p).DescendsTo n) (inBlock : Bool) (turns : Nat)
    (hc : c.size ≤ n) :
    ∃ list d errors, statements read inBlock turns c = ⟨some list, d, errors⟩ ∧ c.Onward d ∧
      Ranked c (2 * c.size) (2 * d.size) errors := by
  induction turns generalizing c with
  | zero => exact ⟨[], c, [], rfl, Cursor.Onward.refl c, .nil⟩
  | succ turns ih =>
      by_cases hstop : stops inBlock c.current.kind = true
      · exact ⟨[], c, [], statements_run_of_stops hstop, Cursor.Onward.refl c, .nil⟩
      by_cases hkind : c.current.kind = .semicolon
      · have hsize := c.onward_advance.size_le
        obtain ⟨list, d, errors, hrun, honward, hranked⟩ := ih (Nat.le_trans hsize hc)
        rw [statements_run_of_semicolon hkind, hrun]
        refine ⟨list, d, errors, rfl, c.onward_advance.trans honward, ?_⟩
        apply (hranked.from_behind c.onward_advance (Nat.le_refl _)).weaken _ (Nat.le_refl _)
        omega
      · -- What a statement leaves, dropped or not, is enough for those from the next token on.
        have hfirst := statement_descends hread c hc
        have hnext := hfirst.onward.trans (Cursor.onward_advance _)
        have hsize := hnext.size_le
        obtain ⟨list, d, errors, hrun, honward, hranked⟩ := ih (Nat.le_trans hsize hc)
        rw [statements_run_of_statement (eq_false_of_ne_true hstop) hkind, hrun]
        refine ⟨_, d, _, rfl, hnext.trans honward, ?_⟩
        have hleft := (statement read c).le_left
        rw [← Cursor.size_advance] at hleft
        apply (hfirst.ranked.weaken (Nat.le_refl _) hleft).append
        · exact hranked.from_behind hnext (Nat.le_refl _)
        · omega
        · have hstop := honward.size_le
          omega

/-- The opening brace is accepted; at the end of the source the closing one is missed. -/
theorem block_descends (hread : ∀ p, (read p).DescendsTo n) (hc : c.size ≤ n) :
    (block read c).DescendingBehind c := by
  unfold block
  rw [current_bind_run, advance_bind_run]
  apply DescendingAt.advance
  have hsize := Nat.le_trans c.onward_advance.size_le hc
  obtain ⟨list, d, errors, hrun, honward, hranked⟩ :=
    statements_descend hread true c.advance.size hsize
  have hloop : looped (statements read true) c.advance = ⟨some list, d, errors⟩ := hrun
  rw [bind_run_of_some hloop, current_bind_run]
  have hstop := honward.size_le
  split
  · refine ⟨honward, hranked.append (Ranked.current.from_behind honward (Nat.le_refl _)) ?_ ?_⟩
    · omega
    · exact Nat.sub_le _ _
  · refine ⟨honward, hranked.append .nil ?_ (Nat.sub_le _ _)⟩
    omega

theorem parameter_descends : parameter.DescendsTo n := by
  intro c _
  unfold parameter
  rw [current_bind_run]
  split
  · exact success _ (Cursor.Onward.refl c)
  · exact failure_current

theorem pairs_descends (hread : ∀ p, (read p).DescendsTo (n - 1)) (turns : Nat) (hc : c.size ≤ n) :
    (pairs read turns c).DescendingBehind c := by
  induction turns generalizing c with
  | zero => exact success _ (Cursor.Onward.refl c)
  | succ turns ih =>
      unfold pairs
      rw [upcoming_bind_run]
      split
      · exact success _ c.onward_advance
      · rw [advance_bind_run]
        have hsize : c.advance.size ≤ n - 1 := Cursor.size_advance_le hc
        apply DescendingAt.advance
        apply sequence_at (hread _ _ hsize)
        intro key d hd
        apply expectNext_bind
        rw [advance_bind_run]
        apply DescendingAt.advance
        have hvalue : d.advance.advance.size ≤ n - 1 := by
          have hkey := hd.size_le
          simp only [Cursor.size_advance] at *
          omega
        apply sequence_at (hread _ _ hvalue)
        intro value e he
        rw [upcoming_bind_run]
        have hrest : e.size ≤ n := by
          have hentry := he.size_le
          omega
        have htail (f : Cursor) (hf : f.size ≤ n) :
            ((pairs read turns >>= fun rest => pure ((key, value) :: rest)) f).DescendingBehind
              f := by
          apply sequence_behind (ih hf)
          intro rest g _
          exact success _ (Cursor.Onward.refl g)
        split
        · exact expectNext_bind (htail _ (Nat.le_trans e.onward_advance.size_le hrest))
        · exact htail e hrest

theorem conditional_descends (hread : ∀ p, (read p).DescendsTo (n - 1)) (hc : c.size ≤ n) :
    (conditional read c).DescendingBehind c := by
  unfold conditional
  rw [current_bind_run, advance_bind_run]
  have hsize : c.advance.size ≤ n - 1 := Cursor.size_advance_le hc
  apply DescendingAt.advance
  apply sequence_at (hread _ _ hsize)
  intro test d hd
  have hblock (e : Cursor) (he : d.Onward e) : (block read e).DescendingBehind e :=
    block_descends hread (Nat.le_trans (hd.trans he).size_le hsize)
  apply expectNext_bind
  apply sequence_behind (hblock _ d.onward_advance)
  intro consequence e he
  rw [upcoming_bind_run]
  split
  · rw [advance_bind_run]
    apply DescendingAt.advance
    apply DescendingBehind.at
    apply expectNext_bind
    apply sequence_behind
    · apply hblock
      exact d.onward_advance.trans (he.trans (e.onward_advance.trans (Cursor.onward_advance _)))
    · intro alternative f _
      exact success _ (Cursor.Onward.refl f)
  · exact success _ (Cursor.Onward.refl e)

theorem function_descends (hread : ∀ p, (read p).DescendsTo (n - 1)) (hc : c.size ≤ n) :
    (function read c).DescendingBehind c := by
  unfold function
  rw [current_bind_run]
  have hsize : c.advance.size ≤ n - 1 := Cursor.size_advance_le hc
  apply expectNext_bind
  apply sequence_behind (items_descends parameter_descends _ hsize)
  intro parameters d hd
  apply expectNext_bind
  apply sequence_behind
  · exact block_descends hread (Nat.le_trans (hd.trans d.onward_advance).size_le hsize)
  · intro body e _
    exact success _ (Cursor.Onward.refl e)

/-- What an expression starts with may be blamed if nothing starts with it. -/
theorem operand_descends (hread : ∀ p, (read p).DescendsTo (n - 1)) :
    (operand read).DescendsTo n := by
  intro c hc
  have hsize : c.advance.size ≤ n - 1 := Cursor.size_advance_le hc
  have hsign :
      ((read .sign >>= fun right => pure (Expr.unary c.current right)) c.advance).DescendingAt
        c := by
    apply DescendingBehind.at
    apply DescendingAt.advance
    apply sequence_at (hread _ _ hsize)
    intro right d _
    exact success _ (Cursor.Onward.refl d)
  rw [operand_run]
  cases c.current.kind
  case int =>
    cases c.current.literal.toInt64? with
    | some value => exact success _ (Cursor.Onward.refl c)
    | none => exact failure_current
  case bang => exact hsign
  case minus => exact hsign
  case lparen =>
    apply DescendingBehind.at
    apply DescendingAt.advance
    apply sequence_at (hread _ _ hsize)
    intro inner d _
    exact expectNext_bind (success _ (Cursor.Onward.refl _))
  case ifWord => exact (conditional_descends hread hc).at
  case fnWord => exact (function_descends hread hc).at
  case lbracket =>
    apply DescendingBehind.at
    apply sequence_behind (items_descends (hread _) _ hc)
    intro elements d _
    exact success _ (Cursor.Onward.refl d)
  case lbrace =>
    apply DescendingBehind.at
    apply sequence_behind (r := looped (pairs read)) (pairs_descends hread c.size hc)
    intro entries d _
    exact success _ (Cursor.Onward.refl d)
  case ident => exact success _ (Cursor.Onward.refl c)
  case string => exact success _ (Cursor.Onward.refl c)
  case trueWord => exact success _ (Cursor.Onward.refl c)
  case falseWord => exact success _ (Cursor.Onward.refl c)
  all_goals exact failure_current

/-- The token that continues an expression is accepted. -/
theorem continuation_descends (hread : ∀ p, (read p).DescendsTo (n - 1)) (left : Expr)
    (hc : c.size ≤ n) : (continuation read left c).DescendingBehind c := by
  have hsize : c.advance.size ≤ n - 1 := Cursor.size_advance_le hc
  rw [continuation_run]
  split
  · apply sequence_behind (items_descends (hread _) _ hc)
    intro arguments d _
    exact success _ (Cursor.Onward.refl d)
  · apply DescendingAt.advance
    apply sequence_at (hread _ _ hsize)
    intro key d _
    exact expectNext_bind (success _ (Cursor.Onward.refl _))
  · apply DescendingAt.advance
    apply sequence_at (hread _ _ hsize)
    intro right d _
    exact success _ (Cursor.Onward.refl d)

theorem climb_descends (hread : ∀ p, (read p).DescendsTo (n - 1)) (power : Power) (turns : Nat)
    (left : Expr) (hc : c.size ≤ n) : (climb read power turns left c).DescendingBehind c := by
  induction turns generalizing left c with
  | zero => exact success _ (Cursor.Onward.refl c)
  | succ turns ih =>
      unfold climb
      rw [upcoming_bind_run]
      split
      · rw [advance_bind_run]
        have hsize := Nat.le_trans c.onward_advance.size_le hc
        apply DescendingAt.advance
        apply DescendingBehind.at
        apply sequence_behind (continuation_descends hread left hsize)
        intro larger d hd
        exact ih larger (Nat.le_trans hd.size_le hsize)
      · exact success _ (Cursor.Onward.refl c)

/-- **Readers descend along the source.**  Where at most `n` tokens are left, the errors of a
reader with more turns than that blame tokens at descending ranks. -/
theorem expression_descends (n : Nat) (power : Power) :
    (expression (n + 1) power).DescendsTo n := by
  induction n generalizing power with
  | zero =>
      intro c hc
      rw [expression_run_of_size_eq_zero (Nat.le_zero.1 hc)]
      exact failure_current
  | succ n ih =>
      have hread (p : Power) : (expression (n + 1) p).DescendsTo (n + 1 - 1) := ih p
      intro c hc
      apply sequence_at (operand_descends hread c hc)
      intro left d hd
      exact climb_descends hread power d.size left (Nat.le_trans hd.size_le hc)

/-- The errors of a program blame the tokens of its source at descending ranks. -/
theorem program_ranked (c : Cursor) : Ranked c (2 * c.size) 0 (program c).errors := by
  have hread := expression_descends c.size
  obtain ⟨list, d, errors, hrun, _, hranked⟩ :=
    statements_descend hread false c.size (Nat.le_refl c.size)
  have hprogram : program c = ⟨some ⟨list⟩, d, errors ++ []⟩ := bind_run_of_some hrun _
  rw [hprogram, List.append_nil]
  exact hranked.weaken (Nat.le_refl _) (Nat.zero_le _)

end Grammar

end MonkeyLang
