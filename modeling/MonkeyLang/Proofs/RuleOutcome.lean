import MonkeyLang.Parse.Grammar

/-!
# How rules compose

A rule is run on a cursor and leaves an outcome behind.  This file has the
equations by which a rule built from smaller ones runs, and two ways to speak
of a run without them:

* `Rule.Yields` — the rule succeeds and records nothing, which unfolds along
  the rule step by step;
* `Outcome.Orderly` — whatever happens, the cursor only moves onward, a failure
  is never silent, and only tokens ahead are blamed.
-/

namespace MonkeyLang

namespace Cursor

/-- The second cursor is the first one, moved on any number of tokens. -/
structure Onward (c d : Cursor) : Prop where
  finish : d.finish = c.finish
  ahead : d.ahead <:+ c.ahead

/-- Staying is moving on by nothing. -/
theorem Onward.refl (c : Cursor) : c.Onward c := ⟨rfl, List.suffix_refl _⟩

/-- Moves follow one another. -/
theorem Onward.trans {c d e : Cursor} (h : c.Onward d) (k : d.Onward e) : c.Onward e :=
  ⟨k.finish.trans h.finish, k.ahead.trans h.ahead⟩

/-- Moving on never adds a token. -/
theorem Onward.size_le {c d : Cursor} (h : c.Onward d) : d.size ≤ c.size :=
  h.ahead.length_le

theorem onward_advance (c : Cursor) : c.Onward c.advance :=
  ⟨rfl, List.tail_suffix _⟩

@[simp]
theorem current_advance (c : Cursor) : c.advance.current = c.upcoming := rfl

/-- Moving on from one of at most `n` tokens leaves one less. -/
theorem size_advance_le {c : Cursor} {n : Nat} (h : c.size ≤ n) : c.advance.size ≤ n - 1 := by
  rw [size_advance]
  exact Nat.sub_le_sub_right h 1

/-- The current token is ahead, or the end. -/
theorem current_mem (c : Cursor) : c.current ∈ c.ahead ∨ c.current = c.finish := by
  cases h : c.ahead with
  | nil => exact Or.inr (by simp [current, h])
  | cons t rest => exact Or.inl (by simp [current, h])

/-- Where no token is left the cursor stands on the end. -/
theorem current_of_size_eq_zero {c : Cursor} (h : c.size = 0) : c.current = c.finish := by
  simp [current, List.length_eq_zero_iff.1 h]

/-- The cursor after an optional token of the given kind. -/
def skip (c : Cursor) (kind : Kind) : Cursor :=
  if c.upcoming.kind = kind then c.advance else c

theorem onward_skip (c : Cursor) (kind : Kind) : c.Onward (c.skip kind) := by
  unfold skip
  split
  · exact c.onward_advance
  · exact Onward.refl c

/-- The token after the current one is ahead, or the end. -/
theorem upcoming_mem (c : Cursor) : c.upcoming ∈ c.ahead ∨ c.upcoming = c.finish :=
  c.advance.current_mem.imp_left fun h => List.mem_of_mem_tail h

end Cursor

namespace Rule

variable {α β : Type}

/-! ## Equations of the steps -/

@[simp]
theorem pure_run (a : α) (c : Cursor) : (pure a : Rule α) c = ⟨some a, c, []⟩ := rfl

@[simp]
theorem fail_run (fault : Fault) (t : Token) (c : Cursor) :
    (fail fault t : Rule α) c = ⟨none, c, [⟨fault, t⟩]⟩ := rfl

@[simp]
theorem current_bind_run (f : Token → Rule β) (c : Cursor) :
    (current >>= f) c = f c.current c := rfl

@[simp]
theorem upcoming_bind_run (f : Token → Rule β) (c : Cursor) :
    (upcoming >>= f) c = f c.upcoming c := rfl

@[simp]
theorem advance_bind_run (f : Unit → Rule β) (c : Cursor) :
    (advance >>= f) c = f () c.advance := rfl

/-- When the first rule fails, the second one is not tried. -/
theorem bind_run_of_none {r : Rule α} {c d : Cursor} {errors : List SyntaxError}
    (h : r c = ⟨none, d, errors⟩) (f : α → Rule β) :
    (r >>= f) c = ⟨none, d, errors⟩ := by
  change andThen r f c = _
  simp [andThen, h]

/-- When the first rule succeeds, the second one goes on where it stopped. -/
theorem bind_run_of_some {r : Rule α} {c d : Cursor} {a : α} {errors : List SyntaxError}
    (h : r c = ⟨some a, d, errors⟩) (f : α → Rule β) :
    (r >>= f) c = ⟨(f a d).node?, (f a d).cursor, errors ++ (f a d).errors⟩ := by
  change andThen r f c = _
  simp [andThen, h]

/-- A required token is passed over when it is there. -/
theorem expectNext_run (kind : Kind) (c : Cursor) :
    expectNext kind c =
      if c.upcoming.kind = kind then ⟨some (), c.advance, []⟩
      else ⟨none, c, [⟨.expected kind c.upcoming.kind, c.upcoming⟩]⟩ := by
  unfold expectNext
  rw [upcoming_bind_run]
  split <;> rfl

/-- An optional token is passed over when it is there. -/
theorem skipNext_run (kind : Kind) (c : Cursor) :
    skipNext kind c = ⟨some (), c.skip kind, []⟩ := by
  unfold skipNext Cursor.skip
  rw [upcoming_bind_run]
  split <;> rfl

/-! ## Rules that succeed and record nothing -/

/-- From the cursor `c` the rule reads `a`, stops at `d` and records no error. -/
def Yields (r : Rule α) (c : Cursor) (a : α) (d : Cursor) : Prop :=
  r c = ⟨some a, d, []⟩

@[simp]
theorem yields_pure {a b : α} {c d : Cursor} :
    (pure a : Rule α).Yields c b d ↔ b = a ∧ d = c := by
  simp [Yields, eq_comm]

@[simp]
theorem yields_fail {fault : Fault} {t : Token} {a : α} {c d : Cursor} :
    ¬ (fail fault t : Rule α).Yields c a d := by
  simp [Yields]

@[simp]
theorem yields_current_bind {f : Token → Rule β} {b : β} {c d : Cursor} :
    (current >>= f).Yields c b d ↔ (f c.current).Yields c b d := Iff.rfl

@[simp]
theorem yields_upcoming_bind {f : Token → Rule β} {b : β} {c d : Cursor} :
    (upcoming >>= f).Yields c b d ↔ (f c.upcoming).Yields c b d := Iff.rfl

@[simp]
theorem yields_advance_bind {f : Unit → Rule β} {b : β} {c d : Cursor} :
    (advance >>= f).Yields c b d ↔ (f ()).Yields c.advance b d := Iff.rfl

@[simp]
theorem yields_expectNext_bind {kind : Kind} {f : Unit → Rule β} {b : β} {c d : Cursor} :
    (expectNext kind >>= f).Yields c b d ↔
      c.upcoming.kind = kind ∧ (f ()).Yields c.advance b d := by
  by_cases h : c.upcoming.kind = kind
  · rw [Yields, bind_run_of_some (expectNext_run kind c ▸ if_pos h)]
    simp only [h, true_and]
    rfl
  · rw [Yields, bind_run_of_none (expectNext_run kind c ▸ if_neg h)]
    simp [h]

@[simp]
theorem yields_skipNext_bind {kind : Kind} {f : Unit → Rule β} {b : β} {c d : Cursor} :
    (skipNext kind >>= f).Yields c b d ↔ (f ()).Yields (c.skip kind) b d := by
  rw [Yields, bind_run_of_some (skipNext_run kind c)]
  rfl

@[simp]
theorem yields_ite {p : Prop} [Decidable p] {r q : Rule α} {a : α} {c d : Cursor} :
    (if p then r else q).Yields c a d ↔ if p then r.Yields c a d else q.Yields c a d := by
  split <;> rfl

/-- A sequence succeeds without errors exactly when both of its rules do. -/
@[simp low]
theorem yields_bind {r : Rule α} {f : α → Rule β} {b : β} {c d : Cursor} :
    (r >>= f).Yields c b d ↔ ∃ a m, r.Yields c a m ∧ (f a).Yields m b d := by
  constructor
  · intro h
    rcases hr : r c with ⟨_ | a, m, errors⟩
    · rw [Yields, bind_run_of_none hr] at h
      simp at h
    · rw [Yields, bind_run_of_some hr] at h
      simp only [Outcome.mk.injEq, List.append_eq_nil_iff] at h
      obtain ⟨hnode, hcursor, rfl, hmore⟩ := h
      exact ⟨a, m, hr, by simp [Yields, ← hnode, ← hcursor, ← hmore]⟩
  · rintro ⟨a, m, hr, hf⟩
    rw [Yields, bind_run_of_some hr, hf]
    rfl

/-- What is read is kept. -/
theorem attempt_yields {r : Rule α} {a : α} {c d : Cursor} (h : r.Yields c a d) :
    (attempt r).Yields c (some a) d := by
  rw [Yields, attempt, h]

/-- A loop has as many turns as tokens are left. -/
@[simp]
theorem yields_looped {loop : Nat → Rule α} {a : α} {c d : Cursor} :
    (looped loop).Yields c a d ↔ (loop c.size).Yields c a d := Iff.rfl

variable {item : Rule α} {close : Kind} {c d : Cursor} {list : List α}

theorem moreItems_yields_succ {n : Nat} :
    (moreItems item close (n + 1)).Yields c list d ↔
      if c.upcoming.kind = .comma then
        ∃ a m, item.Yields c.advance.advance a m ∧
          ∃ rest, (moreItems item close n).Yields m rest d ∧ list = a :: rest
      else c.upcoming.kind = close ∧ list = [] ∧ d = c.advance := by
  simp [moreItems]

theorem items_yields :
    (items item close).Yields c list d ↔
      if c.upcoming.kind = close then list = [] ∧ d = c.advance
      else
        ∃ a m, item.Yields c.advance a m ∧
          ∃ rest, (moreItems item close m.size).Yields m rest d ∧ list = a :: rest := by
  simp [items]

end Rule

/-- The outcome of reading statements behind others and the errors in them. -/
def Outcome.after {α : Type} (list : List α) (errors : List SyntaxError)
    (o : Outcome (List α)) : Outcome (List α) :=
  ⟨o.node?.map (list ++ ·), o.cursor, errors ++ o.errors⟩

theorem Outcome.after_after {α : Type} (list list' : List α) (errors errors' : List SyntaxError)
    (o : Outcome (List α)) :
    (o.after list' errors').after list errors = o.after (list ++ list') (errors ++ errors') := by
  simp [after, Function.comp_def]

namespace Grammar

open Rule

/-! ## Rules that go by the current token -/

theorem statement_run (read : Reader) (c : Cursor) :
    statement read c =
      match c.current.kind with
      | .letWord => bindStatement read c
      | .returnWord => leaveStatement read c
      | _ => exprStatement read c := by
  unfold statement
  rw [current_bind_run]
  cases c.current.kind <;> rfl

theorem operand_run (read : Reader) (c : Cursor) :
    operand read c =
      match c.current.kind with
      | .ident => ⟨some (.ident c.current), c, []⟩
      | .int =>
        match c.current.literal.toInt64? with
        | some value => ⟨some (.int c.current value), c, []⟩
        | none => ⟨none, c, [⟨.badInteger c.current.literal, c.current⟩]⟩
      | .string => ⟨some (.string c.current), c, []⟩
      | .trueWord => ⟨some (.bool c.current true), c, []⟩
      | .falseWord => ⟨some (.bool c.current false), c, []⟩
      | .bang | .minus =>
        (do let right ← read .sign
            pure (.unary c.current right) : Rule Expr) c.advance
      | .lparen =>
        (do let inner ← read .lowest
            expectNext .rparen
            pure inner : Rule Expr) c.advance
      | .ifWord => conditional read c
      | .fnWord => function read c
      | .lbracket =>
        (do let elements ← items (read .lowest) .rbracket
            pure (.array c.current elements) : Rule Expr) c
      | .lbrace =>
        (do let entries ← looped (pairs read)
            pure (.hash c.current entries) : Rule Expr) c
      | .illegal => ⟨none, c, [⟨.illegal c.current.literal, c.current⟩]⟩
      | kind => ⟨none, c, [⟨.noOperand kind, c.current⟩]⟩ := by
  unfold operand
  rw [current_bind_run]
  cases c.current.kind
  case int => cases c.current.literal.toInt64? <;> rfl
  all_goals rfl

theorem continuation_run (read : Reader) (left : Expr) (c : Cursor) :
    continuation read left c =
      match c.current.kind with
      | .lparen =>
        (do let arguments ← items (read .lowest) .rparen
            pure (.call c.current left arguments) : Rule Expr) c
      | .lbracket =>
        (do let key ← read .lowest
            expectNext .rbracket
            pure (.index c.current left key) : Rule Expr) c.advance
      | kind =>
        (do let right ← read kind.power
            pure (.binary c.current left right) : Rule Expr) c.advance := by
  unfold continuation
  rw [current_bind_run]
  cases c.current.kind <;> rfl

variable {read : Reader} {c d : Cursor} {n : Nat}

/-! ## Statements one by one -/

/-- A statement, dropped or not, and the statements behind it. -/
theorem statements_run_of_statement {inBlock : Bool}
    (hstop : stops inBlock c.current.kind = false) (hkind : c.current.kind ≠ .semicolon) :
    statements read inBlock (n + 1) c =
      (statements read inBlock n (statement read c).cursor.advance).after
        (statement read c).node?.toList (statement read c).errors := by
  conv => lhs; unfold statements
  rw [current_bind_run, if_neg (by simp [hstop]), if_neg hkind]
  have hattempt : attempt (statement read) c =
      ⟨some (statement read c).node?, (statement read c).cursor, (statement read c).errors⟩ := rfl
  rw [bind_run_of_some hattempt, advance_bind_run]
  rcases ho : statements read inBlock n (statement read c).cursor.advance with
    ⟨_ | list, d, errors⟩
  · rw [bind_run_of_none ho]
    rfl
  · rw [bind_run_of_some ho]
    simp [Outcome.after]

/-- A lone semicolon is passed over. -/
theorem statements_run_of_semicolon {inBlock : Bool}
    (hkind : c.current.kind = .semicolon) :
    statements read inBlock (n + 1) c = statements read inBlock n c.advance := by
  conv => lhs; unfold statements
  rw [current_bind_run, if_neg (by simp [stops, hkind]), if_pos hkind, advance_bind_run]

/-- Statements stop where they are to stop. -/
theorem statements_run_of_stops {inBlock : Bool}
    (hstop : stops inBlock c.current.kind = true) :
    statements read inBlock n c = ⟨some [], c, []⟩ := by
  cases n with
  | zero => rfl
  | succ n =>
      unfold statements
      rw [current_bind_run, if_pos hstop]
      rfl

/-- Statements are always read, be it none. -/
theorem exists_node_statements (read : Reader) (inBlock : Bool) (turns : Nat) (c : Cursor) :
    ∃ list, (statements read inBlock turns c).node? = some list := by
  induction turns generalizing c with
  | zero => exact ⟨[], rfl⟩
  | succ turns ih =>
      cases hstop : stops inBlock c.current.kind with
      | true => exact ⟨[], by rw [statements_run_of_stops hstop]⟩
      | false =>
          by_cases hkind : c.current.kind = .semicolon
          · rw [statements_run_of_semicolon hkind]
            exact ih c.advance
          · obtain ⟨list, hlist⟩ := ih (statement read c).cursor.advance
            rw [statements_run_of_statement hstop hkind]
            exact ⟨_, by rw [Outcome.after, hlist]; rfl⟩

/-! ## Which runs of the rules of the grammar succeed -/

theorem bindStatement_yields {s : Stmt} :
    (bindStatement read).Yields c s d ↔
      c.upcoming.kind = .ident ∧ c.advance.upcoming.kind = .assign ∧
        ∃ e m, (read .lowest).Yields c.advance.advance.advance e m ∧
          s = .bind c.current c.upcoming e ∧ d = m.skip .semicolon := by
  simp [bindStatement]

theorem leaveStatement_yields {s : Stmt} :
    (leaveStatement read).Yields c s d ↔
      if c.upcoming.kind = .semicolon ∨ c.upcoming.kind = .rbrace ∨ c.upcoming.kind = .eof then
        s = .leave c.current none ∧ d = c.skip .semicolon
      else
        ∃ e m, (read .lowest).Yields c.advance e m ∧
          s = .leave c.current (some e) ∧ d = m.skip .semicolon := by
  simp [leaveStatement]

theorem exprStatement_yields {s : Stmt} :
    (exprStatement read).Yields c s d ↔
      ∃ e m, (read .lowest).Yields c e m ∧ s = .expr c.current e ∧ d = m.skip .semicolon := by
  simp [exprStatement]

theorem statements_yields_succ {inBlock : Bool} {list : List Stmt} :
    (statements read inBlock (n + 1)).Yields c list d ↔
      if stops inBlock c.current.kind then list = [] ∧ d = c
      else if c.current.kind = .semicolon then
        (statements read inBlock n).Yields c.advance list d
      else
        ∃ found m, (attempt (statement read)).Yields c found m ∧
          ∃ rest, (statements read inBlock n).Yields m.advance rest d ∧
            list = found.toList ++ rest := by
  simp [statements]

theorem block_yields {b : Block} :
    (block read).Yields c b d ↔
      ∃ list, (statements read true c.advance.size).Yields c.advance list d ∧
        d.current.kind ≠ .eof ∧ b = .mk c.current list := by
  simp only [block, yields_current_bind, yields_advance_bind]
  rw [yields_bind]
  constructor
  · rintro ⟨list, m, hlist, h⟩
    rw [yields_current_bind, yields_ite] at h
    split at h
    · simp at h
    · next hm =>
      obtain ⟨rfl, rfl⟩ := yields_pure.1 h
      exact ⟨list, hlist, hm, rfl⟩
  · rintro ⟨list, hlist, hd, rfl⟩
    exact ⟨list, d, hlist, by simp [hd]⟩

theorem parameter_yields {t : Token} :
    parameter.Yields c t d ↔ c.current.kind = .ident ∧ t = c.current ∧ d = c := by
  by_cases h : c.current.kind = .ident <;> simp [parameter, h]

theorem pairs_yields_succ {list : List (Expr × Expr)} :
    (pairs read (n + 1)).Yields c list d ↔
      if c.upcoming.kind = .rbrace then list = [] ∧ d = c.advance
      else
        ∃ k m, (read .lowest).Yields c.advance k m ∧ m.upcoming.kind = .colon ∧
          ∃ a l, (read .lowest).Yields m.advance.advance a l ∧
            if l.upcoming.kind = .rbrace then
              ∃ rest, (pairs read n).Yields l rest d ∧ list = (k, a) :: rest
            else
              l.upcoming.kind = .comma ∧
                ∃ rest, (pairs read n).Yields l.advance rest d ∧ list = (k, a) :: rest := by
  simp [pairs]

theorem conditional_yields {e : Expr} :
    (conditional read).Yields c e d ↔
      ∃ test m, (read .lowest).Yields c.advance test m ∧ m.upcoming.kind = .lbrace ∧
        ∃ yes l, (block read).Yields m.advance yes l ∧
          if l.upcoming.kind = .elseWord then
            l.advance.upcoming.kind = .lbrace ∧
              ∃ no, (block read).Yields l.advance.advance no d ∧
                e = .cond c.current test yes (some no)
          else e = .cond c.current test yes none ∧ d = l := by
  simp [conditional]

theorem function_yields {e : Expr} :
    (function read).Yields c e d ↔
      c.upcoming.kind = .lparen ∧
        ∃ parameters m, (items parameter .rparen).Yields c.advance parameters m ∧
          m.upcoming.kind = .lbrace ∧
            ∃ body, (block read).Yields m.advance body d ∧
              e = .function c.current parameters body := by
  simp [function]

theorem climb_yields_succ {power : Power} {left e : Expr} :
    (climb read power (n + 1) left).Yields c e d ↔
      if power < c.upcoming.kind.power then
        ∃ larger m, (continuation read left).Yields c.advance larger m ∧
          (climb read power n larger).Yields m e d
      else e = left ∧ d = c := by
  simp [climb]

theorem expressionWith_yields {power : Power} {e : Expr} :
    (expressionWith read power).Yields c e d ↔
      ∃ left m, (operand read).Yields c left m ∧
        (climb read power m.size left).Yields m e d := by
  simp [expressionWith]

end Grammar

/-! ## Orderly outcomes -/

/-- An outcome a rule may leave behind when it starts at `c`: the cursor moved
onward, a failure was recorded, and only tokens ahead of `c` are blamed. -/
structure Outcome.Orderly {α : Type} (o : Outcome α) (c : Cursor) : Prop where
  onward : c.Onward o.cursor
  recorded : o.node? = none → o.errors ≠ []
  blamed : ∀ e ∈ o.errors, e.token ∈ c.ahead ∨ e.token = c.finish

namespace Outcome.Orderly

open Rule

variable {α β : Type} {c d : Cursor}

/-- An outcome that is orderly further on is orderly from here. -/
theorem from_behind {o : Outcome α} (h : c.Onward d) (ho : o.Orderly d) : o.Orderly c where
  onward := h.trans ho.onward
  recorded := ho.recorded
  blamed := by
    intro e he
    rcases ho.blamed e he with hmem | hfinish
    · exact Or.inl (h.ahead.subset hmem)
    · exact Or.inr (hfinish.trans h.finish)

/-- A run that succeeds moves onward. -/
theorem onward_of_yields {r : Rule α} {a : α} (h : (r c).Orderly c) (hr : r.Yields c a d) :
    c.Onward d := by
  have honward := h.onward
  rw [hr] at honward
  exact honward

/-- When no error is recorded nothing was given up. -/
theorem of_attempt_yields {r : Rule α} {found : Option α} (h : (r c).Orderly c)
    (hr : (attempt r).Yields c found d) : ∃ a, found = some a ∧ r.Yields c a d := by
  rcases hrun : r c with ⟨_ | a, m, errors⟩
  · rw [hrun] at h
    simp only [Yields, attempt, hrun, Outcome.mk.injEq] at hr
    exact absurd hr.2.2 (h.recorded rfl)
  · simp only [Yields, attempt, hrun, Outcome.mk.injEq, Option.some.injEq] at hr
    obtain ⟨rfl, rfl, rfl⟩ := hr
    exact ⟨a, rfl, hrun⟩

theorem success (a : α) (h : c.Onward d) : (⟨some a, d, []⟩ : Outcome α).Orderly c :=
  ⟨h, by simp, by simp⟩

/-- Blaming a token ahead is orderly. -/
theorem failure {fault : Fault} {t : Token} (ht : t ∈ c.ahead ∨ t = c.finish) :
    (⟨none, c, [⟨fault, t⟩]⟩ : Outcome α).Orderly c where
  onward := Cursor.Onward.refl c
  recorded := by simp
  blamed := by
    intro e he
    rw [List.mem_singleton.1 he]
    exact ht

/-- One orderly rule after another. -/
theorem sequence {r : Rule α} {f : α → Rule β} (hr : (r c).Orderly c)
    (hf : ∀ a d, c.Onward d → (f a d).Orderly d) : ((r >>= f) c).Orderly c := by
  rcases h : r c with ⟨_ | a, d, errors⟩
  · rw [bind_run_of_none h]
    rw [h] at hr
    exact ⟨hr.onward, fun _ => hr.recorded rfl, hr.blamed⟩
  · rw [bind_run_of_some h]
    rw [h] at hr
    have hnext := from_behind hr.onward (hf a d hr.onward)
    refine ⟨hnext.onward, ?_, ?_⟩
    · intro hnone hnil
      exact hnext.recorded hnone (List.append_eq_nil_iff.1 hnil).2
    · intro e he
      rcases List.mem_append.1 he with he | he
      · exact hr.blamed e he
      · exact hnext.blamed e he

/-- A required token, then an orderly rule. -/
theorem expectNext_bind {kind : Kind} {f : Unit → Rule β}
    (hf : (f () c.advance).Orderly c.advance) : ((expectNext kind >>= f) c).Orderly c := by
  by_cases h : c.upcoming.kind = kind
  · rw [bind_run_of_some (expectNext_run kind c ▸ if_pos h)]
    exact from_behind c.onward_advance hf
  · rw [bind_run_of_none (expectNext_run kind c ▸ if_neg h)]
    exact failure c.upcoming_mem

end Outcome.Orderly
end MonkeyLang
