import MonkeyLang.Proofs.CutReading
import MonkeyLang.Proofs.Joint
import MonkeyLang.Proofs.MovedScan

/-!
# Errors do not reach beyond a semicolon

There is no token at which reading starts afresh after an error: a statement that
cannot be read is dropped where it failed, inside a block or outside, and reading goes
on with the token behind.  Still, errors in one source do not reach into another that
stands behind it on a line of its own with a semicolon in front.

Every rule is followed through the two readings of `Joint`, up to the statements of the
whole program.  `recovery_is_local` says what comes of it: if no error of the first
source is incomplete, the statements and the errors are those of the first source and
then those of the second, moved to where it stands.
-/

namespace MonkeyLang

namespace Grammar

open Rule

variable {joint : Joint} {n : Nat} {read read' : Reader}

/-- Readers for the two sources: one does what the other does, and behind the short
source there is nothing to read. -/
structure Joined (joint : Joint) (n : Nat) (read read' : Reader) : Prop where
  joins : ∀ p, Joins joint false n (read p) (read' p)
  starves : ∀ p, (read p).Starves joint.loose

namespace Joined

theorem mono {k : Nat} (h : Joined joint n read read') (hk : k ≤ n) :
    Joined joint k read read' :=
  ⟨fun p => (h.joins p).mono hk, h.starves⟩

/-- An expression one token further on, and what follows it. -/
theorem inner {α : Type} {ends : Bool} {f f' : Expr → Rule α}
    (h : Joined joint (n - 1) read read') (p : Power)
    (hf : ∀ e, Joins joint ends (n - 1) (f e) (f' e)) :
    Joins joint ends n (advance >>= fun _ => read p >>= f)
      (advance >>= fun _ => read' p >>= f') :=
  Joins.advance_bind ((h.joins p).bind hf) ((h.starves p).bind f)

/-- Behind the last token of the short source there is no such expression. -/
theorem founders {α : Type} (h : Joined joint n read read') (p : Power) (f : Expr → Rule α) :
    Founders joint.loose (advance >>= fun _ => read p >>= f) :=
  Founders.advance_bind ((h.starves p).bind f)

end Joined

/-! ## Statements -/

/-- A `let` statement. -/
theorem bindStatement_joins (h : Joined joint n read read') :
    Joins joint true n (bindStatement read) (bindStatement read') := by
  refine Joins.current_bind fun t => Joins.expectNext_bind rfl ?_
  refine Joins.current_bind fun name => Joins.expectNext_bind rfl ?_
  exact (h.mono (by omega)).inner _ fun value => Joins.ending _

/-- A `return` statement without a value, or one that misses its value. -/
theorem leaveStatement_joins (h : Joined joint n read read') :
    Joins joint true n (leaveStatement read) (leaveStatement read') := by
  refine Joins.current_bind fun t => ?_
  refine Joins.upcoming_bind (fun next => Joins.ite (fun _ => Joins.ending _) fun _ => ?_) ?_
  · exact (h.mono (Nat.sub_le n 1)).inner _ fun value => Joins.ending _
  · intro u c c' htwins
    have hmark : joint.mark.kind = .semicolon ∨ joint.mark.kind = .rbrace ∨
        joint.mark.kind = .eof := Or.inl joint.isMark
    rw [if_pos hmark]
    split
    · exact Joins.ending (Stmt.leave t none) (Nat.le_refl _) htwins
    · exact Abreast.short (h.founders _ _ c htwins.atCut)

/-- A statement that is an expression. -/
theorem exprStatement_joins (h : Joined joint n read read') :
    Joins joint true n (exprStatement read) (exprStatement read') :=
  Joins.current_bind fun _ => (h.joins _).bind fun _ => Joins.ending _

/-- Every statement. -/
theorem statement_joins (h : Joined joint n read read') :
    Joins joint true n (statement read) (statement read') := by
  refine Joins.current_bind fun t => ?_
  cases t.kind
  case letWord => exact bindStatement_joins h
  case returnWord => exact leaveStatement_joins h
  all_goals exact exprStatement_joins h

/-- No statement starts with what ends the source, the end apart. -/
theorem statement_starves (hread : ∀ p, (read p).Starves joint.loose) :
    Starves joint.loose (statement read) := by
  intro c hc
  have hkind := Token.kind_of_endsSource (hc.ends c.current_mem)
  have hrun : statement read c = exprStatement read c := by
    rw [statement_run]
    rcases hkind with hkind | hkind <;> rw [hkind]
  rw [hrun]
  exact cutShort_bind (hread _ c hc) _

end Grammar

namespace Grammar

open Rule

variable {joint : Joint} {n : Nat} {read read' : Reader}

/-- How statements in the two sources compare: they stop at the same token before the
joint; or the short source is read to its end and the longer one goes on behind the
semicolon; or the short one came to its end too early. -/
inductive Passing (joint : Joint) (read' : Reader) (inBlock : Bool) (shared : List Token)
    (o o' : Outcome (List Stmt)) : Prop
  | level {t : Token} {rest : List Token}
      (hnode : o'.node? = o.node?)
      (herrors : o'.errors = o.errors)
      (hrest : t :: rest <:+ shared)
      (hstop : stops inBlock t.kind = true)
      (htwins : joint.Twins (t :: rest) o.cursor o'.cursor)
  | through {turns : Nat} {list : List Stmt}
      (hnode : o.node? = some list)
      (hend : o.cursor.current.kind = .eof)
      (hcut : o.cursor.ahead = joint.loose.tokens)
      (hturns : joint.onward.size ≤ turns)
      (hrun : o' = (statements read' inBlock turns joint.onward).after list o.errors)
  | short (h : o.CutShort)

/-- From a later token on is from an earlier one on. -/
theorem Passing.from_behind {inBlock : Bool} {shared rest : List Token}
    {o o' : Outcome (List Stmt)} (h : Passing joint read' inBlock rest o o')
    (hrest : rest <:+ shared) : Passing joint read' inBlock shared o o' := by
  cases h with
  | level hnode herrors hsuffix hstop htwins =>
      exact Passing.level hnode herrors (hsuffix.trans hrest) hstop htwins
  | through hnode hend hcut hturns hrun => exact Passing.through hnode hend hcut hturns hrun
  | short h => exact Passing.short h

/-- The same statements before both. -/
theorem Passing.after {inBlock : Bool} {shared : List Token} {o o' : Outcome (List Stmt)}
    (h : Passing joint read' inBlock shared o o') (list : List Stmt)
    (errors : List SyntaxError) :
    Passing joint read' inBlock shared (o.after list errors) (o'.after list errors) := by
  cases h with
  | level hnode herrors hrest hstop htwins =>
      refine Passing.level ?_ (congrArg (errors ++ ·) herrors) hrest hstop htwins
      exact congrArg (Option.map (list ++ ·)) hnode
  | through hnode hend hcut hturns hrun =>
      refine Passing.through (congrArg (Option.map (list ++ ·)) hnode) hend hcut hturns ?_
      rw [hrun, Outcome.after_after]
      rfl
  | short h =>
      obtain ⟨e, he, hincomplete⟩ := h
      exact Passing.short ⟨e, List.mem_append_right _ he, hincomplete⟩

/-- Where the short source has ended, and the longer one has come behind the semicolon. -/
theorem passing_end (hread : ∀ p, (read p).Starves joint.loose) (inBlock : Bool) {c : Cursor}
    {shared : List Token} {turns turns' : Nat} (hc : c.ahead = joint.loose.tokens)
    (hturns : c.size ≤ turns) (hturns' : joint.onward.size ≤ turns') :
    Passing joint read' inBlock shared (statements read inBlock turns c)
      (statements read' inBlock turns' joint.onward) := by
  have hpast : c.PastCut joint.loose := by
    simp only [Cursor.PastCut, hc, List.suffix_refl]
  rcases Token.kind_of_endsSource (hpast.ends c.current_mem) with hkind | hkind
  · rw [statements_run_of_stops (by simp [stops, hkind])]
    refine Passing.through rfl hkind hc hturns' ?_
    simp [Outcome.after]
  · have hsize : 0 < c.size := Cursor.size_pos_of_current (by simp [hkind])
    obtain ⟨k, rfl⟩ : ∃ k, turns = k + 1 := ⟨turns - 1, by omega⟩
    rw [statements_run_of_statement (by simp [stops, hkind]) (by simp [hkind])]
    obtain ⟨e, he, hincomplete⟩ := statement_starves hread c hpast
    exact Passing.short ⟨e, List.mem_append_left _ he, hincomplete⟩

/-- At the joint the semicolon is passed over. -/
theorem passing_mark (hread : ∀ p, (read p).Starves joint.loose) (inBlock : Bool)
    {c c' : Cursor} (htwins : joint.Twins [] c c') (k : Nat) :
    Passing joint read' inBlock []
      (statements read inBlock (joint.loose.tokens.length + k) c)
      (statements read' inBlock (joint.more.length + k) c') := by
  have hmark : c'.current.kind = .semicolon := by rw [htwins.current_mark, joint.isMark]
  have hturns : joint.more.length + k = joint.onward.size + k + 1 := by
    simp only [Joint.more, List.length_cons, Cursor.size]
    omega
  rw [hturns, statements_run_of_semicolon hmark, htwins.advance_mark]
  refine passing_end hread inBlock htwins.cut ?_ (Nat.le_add_right _ k)
  rw [htwins.size_cut]
  simp

/-- Statements pass the joint together, or stop before it. -/
theorem statements_passing (h : Joined joint n read read') (inBlock : Bool)
    {shared : List Token} {c c' : Cursor} (htwins : joint.Twins shared c c') (k : Nat)
    (hlength : shared.length ≤ k) (hk : k ≤ n) :
    Passing joint read' inBlock shared
      (statements read inBlock (joint.loose.tokens.length + k) c)
      (statements read' inBlock (joint.more.length + k) c') := by
  induction k generalizing shared c c' with
  | zero =>
      obtain rfl : shared = [] := List.length_eq_zero_iff.1 (Nat.le_zero.1 hlength)
      exact passing_mark h.starves inBlock htwins 0
  | succ k ih =>
      cases shared with
      | nil => exact passing_mark h.starves inBlock htwins (k + 1)
      | cons t shared =>
          have hcurrent : c.current = t := htwins.current_cut
          have hcurrent' : c'.current = t := htwins.current_whole
          have hk' : k ≤ n := Nat.le_of_succ_le hk
          have hshared : shared.length ≤ k := Nat.le_of_succ_le_succ hlength
          by_cases hstop : stops inBlock t.kind = true
          · rw [statements_run_of_stops (by rwa [hcurrent]),
              statements_run_of_stops (by rwa [hcurrent'])]
            exact Passing.level rfl rfl (List.suffix_refl _) hstop htwins
          by_cases hkind : t.kind = .semicolon
          · rw [← Nat.add_assoc, ← Nat.add_assoc,
              statements_run_of_semicolon (by rwa [hcurrent]),
              statements_run_of_semicolon (by rwa [hcurrent'])]
            exact (ih htwins.onward hshared hk').from_behind (List.suffix_cons _ _)
          · rw [← Nat.add_assoc, ← Nat.add_assoc,
              statements_run_of_statement (by simpa [hcurrent] using hstop) (by rwa [hcurrent]),
              statements_run_of_statement (by simpa [hcurrent'] using hstop) (by rwa [hcurrent'])]
            cases statement_joins (h.mono hk) hlength htwins with
            | level hnode herrors hrest htwins' =>
                rw [hnode, herrors]
                have hlength' := Nat.le_trans hrest.length_le hlength
                have hlater := ih htwins'.onward (Nat.le_of_succ_le_succ hlength') hk'
                exact (hlater.from_behind ((List.suffix_cons _ _).trans hrest)).after _ _
            -- The semicolon has ended the statement, so nothing is left before the joint.
            | ended _ hnode herrors htwins' =>
                rw [hnode, herrors, htwins'.advance_mark]
                refine Passing.after (passing_end h.starves inBlock htwins'.cut ?_ ?_) _ _
                · rw [htwins'.size_cut]
                  simp
                · simp only [Joint.more, List.length_cons, Cursor.size]
                  omega
            | short hshort =>
                obtain ⟨e, he, hincomplete⟩ := hshort
                exact Passing.short ⟨e, List.mem_append_left _ he, hincomplete⟩

/-- A block that the short source leaves open is missing its closing brace. -/
theorem block_joins (h : Joined joint n read read') :
    Joins joint false n (block read) (block read') := by
  intro t shared c c' hlength htwins
  have hshared : shared.length ≤ n := Nat.le_of_succ_le hlength
  have hpassing := statements_passing h true htwins.onward shared.length (Nat.le_refl _) hshared
  rw [← htwins.onward.size_cut, ← htwins.onward.size_whole] at hpassing
  unfold block
  rw [current_bind_run, current_bind_run, htwins.current_cut, htwins.current_whole,
    advance_bind_run, advance_bind_run]
  rcases ho : statements read true c.advance.size c.advance with ⟨node, e, errors⟩
  rcases ho' : statements read' true c'.advance.size c'.advance with ⟨node', e', errors'⟩
  have hloop : looped (statements read true) c.advance = ⟨node, e, errors⟩ := ho
  have hloop' : looped (statements read' true) c'.advance = ⟨node', e', errors'⟩ := ho'
  rw [ho, ho'] at hpassing
  cases hpassing with
  | level hnode herrors hrest hstop htwins' =>
      cases hnode
      cases herrors
      have hrest' := hrest.trans (List.suffix_cons t shared)
      have hcurrent : e.current = _ := htwins'.current_cut
      have hcurrent' : e'.current = _ := htwins'.current_whole
      cases node with
      | none =>
          rw [bind_run_of_none hloop, bind_run_of_none hloop']
          exact Abreast.level rfl rfl hrest' htwins'
      | some body =>
          rw [bind_run_of_some hloop, bind_run_of_some hloop', current_bind_run,
            current_bind_run, hcurrent, hcurrent']
          split
          · exact Abreast.level rfl rfl hrest' htwins'
          · exact Abreast.level rfl rfl hrest' htwins'
  | through hnode hend _ _ _ =>
      cases hnode
      rw [bind_run_of_some hloop, current_bind_run, if_pos hend]
      refine Abreast.short ⟨_, List.mem_append_right _ (List.mem_singleton.2 rfl), ?_⟩
      have hfinish : e.current.kind = .eof := hend
      simp [SyntaxError.isIncomplete, Token.endsSource, hfinish]
  | short hshort =>
      refine Abreast.short (cutShort_bind ?_ _)
      rwa [hloop]

/-! ## Expressions -/

/-- A parameter name. -/
theorem parameter_joins : Joins joint false n parameter parameter := by
  refine Joins.current_bind fun t => ?_
  exact Joins.ite (fun _ => Joins.pure t) fun _ => Joins.fail _ _

theorem parameter_starves : Starves joint.loose parameter := by
  intro c hc
  have hends := hc.ends c.current_mem
  have hkind : c.current.kind ≠ .ident := Token.kind_ne_of_endsSource hends rfl
  unfold parameter
  rw [current_bind_run, if_neg hkind]
  exact ⟨_, List.mem_singleton.2 rfl, hends⟩

/-- The entries of a hash literal. -/
theorem pairs_joins (h : Joined joint (n - 1) read read') (k : Nat) (hk : k ≤ n) :
    Joins joint false k (pairs read (joint.loose.tokens.length + k))
      (pairs read' (joint.more.length + k)) := by
  induction k with
  | zero => exact Joins.zero
  | succ k ih =>
      have hread : Joined joint k read read' := h.mono (by omega)
      have hmore (entry : Expr × Expr) : Joins joint false k
          (do let rest ← pairs read (joint.loose.tokens.length + k)
              pure (entry :: rest))
          (do let rest ← pairs read' (joint.more.length + k)
              pure (entry :: rest)) :=
        (ih (Nat.le_of_succ_le hk)).bind fun rest => Joins.pure (entry :: rest)
      refine Joins.upcoming_take rfl (by decide) (fun t => Joins.pure []) (fun t => ?_)
        fun t c c' htwins => ?_
      · refine hread.inner _ fun key => Joins.expectNext_bind rfl ?_
        refine (hread.mono (by omega)).inner _ fun value => ?_
        refine Joins.upcoming_bind (fun after => Joins.ite (fun _ => ?_) fun _ => ?_)
          fun t c c' htwins => ?_
        · exact Joins.expectNext_bind rfl ((hmore (key, value)).mono (by omega))
        · exact (hmore (key, value)).mono (by omega)
        · have hbrace : c.upcoming.kind ≠ .rbrace :=
            Token.kind_ne_of_endsSource htwins.atCut.upcoming_ends rfl
          rw [if_pos hbrace]
          exact Abreast.short ((Founders.expectNext rfl).bind _ c htwins.atCut)
      · exact Abreast.short (h.founders _ _ c htwins.atCut)

/-- A conditional: neither the end nor a semicolon starts another branch. -/
theorem conditional_joins (h : Joined joint (n - 1) read read') :
    Joins joint false n (conditional read) (conditional read') := by
  refine Joins.current_bind fun t => h.inner _ fun test => Joins.expectNext_bind rfl ?_
  have hblock {k : Nat} (hk : k ≤ n - 1) : Joins joint false k (block read) (block read') :=
    block_joins (h.mono hk)
  refine (hblock (by omega)).bind fun consequence => ?_
  refine Joins.upcoming_take rfl (by decide) (fun next => ?_) (fun next => Joins.pure _)
    fun u c c' htwins => ?_
  · refine Joins.expectNext_bind rfl ((hblock (by omega)).bind fun alternative => ?_)
    exact Joins.pure _
  · exact Abreast.level rfl rfl (List.suffix_refl _) htwins

/-- A function literal. -/
theorem function_joins (h : Joined joint (n - 1) read read') :
    Joins joint false n (function read) (function read') := by
  refine Joins.current_bind fun t => Joins.expectNext_bind rfl ?_
  refine Joins.bind (Joins.items rfl (by decide) parameter_joins parameter_starves) ?_
  intro parameters
  refine Joins.expectNext_bind rfl ((block_joins (h.mono (by omega))).bind fun body => ?_)
  exact Joins.pure _

/-- A list of expressions. -/
theorem items_joins (h : Joined joint (n - 1) read read') {close : Kind}
    (hclose : close.isMark = true) (hne : close ≠ .semicolon) :
    Joins joint false n (items (read .lowest) close) (items (read' .lowest) close) :=
  Joins.items hclose hne (h.joins _) (h.starves _)

/-- What an expression starts with. -/
theorem operand_joins (h : Joined joint (n - 1) read read') :
    Joins joint false n (operand read) (operand read') := by
  refine Joins.current_bind fun t => ?_
  cases t.kind
  case int =>
    cases t.literal.toInt64? with
    | none => exact Joins.fail _ _
    | some value => exact Joins.pure _
  case bang => exact h.inner _ fun right => Joins.pure _
  case minus => exact h.inner _ fun right => Joins.pure _
  case lparen => exact h.inner _ fun inner => Joins.expectNext_bind rfl (Joins.pure _)
  case ifWord => exact conditional_joins h
  case fnWord => exact function_joins h
  case lbracket => exact (items_joins h rfl (by decide)).bind fun elements => Joins.pure _
  case lbrace => exact (Joins.looped (pairs_joins h)).bind fun entries => Joins.pure _
  case ident => exact Joins.pure _
  case string => exact Joins.pure _
  case trueWord => exact Joins.pure _
  case falseWord => exact Joins.pure _
  all_goals exact Joins.fail _ _

/-- Reading on after a left operand. -/
theorem continuation_joins (h : Joined joint (n - 1) read read') (left : Expr) :
    Joins joint false n (continuation read left) (continuation read' left) := by
  refine Joins.current_bind fun t => ?_
  cases t.kind
  case lparen => exact (items_joins h rfl (by decide)).bind fun arguments => Joins.pure _
  case lbracket => exact h.inner _ fun key => Joins.expectNext_bind rfl (Joins.pure _)
  all_goals exact h.inner _ fun right => Joins.pure _

/-- What ends the source goes on with nothing. -/
theorem continuation_starves (hread : ∀ p, (read p).Starves joint.loose) (left : Expr) :
    Starves joint.loose (continuation read left) := by
  intro c hc
  have hnext := hc.onward c.onward_advance
  rw [continuation_run]
  rcases Token.kind_of_endsSource (hc.ends c.current_mem) with hkind | hkind
  · rw [hkind]
    exact cutShort_bind (hread _ _ hnext) _
  · rw [hkind]
    exact cutShort_bind (hread _ _ hnext) _

/-- Reading on: the end and a semicolon bind alike. -/
theorem climb_joins (h : Joined joint (n - 1) read read') (power : Power) (k : Nat) (hk : k ≤ n)
    (left : Expr) :
    Joins joint false k (climb read power (joint.loose.tokens.length + k) left)
      (climb read' power (joint.more.length + k) left) := by
  induction k generalizing left with
  | zero => exact Joins.zero
  | succ k ih =>
      have hstarves (larger : Expr) := continuation_starves h.starves larger
      refine Joins.upcoming_bind (fun t => Joins.ite (fun _ => ?_) fun _ => Joins.pure left)
        fun t c c' htwins => ?_
      · refine Joins.advance_bind ?_ ((hstarves left).bind _)
        exact (continuation_joins (h.mono (by omega)) left).bind (ih (Nat.le_of_succ_le hk))
      · have hends := Token.kind_of_endsSource htwins.atCut.upcoming_ends
        have hpower : c.upcoming.kind.power = joint.mark.kind.power := by
          rw [joint.isMark]
          rcases hends with hkind | hkind <;> rw [hkind] <;> rfl
        rw [hpower]
        split
        · exact Abreast.short (Founders.advance_bind ((hstarves left).bind _) c htwins.atCut)
        · exact Abreast.level rfl rfl (List.suffix_refl _) htwins

/-- No expression starts with what ends the source. -/
theorem expression_starves (turns : Nat) (power : Power) :
    Starves joint.loose (expression (turns + 1) power) := by
  intro c hc
  have hends := hc.ends c.current_mem
  refine cutShort_bind ?_ _
  rw [operand_run]
  rcases Token.kind_of_endsSource hends with hkind | hkind
  · rw [hkind]
    exact ⟨_, List.mem_singleton.2 rfl, hends⟩
  · rw [hkind]
    exact ⟨_, List.mem_singleton.2 rfl, hends⟩

/-- **Readers of expressions do the same on both sources**, up to where the short one
ends. -/
theorem expression_joined (joint : Joint) (n : Nat) :
    Joined joint n (expression (joint.loose.tokens.length + n + 1))
      (expression (joint.more.length + n + 1)) := by
  induction n with
  | zero => exact ⟨fun p => Joins.zero, expression_starves _⟩
  | succ n ih =>
      refine ⟨fun p => ?_, expression_starves _⟩
      exact (operand_joins ih).bind fun left =>
        Joins.looped fun k hk => climb_joins ih p k hk left

/-! ## Programs -/

/-- The statements of a program. -/
def body (c : Cursor) : Outcome (List Stmt) :=
  statements (expression (c.size + 1)) false c.size c

/-- A program is its statements. -/
theorem program_run (c : Cursor) :
    program c = ⟨(body c).node?.map Program.mk, (body c).cursor, (body c).errors⟩ := by
  have hbody : statements (expression (c.size + 1)) false c.size c = body c := rfl
  rcases ho : body c with ⟨_ | list, d, errors⟩
  · exact bind_run_of_none (hbody.trans ho) _
  · refine (bind_run_of_some (hbody.trans ho) _).trans ?_
    simp

/-- A program in the short source is read to its end, and in the longer source the
statements behind the semicolon come behind its own, and the errors likewise. -/
theorem body_through {shared : List Token} {c c' : Cursor} (htwins : joint.Twins shared c c')
    (hreal : ∀ t ∈ shared, t.kind ≠ .eof) (hclean : ¬ (body c).CutShort) :
    ∃ list turns, (body c).node? = some list ∧ (body c).cursor.current.kind = .eof ∧
      (body c).cursor.ahead = joint.loose.tokens ∧ joint.onward.size ≤ turns ∧
        body c' = (statements (expression (joint.more.length + shared.length + 1)) false turns
          joint.onward).after list (body c).errors := by
  have hpassing := statements_passing (expression_joined joint shared.length) false htwins
    shared.length (Nat.le_refl _) (Nat.le_refl _)
  rw [← htwins.size_cut, ← htwins.size_whole] at hpassing
  cases hpassing with
  | level _ _ hrest hstop _ =>
      have hend := hreal _ (hrest.subset List.mem_cons_self)
      simp [stops, hend] at hstop
  | through hnode hend hcut hturns hrun =>
      rw [htwins.size_whole] at hrun
      refine ⟨_, _, hnode, hend, hcut, hturns, ?_⟩
      rw [body, htwins.size_whole]
      exact hrun
  | short h => exact absurd h hclean

/-- A program whose source ends in an open string literal is cut short. -/
theorem cutShort_of_loose {shared : List Token} {str : Token} {c : Cursor}
    (hcut : c.ahead = shared ++ [str]) (hstr : str.isUnterminated = true)
    (hreal : ∀ t ∈ shared, t.kind ≠ .eof) : (body c).CutShort := by
  refine Classical.byContradiction fun hclean => ?_
  have hends : ∀ t ∈ [str], t.endsSource = true := by simp [Token.endsSource, hstr]
  let joint : Joint := ⟨⟨[str], hends⟩, ⟨.semicolon, [], .start⟩, rfl, Cursor.ofTokens []⟩
  let c' : Cursor := ⟨shared ++ joint.more, joint.onward.finish, joint.onward.isEnd⟩
  have htwins : joint.Twins shared c c' := ⟨⟨hcut, rfl⟩, rfl⟩
  obtain ⟨_, _, _, hend, hahead, _⟩ := body_through htwins hreal hclean
  simp only [Token.isUnterminated, Bool.and_eq_true, decide_eq_true_eq] at hstr
  simp [Cursor.current, hahead, joint, hstr.1] at hend

/-- **The reading behind the semicolon is the reading of the second source by itself.** -/
theorem body_joined {f : Position → Position} {shared : List Token} {c c' d : Cursor}
    (htwins : joint.Twins shared c c') (honward : joint.onward = d.move f)
    (hreal : ∀ t ∈ shared, t.kind ≠ .eof) (hclean : ¬ (body c).CutShort) :
    ∃ list more, (body c).node? = some list ∧ (body d).node? = some more ∧
      (body c').node? = some (list ++ more.map (Stmt.move f)) ∧
        (body c').errors = (body c).errors ++ (body d).errors.map (SyntaxError.move f) := by
  obtain ⟨list, turns, hlist, _, _, hturns, hrun⟩ := body_through htwins hreal hclean
  obtain ⟨more, hmore⟩ := exists_node_statements (expression (d.size + 1)) false d.size d
  have hsize : joint.onward.size = d.size := by rw [honward, Cursor.size_move]
  have hroom : d.size ≤ joint.more.length + shared.length := by
    rw [← hsize, Joint.more, List.length_cons, Cursor.size]
    omega
  have hread := expression_commutes f (Nat.le_refl d.size) hroom
  have hmoved := (statements_commutes hread false (Nat.le_refl d.size) (hsize ▸ hturns) d
    (Nat.le_refl _)).1
  rw [honward, hmoved] at hrun
  refine ⟨list, more, hlist, hmore, ?_, ?_⟩
  · rw [hrun]
    simp [Outcome.after, Outcome.move, hmore]
  · rw [hrun]
    rfl

end Grammar

/-- A source is read as the statements and the errors of its tokens. -/
theorem parse_eq_body (source : Text) :
    parse source = (⟨((Grammar.body (Cursor.ofTokens (scan source))).node?.getD [])⟩,
      (Grammar.body (Cursor.ofTokens (scan source))).errors) := by
  unfold parse parseTokens
  rw [Grammar.program_run]
  cases (Grammar.body (Cursor.ofTokens (scan source))).node? <;> rfl

/-- Where a source stands that comes behind another, a newline and a semicolon. -/
def Position.behindSource (source : Text) : Position → Position :=
  behind (source.count Text.newline + 1) 1

/-- The tokens of two sources joined by a newline and a semicolon. -/
theorem scan_joined {a : Text} (b : Text) (h : ∀ t ∈ scan a, t.isUnterminated = false) :
    ∃ shared last mark, scan a = shared ++ [last] ∧ last.kind = .eof ∧
      (∀ t ∈ shared, t.kind ≠ .eof) ∧ mark.kind = .semicolon ∧
        scan (a ++ Text.newline :: ';'.toUInt8 :: b) =
          shared ++ mark :: (scan b).map (Token.move (Position.behindSource a)) := by
  obtain ⟨shared, last, hscan, hlast, hkept, hwhole⟩ := (Scanner.start a).drain_closed h
  refine ⟨shared, last, ⟨.semicolon, [';'.toUInt8], (Scanner.start a).nextLine⟩, hscan, hlast,
    ?_, rfl, ?_⟩
  · intro t ht hkind
    have hends := hkept t ht
    simp [Token.endsSource, hkind] at hends
  · have hsemicolon : ';'.toUInt8 ≠ Text.newline := by decide
    change ((Scanner.start a).goingOn (';'.toUInt8 :: b)).drain.1 = _
    rw [hwhole, Scanner.drain_semicolon, Scanner.drain_mk, Scanner.nextLine_start]
    have hlines : (a.count Text.newline + 2 - 1 : Int) = a.count Text.newline + 1 := by omega
    have hcolumns : (1 + 1 - 1 : Int) = 1 := rfl
    simp only [Position.step, if_neg hsemicolon, Position.behindSource, hlines, hcolumns]

/-- A source whose errors no more input can mend has no open string literal. -/
theorem closed_of_clean {source : Text}
    (h : ¬ (Grammar.body (Cursor.ofTokens (scan source))).CutShort) :
    ∀ t ∈ scan source, t.isUnterminated = false := by
  intro t ht
  cases hopen : t.isUnterminated with
  | false => rfl
  | true =>
      obtain ⟨shared, str, last, hscan, hlast, hstr, hkept, _⟩ := scan_open ⟨t, ht, hopen⟩
      have hahead : (Cursor.ofTokens (scan source)).ahead = shared ++ [str] := by
        rw [hscan, Cursor.ahead_ofTokens_concat _ hlast]
      refine absurd (Grammar.cutShort_of_loose hahead hstr fun u hu => ?_) h
      intro hkind
      have hends := hkept u hu
      simp [Token.endsSource, hkind] at hends

/-- Two sources set apart by a newline and a semicolon meet at a joint, behind which the
second is read where it stands. -/
theorem exists_joint {a : Text} (b : Text) (h : ∀ t ∈ scan a, t.isUnterminated = false) :
    ∃ (joint : Joint) (shared : List Token),
      joint.Twins shared (Cursor.ofTokens (scan a))
        (Cursor.ofTokens (scan (a ++ Text.newline :: ';'.toUInt8 :: b))) ∧
      joint.onward = (Cursor.ofTokens (scan b)).move (Position.behindSource a) ∧
        ∀ t ∈ shared, t.kind ≠ .eof := by
  obtain ⟨shared, last, mark, hcut, hlast, hreal, hmark, hwhole⟩ := scan_joined b h
  obtain ⟨tokens, last', hmore, hlast'⟩ := (Scanner.start b).drain_eq_concat
  change scan b = tokens ++ [last'] at hmore
  have hjoined : scan (a ++ Text.newline :: ';'.toUInt8 :: b) =
      (shared ++ mark :: tokens.map (Token.move (Position.behindSource a))) ++
        [last'.move (Position.behindSource a)] := by
    simp [hwhole, hmore]
  refine ⟨⟨⟨[], by simp⟩, mark, hmark, _⟩, shared, ?_, rfl, hreal⟩
  rw [hcut, hjoined, hmore, Cursor.ofTokens_concat _ _ hlast,
    Cursor.ofTokens_concat _ _ hlast',
    Cursor.ofTokens_concat _ (last'.move _) hlast']
  exact ⟨⟨(List.append_nil shared).symm, rfl⟩, rfl⟩

/-- **Errors do not reach beyond a semicolon.**  Behind a source with errors that no more
input can mend, another source that a newline and a semicolon set apart is read as by
itself: its statements come behind those of the first, and so do its errors, with the same
messages and just as incomplete, all moved by the lines before it and on its first line by
the semicolon. -/
theorem recovery_is_local (a b : Text) (h : ∀ e ∈ (parse a).2, e.isIncomplete = false) :
    parse (a ++ Text.newline :: ';'.toUInt8 :: b) =
        (⟨(parse a).1.statements ++
            ((parse b).1.move (Position.behindSource a)).statements⟩,
          (parse a).2 ++ (parse b).2.map (SyntaxError.move (Position.behindSource a))) ∧
      ∀ e ∈ (parse b).2, (e.move (Position.behindSource a)).message = e.message ∧
        (e.move (Position.behindSource a)).isIncomplete = e.isIncomplete := by
  refine ⟨?_, fun e _ => ⟨rfl, rfl⟩⟩
  rw [parse_eq_body a] at h ⊢
  rw [parse_eq_body b, parse_eq_body (a ++ Text.newline :: ';'.toUInt8 :: b)]
  have hclean : ¬ (Grammar.body (Cursor.ofTokens (scan a))).CutShort := by
    intro ⟨e, he, hincomplete⟩
    simp [h e he] at hincomplete
  obtain ⟨joint, shared, htwins, honward, hreal⟩ := exists_joint b (closed_of_clean hclean)
  obtain ⟨list, more, hlist, hrest, hnode, herrors⟩ :=
    Grammar.body_joined htwins honward hreal hclean
  simp [hlist, hrest, hnode, herrors, Program.move]

/-- A source with errors in and out of a block, none of them at its end. -/
def brokenSource : Text := "let 5;\nif (a) \x7b ) b \x7d ]"

/-- A source with an error on its first line and one at its end. -/
def brokenRest : Text := "c + ;\nf(d"

theorem recovery_is_local_with_errors :
    (∀ e ∈ (parse brokenSource).2, e.isIncomplete = false) ∧ (parse brokenSource).2.length = 3 ∧
      (parse brokenRest).2.length = 2 ∧
        (parse (brokenSource ++ Text.newline :: ';'.toUInt8 :: brokenRest)).2 =
          (parse brokenSource).2 ++ (parse brokenRest).2.map
            (SyntaxError.move (Position.behindSource brokenSource)) := by
  have hclean : ∀ e ∈ (parse brokenSource).2, e.isIncomplete = false := by decide +kernel
  refine ⟨hclean, by decide +kernel, by decide +kernel, ?_⟩
  rw [(recovery_is_local brokenSource brokenRest hclean).1]

end MonkeyLang
