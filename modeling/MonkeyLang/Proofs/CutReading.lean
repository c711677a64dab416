import MonkeyLang.Proofs.CutPace
import MonkeyLang.Proofs.CutScan
import MonkeyLang.Proofs.ParseExact
import MonkeyLang.Parse.Fault

/-!
# Reading a source that was cut

A source that goes on after a newline is read without errors.  Then the part
before the newline is read without errors too, or all errors found in it are
incomplete: whoever is told to wait for more input when all errors are incomplete
never gives up on a source that more lines could still mend.

The two readings are followed side by side, rule by rule.  Up to the cut their
tokens are the same, which is what is known about scanning; the rest is that
every rule of the grammar keeps pace.
-/

namespace MonkeyLang

namespace Grammar

open Rule

variable {loose : Loose} {more : List Token} {n : Nat} {read read' : Reader}

/-- Readers for the two sources: one keeps pace with the other, and both are
orderly as far as they are asked to read. -/
structure Paced (loose : Loose) (more : List Token) (n : Nat) (read read' : Reader) : Prop where
  paces : ∀ p, Paces loose more n (read p) (read' p)
  cut : ∀ p, (read p).OrderlyTo loose.tokens.length
  whole : ∀ p, (read' p).OrderlyTo (more.length + n)

namespace Paced

/-- Readers that reach far reach less far. -/
theorem mono {k : Nat} (h : Paced loose more n read read') (hk : k ≤ n) :
    Paced loose more k read read' where
  paces p := (h.paces p).mono hk
  cut := h.cut
  whole p := (h.whole p).mono (Nat.add_le_add_left hk _)

/-- Behind the cut the reader trails. -/
theorem past (h : Paced loose more n read read') (p : Power) (c : Cursor)
    (hc : c.PastCut loose) : (read p c).Trailing loose :=
  trailing_of_orderly hc (h.cut p c hc.size_le)

section Inner

variable {α : Type} {f f' : Expr → Rule α}

/-- At the cut no expression follows. -/
theorem inner_trails (h : Paced loose more n read read') (p : Power)
    (hf : ∀ e, (f e).Trails loose) :
    Trails loose (advance >>= fun _ => read p >>= f) :=
  Trails.advance_bind fun c hc => trailing_bind (h.past p c hc) hf

/-- An expression one token further on, and what follows it. -/
theorem inner (h : Paced loose more (n - 1) read read') (p : Power)
    (hf : ∀ e e', Paces loose more (n - 1) (f e) (f' e')) (htrails : ∀ e, (f e).Trails loose) :
    Paces loose more n (advance >>= fun _ => read p >>= f)
      (advance >>= fun _ => read' p >>= f') := by
  refine Paces.advance_bind ((h.paces p).bind hf htrails) fun c hc => ?_
  exact trailing_bind (h.past p c hc) htrails

end Inner
end Paced

/-! ## Statements -/

/-- The semicolon that may end a statement. -/
theorem ending_trails (s : Stmt) :
    Trails loose (do skipNext .semicolon; pure s) :=
  Trails.skipNext_bind rfl (Trails.pure s)

theorem ending_paces (s s' : Stmt) :
    Paces loose more n (do skipNext .semicolon; pure s) (do skipNext .semicolon; pure s') :=
  Paces.skipNext_bind rfl (Paces.pure s s') (Trails.pure s)

/-- A `let` statement. -/
theorem bindStatement_paces (h : Paced loose more n read read') :
    Paces loose more n (bindStatement read) (bindStatement read') := by
  refine Paces.current_bind fun t => Paces.expectNext_bind rfl ?_
  refine Paces.current_bind fun name => Paces.expectNext_bind rfl ?_
  exact (h.mono (by omega)).inner _ (fun _ _ => ending_paces _ _) fun _ => ending_trails _

/-- A `return` statement: at the cut it looks as if it had no value. -/
theorem leaveStatement_paces (h : Paced loose more n read read') :
    Paces loose more n (leaveStatement read) (leaveStatement read') := by
  refine Paces.current_bind fun t => ?_
  refine Paces.upcoming_bind (fun next => Paces.ite (fun _ => ?_) fun _ => ?_) ?_
  · exact ending_paces _ _
  · exact (h.mono (by omega)).inner _ (fun _ _ => ending_paces _ _) fun _ => ending_trails _
  · refine Trails.upcoming_bind fun next _ => ?_
    split
    · exact ending_trails _
    · exact h.inner_trails _ fun _ => ending_trails _

/-- A statement that is an expression. -/
theorem exprStatement_paces (h : Paced loose more n read read') :
    Paces loose more n (exprStatement read) (exprStatement read') := by
  refine Paces.current_bind fun t => ?_
  exact (h.paces _).bind (fun _ _ => ending_paces _ _) fun _ => ending_trails _

/-- Every statement keeps pace. -/
theorem statement_paces (h : Paced loose more n read read') :
    Paces loose more n (statement read) (statement read') := by
  refine Paces.current_bind fun t => ?_
  cases t.kind
  case letWord => exact bindStatement_paces h
  case returnWord => exact leaveStatement_paces h
  all_goals exact exprStatement_paces h

/-- Statements keep pace up to where they stop. -/
theorem statements_paces (h : Paced loose more n read read') (inBlock : Bool) (k : Nat)
    (hk : k ≤ n) :
    Paces loose more k (statements read inBlock (loose.tokens.length + k))
      (statements read' inBlock (more.length + k)) := by
  induction k with
  | zero => exact Paces.zero
  | succ k ih =>
      have hrest := ih (Nat.le_of_succ_le hk)
      have hpast (c : Cursor) (hc : c.PastCut loose) :
          (statements read inBlock (loose.tokens.length + k) c).Trailing loose :=
        trailing_of_orderly hc (statements_orderly h.cut inBlock _ c hc.size_le)
      have hpast' (found : Option Stmt) (c : Cursor) (hc : c.PastCut loose) : ((do
          let rest ← statements read inBlock (loose.tokens.length + k)
          pure (found.toList ++ rest) : Rule (List Stmt)) c).Trailing loose :=
        trailing_bind (hpast c hc) fun _ => Trails.pure _
      refine Paces.current_bind fun t => Paces.ite (fun _ => Paces.pure _ _) fun _ => ?_
      refine Paces.ite (fun _ => Paces.advance_bind hrest hpast) fun _ => ?_
      have hstatement := h.mono hk
      refine Paces.bind ?_ (fun found found' => ?_) fun found => Trails.advance_bind (hpast' found)
      · exact (statement_paces hstatement).attempt (statement_orderly hstatement.whole)
      · refine Paces.advance_bind ?_ (hpast' found)
        exact hrest.bind (fun _ _ => Paces.pure _ _) fun _ => Trails.pure _

/-- A block that the cut leaves open is missing its closing brace. -/
theorem block_paces (h : Paced loose more n read read') :
    Paces loose more n (block read) (block read') := by
  refine Paces.current_bind fun t => ?_
  have htrails (body : List Stmt) : Trails loose (do
      let stop ← current
      if stop.kind = .eof then fail (.expected .rbrace .eof) stop else pure (Block.mk t body)) := by
    intro c hc
    rw [current_bind_run]
    split
    · next hend =>
      refine ⟨?_, hc⟩
      simp [SyntaxError.isIncomplete, Token.endsSource, hend]
    · exact Trails.pure _ c hc
  refine Paces.advance_bind ?_ fun c hc => ?_
  · refine Paces.bind (Paces.looped ?_) (fun body body' => ?_) htrails
    · exact fun k hk => statements_paces h true k (by omega)
    · refine Paces.current_bind fun stop => Paces.ite (fun _ => ?_) fun _ => Paces.pure _ _
      exact Paces.of_never fun _ _ _ => yields_fail
  · have horderly := statements_orderly h.cut true c.size c hc.size_le
    have hbody : (looped (statements read true) c).Trailing loose :=
      trailing_of_orderly hc horderly
    exact trailing_bind hbody htrails

/-! ## Expressions -/

/-- A parameter name. -/
theorem parameter_paces : Paces loose more n parameter parameter := by
  refine Paces.current_bind fun t => Paces.ite (fun _ => Paces.pure _ _) fun _ => ?_
  exact Paces.of_never fun _ _ _ => yields_fail

/-- The items read by a reader of expressions. -/
theorem items_paces (h : Paced loose more (n - 1) read read') {close : Kind}
    (hclose : close.isMark = true) :
    Paces loose more n (items (read .lowest) close) (items (read' .lowest) close) :=
  Paces.items hclose (h.paces _) (h.past _)

/-- At the cut the next entry of a hash is missing. -/
theorem pairs_trails (h : Paced loose more n read read') (turns : Nat) :
    Trails loose (pairs read turns) := by
  cases turns with
  | zero => exact Trails.pure _
  | succ turns =>
      refine Trails.upcoming_bind fun t ht => ?_
      have hbrace : t.kind ≠ .rbrace := Token.kind_ne_of_endsSource ht rfl
      rw [if_neg hbrace]
      exact h.inner_trails _ fun _ => Trails.expectNext_bind rfl _

/-- The entries of a hash keep pace. -/
theorem pairs_paces (h : Paced loose more (n - 1) read read') (k : Nat) (hk : k ≤ n) :
    Paces loose more k (pairs read (loose.tokens.length + k))
      (pairs read' (more.length + k)) := by
  induction k with
  | zero => exact Paces.zero
  | succ k ih =>
      have hread : Paced loose more k read read' := h.mono (by omega)
      have hmore (entry entry' : Expr × Expr) : Paces loose more k
          (do let rest ← pairs read (loose.tokens.length + k)
              pure (entry :: rest))
          (do let rest ← pairs read' (more.length + k)
              pure (entry' :: rest)) :=
        (ih (Nat.le_of_succ_le hk)).bind (fun _ _ => Paces.pure _ _) fun _ => Trails.pure _
      have htrails (entry : Expr × Expr) : Trails loose (do
          let after ← upcoming
          if after.kind ≠ .rbrace then
            expectNext .comma
          let rest ← pairs read (loose.tokens.length + k)
          pure (entry :: rest)) := by
        refine Trails.upcoming_bind fun after hafter => ?_
        have hbrace : after.kind ≠ .rbrace := Token.kind_ne_of_endsSource hafter rfl
        rw [if_pos hbrace]
        exact Trails.expectNext_bind rfl _
      refine Paces.upcoming_bind (fun t => Paces.ite (fun _ => ?_) fun _ => ?_)
        (pairs_trails h (loose.tokens.length + k + 1))
      · exact Paces.advance_bind (Paces.pure _ _) fun c hc => Trails.pure _ c hc.atCut
      · refine hread.inner _ (fun key key' => ?_) fun _ => Trails.expectNext_bind rfl _
        refine Paces.expectNext_bind rfl ?_
        refine (hread.mono (by omega)).inner _ (fun value value' => ?_) fun _ => htrails _
        refine Paces.upcoming_bind (fun after => Paces.ite (fun _ => ?_) fun _ => ?_) (htrails _)
        · exact Paces.expectNext_bind rfl ((hmore _ _).mono (by omega))
        · exact (hmore _ _).mono (by omega)

/-- A conditional: at the cut it looks as if it had one branch. -/
theorem conditional_paces (h : Paced loose more (n - 1) read read') :
    Paces loose more n (conditional read) (conditional read') := by
  refine Paces.current_bind fun t => ?_
  refine h.inner _ (fun test test' => ?_) fun _ => Trails.expectNext_bind rfl _
  have hblock {k : Nat} (hk : k ≤ n - 1) : Paces loose more k (block read) (block read') :=
    block_paces (h.mono hk)
  have htrails (consequence : Block) : Trails loose (do
      let next ← upcoming
      if next.kind = .elseWord then
        advance
        expectNext .lbrace
        let alternative ← block read
        pure (Expr.cond t test consequence (some alternative))
      else
        pure (Expr.cond t test consequence none)) := by
    refine Trails.upcoming_bind fun next hnext => ?_
    have helse : next.kind ≠ .elseWord := Token.kind_ne_of_endsSource hnext rfl
    rw [if_neg helse]
    exact Trails.pure _
  refine Paces.expectNext_bind rfl ((hblock (by omega)).bind (fun yes yes' => ?_) htrails)
  refine Paces.upcoming_bind (fun next => Paces.ite (fun _ => ?_) fun _ => ?_) (htrails yes)
  · refine Paces.advance_bind ?_ fun c hc => Trails.expectNext_bind rfl _ c hc.atCut
    refine Paces.expectNext_bind rfl ((hblock (by omega)).bind (fun _ _ => Paces.pure _ _) ?_)
    exact fun _ => Trails.pure _
  · exact Paces.pure _ _

/-- A function literal. -/
theorem function_paces (h : Paced loose more (n - 1) read read') :
    Paces loose more n (function read) (function read') := by
  refine Paces.current_bind fun t => Paces.expectNext_bind rfl ?_
  refine Paces.bind (Paces.items rfl parameter_paces ?_) (fun names names' => ?_) fun _ => ?_
  · exact fun c hc => trailing_of_orderly hc (parameter_orderly c (Nat.le_refl _))
  · refine Paces.expectNext_bind rfl ?_
    exact (block_paces (h.mono (by omega))).bind (fun _ _ => Paces.pure _ _) fun _ => Trails.pure _
  · exact Trails.expectNext_bind rfl _

/-- What an expression starts with keeps pace. -/
theorem operand_paces (h : Paced loose more (n - 1) read read') :
    Paces loose more n (operand read) (operand read') := by
  refine Paces.current_bind fun t => ?_
  cases t.kind
  case int =>
    cases t.literal.toInt64? with
    | none => exact Paces.of_never fun _ _ _ => yields_fail
    | some value => exact Paces.pure _ _
  case bang => exact h.inner _ (fun _ _ => Paces.pure _ _) fun _ => Trails.pure _
  case minus => exact h.inner _ (fun _ _ => Paces.pure _ _) fun _ => Trails.pure _
  case lparen =>
    refine h.inner _ (fun inner inner' => ?_) fun _ => Trails.expectNext_bind rfl _
    exact Paces.expectNext_bind rfl (Paces.pure _ _)
  case ifWord => exact conditional_paces h
  case fnWord => exact function_paces h
  case lbracket =>
    exact (items_paces h rfl).bind (fun _ _ => Paces.pure _ _) fun _ => Trails.pure _
  case lbrace =>
    exact (Paces.looped (pairs_paces h)).bind (fun _ _ => Paces.pure _ _) fun _ => Trails.pure _
  case ident => exact Paces.pure _ _
  case string => exact Paces.pure _ _
  case trueWord => exact Paces.pure _ _
  case falseWord => exact Paces.pure _ _
  all_goals exact Paces.of_never fun _ _ _ => yields_fail

/-- Reading on after a left operand keeps pace. -/
theorem continuation_paces (h : Paced loose more (n - 1) read read') (left left' : Expr) :
    Paces loose more n (continuation read left) (continuation read' left') := by
  refine Paces.current_bind fun t => ?_
  cases t.kind
  case lparen =>
    exact (items_paces h rfl).bind (fun _ _ => Paces.pure _ _) fun _ => Trails.pure _
  case lbracket =>
    refine h.inner _ (fun key key' => ?_) fun _ => Trails.expectNext_bind rfl _
    exact Paces.expectNext_bind rfl (Paces.pure _ _)
  all_goals exact h.inner _ (fun _ _ => Paces.pure _ _) fun _ => Trails.pure _

/-- At the cut an expression goes on only with what is missing. -/
theorem climb_trails (h : Paced loose more n read read') (power : Power) (turns : Nat)
    (left : Expr) : Trails loose (climb read power turns left) := by
  induction turns generalizing left with
  | zero => exact Trails.pure _
  | succ turns ih =>
      refine Trails.upcoming_bind fun t _ => ?_
      split
      -- Only a power below the lowest goes on here, and then behind the cut.
      · refine Trails.advance_bind fun c hc => trailing_bind (trailing_of_orderly hc ?_) ih
        have hread (p : Power) : (read p).OrderlyTo (loose.tokens.length - 1) :=
          (h.cut p).mono (Nat.sub_le _ _)
        exact continuation_orderly hread left c hc.size_le
      · exact Trails.pure _

/-- Reading on keeps pace. -/
theorem climb_paces (h : Paced loose more (n - 1) read read') (power : Power) (k : Nat)
    (hk : k ≤ n) (left left' : Expr) :
    Paces loose more k (climb read power (loose.tokens.length + k) left)
      (climb read' power (more.length + k) left') := by
  induction k generalizing left left' with
  | zero => exact Paces.zero
  | succ k ih =>
      have hread (p : Power) : (read p).OrderlyTo (loose.tokens.length - 1) :=
        (h.cut p).mono (Nat.sub_le _ _)
      refine Paces.upcoming_bind (fun t => Paces.ite (fun _ => ?_) fun _ => Paces.pure _ _)
        (climb_trails h power (loose.tokens.length + k + 1) left)
      refine Paces.advance_bind ?_ fun c hc => ?_
      · refine Paces.bind (continuation_paces (h.mono (by omega)) left left') ?_ ?_
        · exact ih (Nat.le_of_succ_le hk)
        · exact climb_trails h power _
      · refine trailing_bind (trailing_of_orderly hc ?_) (climb_trails h power _)
        exact continuation_orderly hread left c hc.size_le

/-- **Readers of expressions keep pace.** -/
theorem expression_paced (loose : Loose) (more : List Token) (n : Nat) :
    Paced loose more n (expression (loose.tokens.length + n + 1))
      (expression (more.length + n + 1)) := by
  induction n with
  | zero =>
      refine ⟨fun p => Paces.zero, expression_orderly _, expression_orderly _⟩
  | succ n ih =>
      refine ⟨fun p => ?_, fun p => ?_, expression_orderly _⟩
      · refine Paces.bind (operand_paces ih) (fun left left' => Paces.looped ?_) fun left => ?_
        · exact fun k hk => climb_paces ih p k hk left left'
        · exact Trails.looped fun turns => climb_trails ih p turns left
      · exact (expression_orderly _ p).mono (Nat.le_add_right _ _)

/-- Whole programs: where the whole source is read without an error, the cut one
has none either, or only incomplete ones. -/
theorem program_paces {shared : List Token} {c c' d : Cursor} {p : Program}
    (htwins : Cursor.Twins loose more shared c c') (h : program.Yields c' p d) :
    (∃ q e, program.Yields c q e) ∨ ∀ e ∈ (program c).errors, e.isIncomplete = true := by
  cases shared with
  | nil => exact Or.inr (trailing_of_orderly htwins.pastCut (program_orderly c)).incomplete
  | cons t shared =>
      have hpaces : Paces loose more (t :: shared).length program program := by
        refine Paces.looped fun k hk => ?_
        have hreaders := expression_paced loose more k
        exact (statements_paces hreaders false k (Nat.le_refl k)).bind (fun _ _ => Paces.pure _ _)
          fun _ => Trails.pure _
      cases hpaces (Nat.le_refl _) htwins h with
      | level hyields _ _ => exact Or.inl ⟨_, _, hyields⟩
      | trailing htrailing => exact Or.inr htrailing.incomplete

end Grammar

/-- A cursor on tokens that end in an end token has the others ahead. -/
theorem Cursor.ahead_ofTokens_concat (tokens : List Token) {last : Token}
    (h : last.kind = .eof) : (ofTokens (tokens ++ [last])).ahead = tokens := by
  simp [ofTokens, h]

/-- A source is accepted exactly when its tokens are read without an error. -/
theorem parse?_eq_ok_iff {source : Text} {p : Program} :
    parse? source = .ok p ↔ parse source = (p, []) := by
  unfold parse?
  rcases parse source with ⟨q, _ | ⟨e, errors⟩⟩ <;> simp

/-- Errors of which there are some, and all incomplete. -/
theorem SyntaxError.allIncomplete_iff {errors : List SyntaxError} :
    allIncomplete errors = true ↔ errors ≠ [] ∧ ∀ e ∈ errors, e.isIncomplete = true := by
  simp [allIncomplete, Note.allIncomplete, note]

/-- **What more lines could mend is never given up.**  If a source that goes on
after a newline has no syntax errors, then the source before that newline has none
either, or every error found in it is incomplete. -/
theorem cut_source_is_incomplete (source more : Text) (program : Program)
    (h : parse? (source ++ Text.newline :: more) = .ok program) :
    (∃ p, parse? source = .ok p) ∨
      ∃ errors, parse? source = .error errors ∧ SyntaxError.allIncomplete errors = true := by
  obtain ⟨shared, loose, rest, last, last', hcut, hwhole, hlast, hlast', hloose⟩ :=
    scan_cut source more
  have htwins : Cursor.Twins ⟨loose, hloose⟩ rest shared (Cursor.ofTokens (scan source))
      (Cursor.ofTokens (scan (source ++ Text.newline :: more))) := by
    refine ⟨?_, ?_⟩
    · rw [hcut, Cursor.ahead_ofTokens_concat _ hlast]
    · rw [hwhole, Cursor.ahead_ofTokens_concat _ hlast']
  obtain ⟨d, hd⟩ := parseTokens_eq_iff.1 (parse?_eq_ok_iff.1 h)
  rcases Grammar.program_paces htwins hd with ⟨q, e, hq⟩ | herrors
  · exact Or.inl ⟨q, parse?_eq_ok_iff.2 (parseTokens_eq_iff.2 ⟨e, hq⟩)⟩
  · have hall : ∀ e ∈ (parse source).2, e.isIncomplete = true := herrors
    rcases hparse : parse source with ⟨p, _ | ⟨e, errors⟩⟩
    · exact Or.inl ⟨p, parse?_eq_ok_iff.2 hparse⟩
    · refine Or.inr ⟨e :: errors, by simp [parse?, hparse], ?_⟩
      rw [hparse] at hall
      exact SyntaxError.allIncomplete_iff.2 ⟨List.cons_ne_nil _ _, hall⟩

/-- A source cut inside a string literal inside a call inside a block. -/
def cutSource : Text := "if (a) \x7b f(1, \"b"

/-- What the source goes on with. -/
def cutRest : Text := "c\") \x7d"

theorem cut_source_is_incomplete_within_string :
    (∃ program, parse? (cutSource ++ Text.newline :: cutRest) = .ok program) ∧
      ((∃ p, parse? cutSource = .ok p) ∨
        ∃ errors, parse? cutSource = .error errors ∧
          SyntaxError.allIncomplete errors = true) := by
  have hwhole : (parse (cutSource ++ Text.newline :: cutRest)).2 = [] := by decide +kernel
  have hparse := parse?_eq_ok_iff.2 (Prod.ext rfl hwhole)
  exact ⟨⟨_, hparse⟩, cut_source_is_incomplete cutSource cutRest _ hparse⟩

end MonkeyLang
