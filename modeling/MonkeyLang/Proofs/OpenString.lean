import MonkeyLang.Proofs.Seam
import MonkeyLang.Proofs.ViablePrefix

/-!
# Sources cut inside a string literal

When a source goes on from an open string literal and is accepted, an operand was due
where the literal stood: rule by rule the cut source follows the whole one up to that
place, and there an operand is the only thing that a string literal can be.  So the
first error of the cut source is that the literal is illegal.

The converse holds as well, for such a source can be completed.  Hence this first error
decides whether more input helps.  That all errors are incomplete does not: a token that
ends the source is to blame too where some other token was required.
-/

namespace MonkeyLang

/-- Every kind of token binds at least at the lowest power. -/
theorem Kind.power_pos (kind : Kind) : 0 < kind.power := by
  unfold power
  split <;> decide

namespace Grammar

open Rule

variable {seam : Seam} {n : Nat} {read read' : Reader} {c : Cursor}

/-- Readers for the two sources: one follows the other before the seam and finds an
illegal token at it, and the other is orderly. -/
structure Resembles (seam : Seam) (n : Nat) (read read' : Reader) : Prop where
  follows : ∀ p, 0 < p → Follows seam n (read p) (read' p)
  balks : ∀ p c, c.current = seam.opened → (read p).Balks c
  whole : ∀ p, (read' p).OrderlyTo (seam.more.length + n)

namespace Resembles

theorem mono {k : Nat} (h : Resembles seam n read read') (hk : k ≤ n) :
    Resembles seam k read read' where
  follows p hp := (h.follows p hp).mono hk
  balks := h.balks
  whole p := (h.whole p).mono (Nat.add_le_add_left hk _)

theorem meets (h : Resembles seam n read read') (p : Power) :
    Meets seam (read p) (read' p) :=
  fun c _ htwins _ _ _ => h.balks p c htwins.current_opened

/-- An expression one token further on, and what follows it. -/
theorem inner {α : Type} {f f' : Expr → Rule α} (h : Resembles seam (n - 1) read read') {p : Power}
    (hp : 0 < p) (hf : ∀ e e', Follows seam (n - 1) (f e) (f' e')) :
    Follows seam n (advance >>= fun _ => read p >>= f) (advance >>= fun _ => read' p >>= f') :=
  Follows.advance_bind ((h.follows p hp).bind hf) ((h.meets p).bind f f')

end Resembles

/-! ## Statements -/

/-- The semicolon that may end a statement. -/
theorem ending_follows (s s' : Stmt) :
    Follows seam n (do skipNext .semicolon; pure s) (do skipNext .semicolon; pure s') :=
  Follows.skipNext_bind (by decide) (Follows.pure s s')

theorem bindStatement_follows (h : Resembles seam n read read') :
    Follows seam n (bindStatement read) (bindStatement read') := by
  refine Follows.current_bind fun t => Follows.expectNext_bind (by decide) ?_
  refine Follows.current_bind fun name => Follows.expectNext_bind (by decide) ?_
  exact (h.mono (by omega)).inner (by decide) fun _ _ => ending_follows _ _

theorem leaveStatement_follows (h : Resembles seam n read read') :
    Follows seam n (leaveStatement read) (leaveStatement read') := by
  refine Follows.current_bind fun t => ?_
  refine Follows.upcoming_ite (fun u v hu hv => ?_) (fun _ _ => ?_) fun _ _ => ?_
  · rcases hu with hu | hu <;> rcases hv with hv | hv <;> simp [hu, hv]
  · exact ending_follows _ _
  · exact (h.mono (by omega)).inner (by decide) fun _ _ => ending_follows _ _

theorem exprStatement_follows (h : Resembles seam n read read') :
    Follows seam n (exprStatement read) (exprStatement read') := by
  refine Follows.current_bind fun t => ?_
  exact (h.follows _ (by decide)).bind fun _ _ => ending_follows _ _

/-- Every statement follows. -/
theorem statement_follows (h : Resembles seam n read read') :
    Follows seam n (statement read) (statement read') := by
  refine Follows.current_bind fun t => ?_
  cases t.kind
  case letWord => exact bindStatement_follows h
  case returnWord => exact leaveStatement_follows h
  all_goals exact exprStatement_follows h

/-- At the seam a statement begins with an illegal token. -/
theorem statements_balk (h : Resembles seam n read read') (inBlock : Bool) (turns : Nat)
    (hc : c.current = seam.opened) : (statements read inBlock (turns + 1)).Balks c := by
  have hkind : c.current.kind = .illegal := by rw [hc, seam.kind_opened]
  obtain ⟨e, literal, hstumbles, hfault⟩ := h.balks .lowest c hc
  refine ⟨e, literal, statements_stumbles_succ.2 ⟨by simp [stops, hkind], ?_⟩, hfault⟩
  rw [if_neg (by simp [hkind])]
  left
  rw [Stumbles, statement_run, hkind]
  exact exprStatement_stumbles.2 hstumbles

/-- Statements follow up to where they stop. -/
theorem statements_follows (h : Resembles seam n read read') (inBlock : Bool) (k : Nat)
    (hk : k ≤ n) :
    Follows seam k (statements read inBlock (k + 1))
      (statements read' inBlock (seam.more.length + k)) := by
  induction k with
  | zero => exact Follows.zero
  | succ k ih =>
      have hrest := ih (Nat.le_of_succ_le hk)
      have hmeets : Meets seam (statements read inBlock (k + 1))
          (statements read' inBlock (seam.more.length + k)) :=
        fun c _ htwins _ _ _ => statements_balk h inBlock k htwins.current_opened
      refine Follows.current_bind fun t => ?_
      split
      · exact Follows.pure _ _
      split
      · exact Follows.advance_bind hrest hmeets
      have hstatement := h.mono hk
      refine Follows.bind ?_ fun found found' => ?_
      · exact (statement_follows hstatement).attempt (statement_orderly hstatement.whole)
      · exact Follows.advance_bind (hrest.bind fun _ _ => Follows.pure _ _) (hmeets.bind _ _)

theorem block_follows (h : Resembles seam n read read') :
    Follows seam n (block read) (block read') := by
  refine Follows.current_bind fun t => Follows.advance_bind ?_ (Meets.bind ?_ _ _)
  · refine Follows.bind (Follows.looped fun k hk => ?_) fun body body' => ?_
    · exact statements_follows h true k (by omega)
    · refine Follows.current_bind fun stop => ?_
      split
      · exact Follows.of_never fun _ _ _ => yields_fail
      · exact Follows.pure _ _
  · intro c c' htwins body d _
    have hsize : c.size = 0 + 1 := htwins.size_cut
    obtain ⟨e, literal, hstumbles, hfault⟩ := statements_balk h true 0 htwins.current_opened
    exact ⟨e, literal, stumbles_looped.2 (hsize ▸ hstumbles), hfault⟩

/-! ## Expressions -/

theorem parameter_follows : Follows seam n parameter parameter := by
  refine Follows.current_bind fun t => ?_
  split
  · exact Follows.pure _ _
  · exact Follows.of_never fun _ _ _ => yields_fail

/-- A string literal is no parameter. -/
theorem parameter_meets : Meets seam parameter parameter := by
  intro c c' htwins t d hd
  have hkind := (parameter_yields.1 hd).1
  rw [htwins.current_quoted] at hkind
  rcases seam.isText with htext | htext <;> simp [htext] at hkind

/-- The entries of a hash follow. -/
theorem pairs_follows (h : Resembles seam (n - 1) read read') (k : Nat) (hk : k ≤ n) :
    Follows seam k (pairs read (k + 1)) (pairs read' (seam.more.length + k)) := by
  induction k with
  | zero => exact Follows.zero
  | succ k ih =>
      have hread : Resembles seam k read read' := h.mono (by omega)
      have hmore (entry entry' : Expr × Expr) : Follows seam k
          (do let rest ← pairs read (k + 1)
              pure (entry :: rest))
          (do let rest ← pairs read' (seam.more.length + k)
              pure (entry' :: rest)) :=
        (ih (Nat.le_of_succ_le hk)).bind fun _ _ => Follows.pure _ _
      refine Follows.upcoming_take (fun t ht => ht.kind_ne (by decide))
        (fun _ _ => Follows.pure _ _) fun _ _ => ?_
      refine hread.inner (by decide) fun key key' => Follows.expectNext_bind (by decide) ?_
      refine (hread.mono (by omega)).inner (by decide) fun value value' => ?_
      refine Follows.upcoming_ite (fun u v hu hv => ?_) (fun _ _ => ?_) fun _ _ => ?_
      · exact iff_of_true (hu.kind_ne (by decide)) (hv.kind_ne (by decide))
      · exact Follows.expectNext_bind (by decide) ((hmore _ _).mono (by omega))
      · exact (hmore _ _).mono (by omega)

theorem conditional_follows (h : Resembles seam (n - 1) read read') :
    Follows seam n (conditional read) (conditional read') := by
  have hblock {k : Nat} (hk : k ≤ n - 1) : Follows seam k (block read) (block read') :=
    block_follows (h.mono hk)
  refine Follows.current_bind fun t => h.inner (by decide) fun test test' => ?_
  refine Follows.expectNext_bind (by decide) ((hblock (by omega)).bind fun yes yes' => ?_)
  refine Follows.upcoming_take (fun t ht => ht.kind_ne (by decide)) (fun _ _ => ?_) fun _ _ => ?_
  · refine Follows.expectNext_bind (by decide) ?_
    exact (hblock (by omega)).bind fun _ _ => Follows.pure _ _
  · exact Follows.pure _ _

theorem function_follows (h : Resembles seam (n - 1) read read') :
    Follows seam n (function read) (function read') := by
  refine Follows.current_bind fun t => Follows.expectNext_bind (by decide) ?_
  refine (Follows.items (by decide) parameter_follows parameter_meets).bind fun names names' => ?_
  refine Follows.expectNext_bind (by decide) ?_
  exact (block_follows (h.mono (by omega))).bind fun _ _ => Follows.pure _ _

/-- What an expression starts with follows. -/
theorem operand_follows (h : Resembles seam (n - 1) read read') :
    Follows seam n (operand read) (operand read') := by
  refine Follows.current_bind fun t => ?_
  cases t.kind
  case int =>
    cases t.literal.toInt64? with
    | none => exact Follows.of_never fun _ _ _ => yields_fail
    | some value => exact Follows.pure _ _
  case bang | minus => exact h.inner (by decide) fun _ _ => Follows.pure _ _
  case lparen =>
    refine h.inner (by decide) fun inner inner' => ?_
    exact Follows.expectNext_bind (by decide) (Follows.pure _ _)
  case ifWord => exact conditional_follows h
  case fnWord => exact function_follows h
  case lbracket =>
    refine Follows.bind ?_ fun _ _ => Follows.pure _ _
    exact Follows.items (by decide) (h.follows _ (by decide)) (h.meets _)
  case lbrace => exact (Follows.looped (pairs_follows h)).bind fun _ _ => Follows.pure _ _
  case ident | string | trueWord | falseWord => exact Follows.pure _ _
  all_goals exact Follows.of_never fun _ _ _ => yields_fail

/-- At the seam an operand is illegal. -/
theorem operand_balks (hc : c.current = seam.opened) : (operand read).Balks c := by
  have hkind : c.current.kind = .illegal := by rw [hc, seam.kind_opened]
  refine ⟨⟨.illegal c.current.literal, c.current⟩, _, ?_, rfl⟩
  rw [Stumbles, operand_run, hkind]
  rfl

/-- Reading on after a left operand follows. -/
theorem continuation_follows (h : Resembles seam (n - 1) read read') (left left' : Expr) :
    Follows seam n (continuation read left) (continuation read' left') := by
  refine Follows.current_bind fun t => ?_
  cases t.kind
  case lparen =>
    refine Follows.bind ?_ fun _ _ => Follows.pure _ _
    exact Follows.items (by decide) (h.follows _ (by decide)) (h.meets _)
  case lbracket =>
    refine h.inner (by decide) fun key key' => ?_
    exact Follows.expectNext_bind (by decide) (Follows.pure _ _)
  all_goals exact h.inner (Kind.power_pos _) fun _ _ => Follows.pure _ _

theorem climb_follows (h : Resembles seam (n - 1) read read') {power : Power} (hpower : 0 < power)
    (k : Nat) (hk : k ≤ n) (left left' : Expr) :
    Follows seam k (climb read power (k + 1) left)
      (climb read' power (seam.more.length + k) left') := by
  induction k generalizing left left' with
  | zero => exact Follows.zero
  | succ k ih =>
      refine Follows.upcoming_take (fun t ht => ?_) (fun _ _ => ?_) fun _ _ => Follows.pure _ _
      -- A text binds at the lowest power, so no expression goes on with it.
      · have hlowest : t.kind.power = Power.lowest := by
          rcases ht with ht | ht <;> rw [ht] <;> rfl
        rw [hlowest]
        exact Nat.not_lt.2 hpower
      · refine (continuation_follows (h.mono (by omega)) left left').bind ?_
        exact ih (Nat.le_of_succ_le hk)

/-- **Readers of expressions follow.** -/
theorem expression_resembles (seam : Seam) (n : Nat) :
    Resembles seam n (expression (n + 2)) (expression (seam.more.length + n + 1)) := by
  induction n with
  | zero =>
      refine ⟨fun p _ => Follows.zero, fun p c hc => ?_, expression_orderly _⟩
      exact (operand_balks hc).bind _
  | succ n ih =>
      refine ⟨fun p hp => ?_, fun p c hc => (operand_balks hc).bind _, expression_orderly _⟩
      refine (operand_follows ih).bind fun left left' => Follows.looped fun k hk => ?_
      exact climb_follows ih hp k hk left left'

/-- Whole programs: where the whole source is read without an error, the cut one has none
either, or the first one is an illegal token. -/
theorem program_follows {shared : List Token} {c c' d : Cursor} {p : Program}
    (htwins : seam.Twins shared c c') (h : program.Yields c' p d) :
    (∃ q e, program.Yields c q e) ∨ program.Balks c := by
  cases shared with
  | nil =>
      right
      have hsize : c.size = 0 + 1 := htwins.size_cut
      obtain ⟨e, literal, hstumbles, hfault⟩ :=
        statements_balk (expression_resembles seam 0) false 0 htwins.current_opened
      refine ⟨e, literal, program_stumbles.2 ?_, hfault⟩
      rw [hsize]
      exact hstumbles
  | cons t shared =>
      have hfollows : Follows seam (t :: shared).length program program := by
        refine Follows.looped fun k hk => ?_
        have hreaders := expression_resembles seam k
        exact (statements_follows hreaders false k (Nat.le_refl k)).bind fun _ _ =>
          Follows.pure _ _
      cases hfollows (Nat.le_refl _) htwins h with
      | level hyields _ _ => exact Or.inl ⟨_, _, hyields⟩
      | balking hbalks => exact Or.inr hbalks

end Grammar

/-- The first of the errors is that a piece of source is no token at all. -/
def SyntaxError.BeginIllegal (errors : List SyntaxError) : Prop :=
  ∃ literal, errors.head?.map SyntaxError.fault = some (.illegal literal)

/-- If a source that goes on from an open string literal is accepted, the cut source first
complains that the literal is illegal. -/
theorem beginIllegal_of_accepted {source more : Text} {errors : List SyntaxError}
    {program : Program} (hopen : ∃ t ∈ scan source, t.isUnterminated = true)
    (h : parse? source = .error errors)
    (hmore : parse? (source ++ Text.newline :: more) = .ok program) :
    SyntaxError.BeginIllegal errors := by
  obtain ⟨shared, str, last, hcut, hlast, hstr, _, hwhole, _⟩ := scan_open hopen
  obtain ⟨quoted, rest, last', hquoted, hlong, hlast'⟩ := hwhole more
  let seam : Seam := ⟨str, quoted, rest, hstr, hquoted⟩
  have htwins : seam.Twins shared (Cursor.ofTokens (scan source))
      (Cursor.ofTokens (scan (source ++ Text.newline :: more))) := by
    refine ⟨?_, ?_⟩
    · rw [hcut, Cursor.ahead_ofTokens_concat _ hlast]
      rfl
    · rw [hlong, Cursor.ahead_ofTokens_concat _ hlast']
      rfl
  obtain ⟨d, hd⟩ := parseTokens_eq_iff.1 (parse?_eq_ok_iff.1 hmore)
  rcases Grammar.program_follows htwins hd with ⟨q, e, hq⟩ | ⟨e, literal, hstumbles, hfault⟩
  · rw [parse?_eq_ok_iff.2 (parseTokens_eq_iff.2 ⟨e, hq⟩)] at h
    cases h
  · have hfirst : errors.head? = some e := (parse?_eq_error_iff.1 h).1 ▸ hstumbles
    exact ⟨literal, by rw [hfirst, Option.map_some, hfault]⟩

/-- If a source with an open string literal first complains that the literal is illegal,
some source that goes on from it is accepted: the literal is closed, and serves as the
operand that was due. -/
theorem accepted_of_beginIllegal {source : Text} {errors : List SyntaxError}
    (hopen : ∃ t ∈ scan source, t.isUnterminated = true) (h : parse? source = .error errors)
    (hincomplete : SyntaxError.allIncomplete errors = true)
    (hfault : SyntaxError.BeginIllegal errors) :
    ∃ more program, parse? (source ++ Text.newline :: more) = .ok program := by
  obtain ⟨shared, str, last, hscan, hlast, hstr, hkept, _, hspelled⟩ := scan_open hopen
  obtain ⟨literal, hliteral⟩ := hfault
  obtain ⟨e, hfirst, hfault⟩ := Option.map_eq_some_iff.1 hliteral
  have hends : e.token.endsSource = true :=
    (SyntaxError.allIncomplete_iff.1 hincomplete).2 e (List.mem_of_head? hfirst)
  let loose : Loose := ⟨[str], by simp [Token.endsSource, hstr]⟩
  have hcut : (Cursor.ofTokens (scan source)).Cut loose shared := by
    refine ⟨?_, hkept⟩
    rw [hscan, Cursor.ahead_ofTokens_concat _ hlast]
  refine exists_accepted h hfirst ⟨hends, fun _ => ⟨literal, hfault⟩⟩ hcut ?_
  intro kinds hadmits
  -- The literal, once closed, is the first token of the completion.
  obtain ⟨rest, rfl⟩ := List.head?_eq_some_iff.1 (hadmits.closing (by simp [loose]))
  exact hspelled rest fun kind hkind => hadmits.completing kind (List.mem_cons_of_mem _ hkind)

/-- **When a source cut inside a string literal can go on.**  All errors found in it being
incomplete, some source that goes on from it after a newline is accepted exactly when the
first error is that the literal itself is illegal. -/
theorem open_string_can_go_on_iff (source : Text) (errors : List SyntaxError)
    (hopen : ∃ t ∈ scan source, t.isUnterminated = true)
    (h : parse? source = .error errors) (hincomplete : SyntaxError.allIncomplete errors = true) :
    (∃ more program, parse? (source ++ Text.newline :: more) = .ok program) ↔
      SyntaxError.BeginIllegal errors := by
  constructor
  · rintro ⟨more, program, hmore⟩
    exact beginIllegal_of_accepted hopen h hmore
  · exact accepted_of_beginIllegal hopen h hincomplete

/-- A source cut inside a string literal that is an argument inside a block. -/
def halfString : Text := "fn(x) \x7b return x + f(1, \"abc"

theorem open_string_can_go_on_iff_in_call :
    (∃ t ∈ scan halfString, t.isUnterminated = true) ∧
      (∃ errors, parse? halfString = .error errors ∧ SyntaxError.allIncomplete errors = true) ∧
        ∃ more program, parse? (halfString ++ Text.newline :: more) = .ok program := by
  have hopen : ∃ t ∈ scan halfString, t.isUnterminated = true := by decide +kernel
  have hne : (parse halfString).2 ≠ [] := by decide +kernel
  have hincomplete : SyntaxError.allIncomplete (parse halfString).2 = true := by decide +kernel
  have hfault : (parse halfString).2.head?.map SyntaxError.fault =
      some (.illegal (Text.ofString "\"abc")) := by decide +kernel
  have h := parse?_eq_error_iff.2 ⟨rfl, hne⟩
  refine ⟨hopen, ⟨_, h, hincomplete⟩, ?_⟩
  exact (open_string_can_go_on_iff halfString _ hopen h hincomplete).2 ⟨_, hfault⟩

/-- A string literal is open where a name is due. -/
def misplacedString : Text := "let \"abc"

/-- All errors are incomplete there, and still no more input helps. -/
theorem misplaced_string_cannot_go_on :
    (∃ t ∈ scan misplacedString, t.isUnterminated = true) ∧
      (∃ errors, parse? misplacedString = .error errors ∧
        SyntaxError.allIncomplete errors = true) ∧
        ¬ ∃ more program, parse? (misplacedString ++ Text.newline :: more) = .ok program := by
  have hopen : ∃ t ∈ scan misplacedString, t.isUnterminated = true := by decide +kernel
  have hne : (parse misplacedString).2 ≠ [] := by decide +kernel
  have hincomplete : SyntaxError.allIncomplete (parse misplacedString).2 = true := by
    decide +kernel
  have hfault : (parse misplacedString).2.head?.map SyntaxError.fault =
      some (.expected .ident .illegal) := by decide +kernel
  have h := parse?_eq_error_iff.2 ⟨rfl, hne⟩
  refine ⟨hopen, ⟨_, h, hincomplete⟩, ?_⟩
  rintro ⟨more, program, hmore⟩
  obtain ⟨literal, hliteral⟩ := beginIllegal_of_accepted hopen h hmore
  rw [hfault] at hliteral
  cases hliteral

end MonkeyLang
