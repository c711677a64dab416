import MonkeyLang.Proofs.ReadingComplete
import MonkeyLang.Proofs.ReadingSound

/-!
# Parsing is exact

The tokens before the first end decide everything when there is nothing to
complain about: a program is read without errors exactly when those tokens
derive a program, and then it is the one they derive.  In particular no two
programs are derived from the same tokens, although a semicolon may be taken for
the ending of a statement or for a lone one.
-/

namespace MonkeyLang

/-- The tokens before the first end. -/
def beforeEnd (tokens : List Token) : List Token :=
  tokens.takeWhile fun t => t.kind ≠ .eof

/-- Before an end that comes first there is nothing. -/
theorem beforeEnd_cons_of_end {t : Token} (rest : List Token) (h : t.kind = .eof) :
    beforeEnd (t :: rest) = [] := by
  simp [beforeEnd, h]

/-- Tokens that are no ends stand before the first one. -/
theorem beforeEnd_append_of_real {u : List Token} (v : List Token)
    (hu : ∀ t ∈ u, t.kind ≠ .eof) : beforeEnd (u ++ v) = u ++ beforeEnd v :=
  List.takeWhile_append_of_pos (by simpa using hu)

/-- An end at the end makes no difference. -/
theorem beforeEnd_concat_of_end {t : Token} (u : List Token) (h : t.kind = .eof) :
    beforeEnd (u ++ [t]) = beforeEnd u := by
  induction u with
  | nil => exact beforeEnd_cons_of_end [] h
  | cons s u ih =>
      by_cases hs : s.kind = .eof
      · rw [List.cons_append, beforeEnd_cons_of_end _ hs, beforeEnd_cons_of_end _ hs]
      · have hreal : ∀ t ∈ [s], t.kind ≠ .eof := by simpa using hs
        change beforeEnd ([s] ++ (u ++ [t])) = beforeEnd ([s] ++ u)
        rw [beforeEnd_append_of_real _ hreal, beforeEnd_append_of_real _ hreal, ih]

namespace Cursor

/-- A cursor on the first token has all of them ahead up to the first end. -/
theorem beforeEnd_ofTokens (tokens : List Token) :
    beforeEnd (ofTokens tokens).ahead = beforeEnd tokens := by
  unfold ofTokens
  split
  · rfl
  · next last hlast =>
    split
    · next hend =>
      obtain ⟨u, rfl⟩ := List.getLast?_eq_some_iff.1 hlast
      rw [List.dropLast_concat, beforeEnd_concat_of_end u hend]
    · rfl

/-- What is cleared up to an end is what stands before the first one. -/
theorem Clears.eq_beforeEnd {c d : Cursor} {w : List Token} (h : c.Clears w d)
    (hd : d.current.kind = .eof) : w = beforeEnd c.ahead := by
  rw [h.ahead, beforeEnd_append_of_real _ h.real]
  cases hahead : d.ahead with
  | nil => simp [beforeEnd]
  | cons t rest =>
      have ht : t.kind = .eof := by simpa [current, hahead] using hd
      rw [beforeEnd_cons_of_end rest ht, List.append_nil]

/-- The tokens before the first end are cleared up to it. -/
theorem exists_clears (c : Cursor) :
    ∃ d, c.Clears (beforeEnd c.ahead) d ∧ d.current.kind = .eof := by
  refine ⟨⟨c.ahead.dropWhile fun t => t.kind ≠ .eof, c.finish, c.isEnd⟩, ⟨?_, rfl, ?_⟩, ?_⟩
  · exact (List.takeWhile_append_dropWhile).symm
  · intro t ht
    simpa using List.all_eq_true.1 List.all_takeWhile t ht
  · cases hrest : c.ahead.dropWhile fun t => t.kind ≠ .eof with
    | nil => exact c.isEnd
    | cons t rest =>
        have hhead := List.head?_dropWhile_not (fun t : Token => t.kind ≠ .eof) c.ahead
        rw [hrest] at hhead
        simpa [current, hrest] using hhead

end Cursor

namespace Grammar

open Rule

/-- A program is read from any cursor in an orderly way. -/
theorem program_orderly (c : Cursor) : (program c).Orderly c := by
  refine Outcome.Orderly.sequence
    (statements_orderly (expression_orderly c.size) false c.size c (Nat.le_refl _)) ?_
  intro body d _
  exact Outcome.Orderly.success _ (Cursor.Onward.refl d)

theorem program_yields {c d : Cursor} {p : Program} :
    program.Yields c p d ↔
      (statements (expression (c.size + 1)) false c.size).Yields c p.statements d := by
  simp only [program, yields_looped, yields_bind, yields_pure]
  constructor
  · rintro ⟨list, m, hlist, rfl, rfl⟩
    exact hlist
  · intro h
    exact ⟨p.statements, d, h, rfl, rfl⟩

/-- A program is read without errors exactly when it is derived. -/
theorem exists_program_yields_iff {c : Cursor} {p : Program} :
    (∃ d, program.Yields c p d) ↔ p.Derives (beforeEnd c.ahead) := by
  constructor
  · rintro ⟨d, h⟩
    obtain ⟨w, hw, hbody, hstop⟩ := statements_sound (expression_orderly c.size)
      (expression_sound c.size) (Nat.le_refl _) (Nat.le_refl _) (program_yields.1 h)
    have hend : d.current.kind = .eof := by simpa [stops] using hstop
    rw [hend] at hbody
    rw [← hw.eq_beforeEnd hend]
    exact hbody
  · intro h
    obtain ⟨d, hd, hend⟩ := c.exists_clears
    refine ⟨d, program_yields.2 ?_⟩
    exact statements_complete (expression_complete c.size) (Nat.le_refl _) (Nat.le_refl _)
      (hend ▸ h) hd (by simp [stops, hend])

end Grammar

/-- No error is recorded exactly when a program is read without errors. -/
theorem parseTokens_eq_iff {tokens : List Token} {p : Program} :
    parseTokens tokens = (p, []) ↔
      ∃ d, Grammar.program.Yields (Cursor.ofTokens tokens) p d := by
  have horderly := Grammar.program_orderly (Cursor.ofTokens tokens)
  unfold parseTokens Rule.Yields
  rcases hrun : Grammar.program (Cursor.ofTokens tokens) with ⟨_ | q, d, errors⟩
  · rw [hrun] at horderly
    have hsome := horderly.recorded rfl
    simp [hsome]
  · simp

/-- The program that is read without an error is the one the tokens derive. -/
theorem derives_iff_parseTokens {tokens : List Token} {p : Program} :
    p.Derives (beforeEnd tokens) ↔ parseTokens tokens = (p, []) := by
  rw [parseTokens_eq_iff, Grammar.exists_program_yields_iff, Cursor.beforeEnd_ofTokens]

/-- **The grammar is read exactly.**  Tokens are read without an error exactly
when those before the first end derive a program, and that program, the only
one they derive, is the one read. -/
theorem parseTokens_exact (tokens : List Token) :
    ((parseTokens tokens).2 = [] ↔ ∃ p : Program, p.Derives (beforeEnd tokens)) ∧
      ∀ p : Program, p.Derives (beforeEnd tokens) ↔ parseTokens tokens = (p, []) := by
  have hprogram (p : Program) :
      p.Derives (beforeEnd tokens) ↔ parseTokens tokens = (p, []) := derives_iff_parseTokens
  refine ⟨?_, hprogram⟩
  constructor
  · intro h
    exact ⟨(parseTokens tokens).1, (hprogram _).2 (Prod.ext rfl h)⟩
  · rintro ⟨p, hp⟩
    rw [(hprogram p).1 hp]

end MonkeyLang
