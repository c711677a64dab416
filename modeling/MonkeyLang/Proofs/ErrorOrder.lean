import Mathlib.Data.List.Perm.Subperm
import MonkeyLang.Proofs.DescendingBlame
import MonkeyLang.Proofs.MovedReading
import MonkeyLang.Proofs.Tiling

/-!
# Syntax errors come in the order of the source

The tokens of a source stand at places that follow one another, so no token is there twice
and each is known by its index.  An error of rank `r` blames the token with `r / 2` tokens
behind it.  Ranks descend, so indexes and places do not; and a token has but two ranks, so
no token but the end is blamed more than twice.

Statements are read in a loop that goes on where one of them was dropped.  `attempts` has the
outcome of every statement that such a loop tries: those that were read are the list it
gives, and those that were dropped have each recorded an error.
-/

namespace MonkeyLang

/-! ## The order of places -/

namespace Position

variable {p q r : Position}

/-- The first place is on an earlier line, or earlier on the same line. -/
def Precedes (p q : Position) : Prop :=
  p.line < q.line ∨ p.line = q.line ∧ p.column < q.column

theorem Precedes.trans (h : p.Precedes q) (h' : q.Precedes r) : p.Precedes r := by
  unfold Precedes at *
  omega

theorem Precedes.ne (h : p.Precedes q) : p ≠ q := by
  rintro rfl
  unfold Precedes at h
  omega

theorem precedes_step (p : Position) (b : UInt8) : p.Precedes (p.step b) := by
  unfold Precedes step
  split
  · left
    dsimp only
    omega
  · right
    dsimp only
    omega

/-- Every text leads to a later place. -/
theorem precedes_after (p : Position) {text : Text} (h : text ≠ []) :
    p.Precedes (p.after text) := by
  induction text generalizing p with
  | nil => exact absurd rfl h
  | cons b rest ih =>
      have hstep := p.precedes_step b
      by_cases hrest : rest = []
      · rw [hrest]
        exact hstep
      · exact hstep.trans (ih (p.step b) hrest)

end Position

theorem Text.endPlace_precedes {source : Text} {i j : Nat} (hij : i < j) (hj : j ≤ source.length) :
    (endPlace (source.take i)).Precedes (endPlace (source.take j)) := by
  have hsplit : source.take j = source.take i ++ (source.drop i).take (j - i) := by
    rw [← List.take_add, Nat.add_sub_cancel' (Nat.le_of_lt hij)]
  rw [hsplit, endPlace_append]
  apply Position.precedes_after
  intro hnil
  have hlength := congrArg List.length hnil
  simp only [List.length_take, List.length_drop, List.length_nil] at hlength
  omega

theorem Tiles.pairwise_precedes {source : Text} {done : Nat} {tokens : List Token}
    {spans : List Span} (h : Tiles source done tokens spans) :
    tokens.Pairwise fun t t' => t.position.Precedes t'.position := by
  induction h with
  | finish => exact List.pairwise_singleton _ _
  | token _ hspan _ _ _ hplace _ hrest ih =>
      refine List.pairwise_cons.2 ⟨?_, ih⟩
      intro t' ht'
      obtain ⟨s', _, hbehind, hstart, hplace'⟩ := hrest.exists_span_behind ht'
      rw [hplace, hplace']
      exact Text.endPlace_precedes (by omega) hstart

/-- The tokens of a source stand one behind the other. -/
theorem scan_pairwise_precedes (source : Text) :
    (scan source).Pairwise fun t t' => t.position.Precedes t'.position := by
  obtain ⟨spans, htiles⟩ := exists_tiles source
  exact htiles.pairwise_precedes

theorem nodup_scan (source : Text) : (scan source).Nodup := by
  apply (scan_pairwise_precedes source).imp
  intro t t' hprecedes heq
  exact hprecedes.ne (congrArg Token.position heq)

/-! ## Ranks and indexes -/

namespace Cursor

/-- The tokens of a source, from the first to the end. -/
theorem ofTokens_scan (source : Text) :
    (ofTokens (scan source)).ahead ++ [(ofTokens (scan source)).finish] = scan source := by
  obtain ⟨tokens, last, htokens, hlast⟩ := (Scanner.start source).drain_eq_concat
  have hscan : scan source = tokens ++ [last] := htokens
  rw [hscan, ofTokens_concat tokens last hlast]

/-- A token is known by how many tokens are left from it on. -/
theorem getElem?_tokenAt (c : Cursor) {k : Nat} (hk : k ≤ c.size) :
    (c.ahead ++ [c.finish])[c.size - k]? = some (c.tokenAt k) := by
  rw [tokenAt, List.headD_eq_head?_getD, List.head?_drop]
  by_cases hzero : k = 0
  · subst hzero
    rw [Nat.sub_zero, size, List.getElem?_concat_length, List.getElem?_eq_none (Nat.le_refl _)]
    rfl
  · have hlt : c.size - k < c.ahead.length := by
      unfold size at *
      omega
    rw [List.getElem?_append_left hlt, List.getElem?_eq_getElem hlt]
    rfl

end Cursor

/-- Of two ranks that a token has, each is given once. -/
theorem countP_half_le_two {ranks : List Nat} (h : ranks.Pairwise fun r r' => r' < r ∨ r' = 0)
    {k : Nat} (hk : k ≠ 0) : ranks.countP (fun r => r / 2 = k) ≤ 2 := by
  rw [List.countP_eq_length_filter]
  have hnodup : (ranks.filter fun r => r / 2 = k).Nodup := by
    apply (h.filter _).imp_of_mem
    intro r r' _ hr' hdescend
    have hhalf : r' / 2 = k := by simpa using (List.mem_filter.1 hr').2
    omega
  have hsubset : (ranks.filter fun r => r / 2 = k) ⊆ [2 * k + 1, 2 * k] := by
    intro r hr
    have hhalf : r / 2 = k := by simpa using (List.mem_filter.1 hr).2
    have hrank : r = 2 * k + 1 ∨ r = 2 * k := by omega
    simpa using hrank
  exact (hnodup.subperm hsubset).length_le

section Source

variable (source : Text)

/-- The cursor on the first token of the source. -/
abbrev startCursor : Cursor := Cursor.ofTokens (scan source)

/-- The errors of a source, by their ranks. -/
theorem exists_ranks :
    ∃ ranks : List Nat,
      (parse source).2.map SyntaxError.token =
        ranks.map (fun r => (startCursor source).tokenAt (r / 2)) ∧
      (∀ r ∈ ranks, r / 2 ≤ (startCursor source).size) ∧
      ranks.Pairwise fun r r' => r' < r ∨ r' = 0 := by
  obtain ⟨ranks, htokens, hbounds, hdescend⟩ := Grammar.program_ranked (startCursor source)
  refine ⟨ranks, htokens, ?_, hdescend⟩
  intro r hr
  have hbound := (hbounds r hr).1
  omega

variable {source} {k : Nat} (hk : k ≤ (startCursor source).size)
include hk

theorem getElem?_scan :
    (scan source)[(startCursor source).size - k]? = some ((startCursor source).tokenAt k) := by
  rw [← (startCursor source).getElem?_tokenAt hk, Cursor.ofTokens_scan]

theorem idxOf_tokenAt :
    (scan source).idxOf ((startCursor source).tokenAt k) = (startCursor source).size - k := by
  obtain ⟨hlt, hget⟩ := List.getElem?_eq_some_iff.1 (getElem?_scan hk)
  rw [← hget]
  exact (nodup_scan source).idxOf_getElem _ hlt

/-- With fewer tokens left, the place is later. -/
theorem tokenAt_precedes {k' : Nat} (hlt : k' < k) :
    ((startCursor source).tokenAt k).position.Precedes
      ((startCursor source).tokenAt k').position := by
  have hk' : k' ≤ (startCursor source).size := by omega
  obtain ⟨hi, hget⟩ := List.getElem?_eq_some_iff.1 (getElem?_scan hk)
  obtain ⟨hj, hget'⟩ := List.getElem?_eq_some_iff.1 (getElem?_scan hk')
  rw [← hget, ← hget']
  exact List.pairwise_iff_getElem.1 (scan_pairwise_precedes source) _ _ hi hj (by omega)

end Source

/-- Errors blame tokens of the source. -/
theorem token_mem_scan {source : Text} {e : SyntaxError} (h : e ∈ (parse source).2) :
    e.token ∈ scan source := by
  obtain ⟨ranks, htokens, hbounds, _⟩ := exists_ranks source
  have hmem : e.token ∈ (parse source).2.map SyntaxError.token := List.mem_map_of_mem h
  rw [htokens] at hmem
  obtain ⟨r, hr, htoken⟩ := List.mem_map.1 hmem
  rw [← htoken]
  exact List.mem_of_getElem? (getElem?_scan (hbounds r hr))

/-- Only the end is blamed more than twice. -/
theorem count_blamed_le_two (source : Text) {t : Token} (ht : t.kind ≠ .eof) :
    ((parse source).2.map SyntaxError.token).count t ≤ 2 := by
  obtain ⟨ranks, htokens, hbounds, hdescend⟩ := exists_ranks source
  let left := (startCursor source).size - (scan source).idxOf t
  -- All ranks of the token are of the same half.
  have hhalf : ∀ r ∈ ranks, (startCursor source).tokenAt (r / 2) = t → r / 2 = left := by
    intro r hr heq
    have hindex := idxOf_tokenAt (hbounds r hr)
    have hbound := hbounds r hr
    rw [heq] at hindex
    omega
  have hleft : left ≠ 0 ∨ ∀ r ∈ ranks, (startCursor source).tokenAt (r / 2) ≠ t := by
    by_cases hzero : left = 0
    · right
      intro r hr heq
      have hend : (startCursor source).tokenAt 0 = (startCursor source).finish := by
        simp [Cursor.tokenAt, Cursor.size]
      rw [hhalf r hr heq, hzero, hend] at heq
      rw [← heq] at ht
      exact ht (startCursor source).isEnd
    · exact Or.inl hzero
  rw [htokens, List.count, List.countP_map]
  rcases hleft with hleft | hnone
  · apply Nat.le_trans (List.countP_mono_left _) (countP_half_le_two hdescend hleft)
    intro r hr heq
    exact decide_eq_true (hhalf r hr (beq_iff_eq.1 heq))
  · rw [List.countP_eq_zero.2]
    · omega
    · intro r hr heq
      exact hnone r hr (beq_iff_eq.1 heq)

/-! ## Dropped statements -/

namespace Grammar

open Rule

variable {read : Reader} {n : Nat} {c : Cursor}

/-- The outcomes of the statements that a loop tries to read. -/
def attempts (read : Reader) (inBlock : Bool) : Nat → Cursor → List (Outcome Stmt)
  | 0, _ => []
  | n + 1, c =>
    if stops inBlock c.current.kind then []
    else if c.current.kind = .semicolon then attempts read inBlock n c.advance
    else
      statement read c :: attempts read inBlock n (statement read c).cursor.advance

/-- What a loop gives and records is what was tried: statements that were read are kept, and
every one that was dropped has recorded an error. -/
structure Accounted (tried : List (Outcome Stmt)) (list : List Stmt)
    (errors : List SyntaxError) : Prop where
  kept : list = tried.filterMap Outcome.node?
  noted : errors = tried.flatMap Outcome.errors
  recorded : ∀ o ∈ tried, o.node? = none → o.errors ≠ []

theorem Accounted.nil : Accounted [] [] [] := ⟨rfl, rfl, by simp⟩

theorem Accounted.cons {o : Outcome Stmt} {tried : List (Outcome Stmt)} {list : List Stmt}
    {errors : List SyntaxError} (ho : o.node? = none → o.errors ≠ [])
    (h : Accounted tried list errors) :
    Accounted (o :: tried) (o.node?.toList ++ list) (o.errors ++ errors) where
  kept := by
    rw [List.filterMap_cons, h.kept]
    cases o.node? <;> rfl
  noted := by rw [List.flatMap_cons, h.noted]
  recorded := List.forall_mem_cons.2 ⟨ho, h.recorded⟩

/-- A loop over statements accounts for each of them. -/
theorem statements_accounted (hread : ∀ p, (read p).OrderlyTo n) (inBlock : Bool) (turns : Nat)
    (hc : c.size ≤ n) :
    ∃ list d errors, statements read inBlock turns c = ⟨some list, d, errors⟩ ∧
      Accounted (attempts read inBlock turns c) list errors := by
  induction turns generalizing c with
  | zero => exact ⟨[], c, [], rfl, .nil⟩
  | succ turns ih =>
      rw [attempts]
      by_cases hstop : stops inBlock c.current.kind = true
      · rw [if_pos hstop]
        exact ⟨[], c, [], statements_run_of_stops hstop, .nil⟩
      rw [if_neg hstop]
      by_cases hkind : c.current.kind = .semicolon
      · rw [if_pos hkind, statements_run_of_semicolon hkind]
        exact ih (Nat.le_trans c.onward_advance.size_le hc)
      · have hfirst := statement_orderly hread c hc
        have hnext := hfirst.onward.trans (Cursor.onward_advance _)
        obtain ⟨list, d, errors, hrun, haccounted⟩ := ih (Nat.le_trans hnext.size_le hc)
        rw [if_neg hkind,
          statements_run_of_statement (eq_false_of_ne_true hstop) hkind, hrun]
        exact ⟨_, d, _, rfl, haccounted.cons hfirst.recorded⟩

end Grammar

/-- **Syntax errors come in the order of the source, without piling up.**  No token stands
twice in a source, errors blame its tokens at indexes that never go back, and so at places
that never go back.  Only the end is blamed more than twice.  The statements of a program or
a block are those that could be read, and each that was dropped has recorded an error. -/
theorem syntax_errors_follow_source (source : Text) :
    ((scan source).Nodup ∧ (∀ e ∈ (parse source).2, e.token ∈ scan source) ∧
      ((parse source).2.map fun e => (scan source).idxOf e.token).Pairwise (· ≤ ·)) ∧
    ((parse source).2.map fun e => e.token.position).Pairwise (fun p q => p = q ∨ p.Precedes q) ∧
    (∀ t : Token, t.kind ≠ .eof → ((parse source).2.map SyntaxError.token).count t ≤ 2) ∧
    Grammar.Accounted
      (Grammar.attempts (Grammar.expression ((startCursor source).size + 1)) false
        (startCursor source).size (startCursor source))
      (parse source).1.statements (parse source).2 ∧
    ∀ n c, c.size ≤ n → ∃ list d errors,
      Grammar.statements (Grammar.expression (n + 1)) true c.size c = ⟨some list, d, errors⟩ ∧
        Grammar.Accounted (Grammar.attempts (Grammar.expression (n + 1)) true c.size c) list
          errors := by
  obtain ⟨ranks, htokens, hbounds, hdescend⟩ := exists_ranks source
  have hmap {α : Type} (f : Token → α) : ((parse source).2.map fun e => f e.token) =
      ranks.map fun r => f ((startCursor source).tokenAt (r / 2)) := by
    have hcongr := congrArg (List.map f) htokens
    rwa [List.map_map, List.map_map] at hcongr
  refine ⟨⟨nodup_scan source, fun e => token_mem_scan, ?_⟩, ?_,
    fun t => count_blamed_le_two source, ?_, ?_⟩
  · rw [hmap (fun t => (scan source).idxOf t), List.pairwise_map]
    apply hdescend.imp_of_mem
    intro r r' hr hr' hlower
    rw [idxOf_tokenAt (hbounds r hr), idxOf_tokenAt (hbounds r' hr')]
    omega
  · rw [hmap Token.position, List.pairwise_map]
    apply hdescend.imp_of_mem
    intro r r' hr _ hlower
    by_cases hsame : r / 2 = r' / 2
    · exact Or.inl (by rw [hsame])
    · exact Or.inr (tokenAt_precedes (hbounds r hr) (by omega))
  · obtain ⟨list, d, errors, hrun, haccounted⟩ :=
      Grammar.statements_accounted (Grammar.expression_orderly (startCursor source).size) false
        (startCursor source).size (Nat.le_refl _)
    have hparse : Grammar.program (startCursor source) = ⟨some ⟨list⟩, d, errors ++ []⟩ :=
      Rule.bind_run_of_some hrun _
    rw [parse, parseTokens, hparse, List.append_nil]
    exact haccounted
  · intro n c hc
    exact Grammar.statements_accounted (Grammar.expression_orderly n) true c.size hc

/-- A token can be blamed twice, and the end more often; a block goes on behind a statement
that it drops. -/
theorem syntax_errors_follow_source_of_unclosed :
    let source : Text := "let = 1; fn(x) \x7b fn(y) \x7b let 2; ["
    let blamed := (parse source).2.map SyntaxError.token
    let assign : Token := ⟨.assign, "=", ⟨1, 5⟩⟩
    let inner : Cursor := startCursor "let 2; x \x7d"
    let tried := Grammar.attempts (Grammar.expression 6) true inner.size inner
    blamed.map Token.kind = [.assign, .assign, .int, .eof, .eof, .eof] ∧
      (blamed.count assign = 2 ∧ assign.kind ≠ .eof ∧ blamed.count assign ≤ 2) ∧
      ((parse source).2.map fun e => (scan source).idxOf e.token).Pairwise (· ≤ ·) ∧
      inner.size ≤ 5 ∧ tried.map (fun o => o.node?.isSome) = [false, true, true] ∧
      ∃ list d errors,
        Grammar.statements (Grammar.expression 6) true inner.size inner =
          ⟨some list, d, errors⟩ ∧ Grammar.Accounted tried list errors := by
  intro source blamed assign inner tried
  have hassign : assign.kind ≠ .eof := by decide
  have hsize : inner.size ≤ 5 := by decide +kernel
  obtain ⟨⟨_, _, hindexes⟩, _, hcount, _, hblocks⟩ := syntax_errors_follow_source source
  refine ⟨by decide +kernel, ⟨by decide +kernel, hassign, hcount assign hassign⟩, hindexes, hsize,
    by decide +kernel, hblocks 5 inner hsize⟩

end MonkeyLang
