import MonkeyLang.Proofs.CutPace
import MonkeyLang.Proofs.ReadingSound

/-!
# The first error

Errors after the first one depend on how reading recovers.  The first one does not:
up to it every rule has read what it was to read and recorded nothing.  So it can
be followed along a rule step by step, as success can: `Rule.Stumbles` says that a
rule records an error first, and unfolds into the steps the rule is made of, with
`Rule.Yields` for those that came before.

When the tokens of a source are loose from some place on, `Cursor.Cut` says what
still stands before that place, and a reading that records nothing never gets
beyond it.
-/

namespace MonkeyLang

namespace Rule

variable {α β : Type} {c : Cursor} {e : SyntaxError}

/-- From the cursor `c` the rule records errors, and `e` first. -/
def Stumbles (r : Rule α) (c : Cursor) (e : SyntaxError) : Prop :=
  (r c).errors.head? = some e

@[simp]
theorem stumbles_pure {a : α} : ¬ (pure a : Rule α).Stumbles c e := by
  simp [Stumbles]

@[simp]
theorem stumbles_fail {fault : Fault} {t : Token} :
    (fail fault t : Rule α).Stumbles c e ↔ e = ⟨fault, t⟩ := by
  simp [Stumbles, eq_comm]

@[simp]
theorem stumbles_current_bind {f : Token → Rule β} :
    (current >>= f).Stumbles c e ↔ (f c.current).Stumbles c e := Iff.rfl

@[simp]
theorem stumbles_upcoming_bind {f : Token → Rule β} :
    (upcoming >>= f).Stumbles c e ↔ (f c.upcoming).Stumbles c e := Iff.rfl

@[simp]
theorem stumbles_advance_bind {f : Unit → Rule β} :
    (advance >>= f).Stumbles c e ↔ (f ()).Stumbles c.advance e := Iff.rfl

/-- A required token is there, or it is the first thing missing. -/
@[simp]
theorem stumbles_expectNext_bind {kind : Kind} {f : Unit → Rule β} :
    (expectNext kind >>= f).Stumbles c e ↔
      if c.upcoming.kind = kind then (f ()).Stumbles c.advance e
      else e = ⟨.expected kind c.upcoming.kind, c.upcoming⟩ := by
  by_cases h : c.upcoming.kind = kind
  · rw [Stumbles, bind_run_of_some (expectNext_run kind c ▸ if_pos h), if_pos h]
    rfl
  · rw [Stumbles, bind_run_of_none (expectNext_run kind c ▸ if_neg h), if_neg h]
    simp [eq_comm]

@[simp]
theorem stumbles_skipNext_bind {kind : Kind} {f : Unit → Rule β} :
    (skipNext kind >>= f).Stumbles c e ↔ (f ()).Stumbles (c.skip kind) e := by
  rw [Stumbles, bind_run_of_some (skipNext_run kind c)]
  rfl

@[simp]
theorem stumbles_ite {p : Prop} [Decidable p] {r q : Rule α} :
    (if p then r else q).Stumbles c e ↔ if p then r.Stumbles c e else q.Stumbles c e := by
  split <;> rfl

/-- A sequence stumbles where its first rule does, or where its second one does
after the first has recorded nothing. -/
@[simp low]
theorem stumbles_bind {r : Rule α} {f : α → Rule β} :
    (r >>= f).Stumbles c e ↔ r.Stumbles c e ∨ ∃ a m, r.Yields c a m ∧ (f a).Stumbles m e := by
  rcases hr : r c with ⟨_ | a, m, _ | ⟨first, rest⟩⟩
  · simp [Stumbles, Yields, bind_run_of_none hr, hr]
  · simp [Stumbles, Yields, bind_run_of_none hr, hr]
  · simp only [Stumbles, Yields, bind_run_of_some hr, hr, List.nil_append, List.head?_nil,
      reduceCtorEq, false_or]
    constructor
    · intro h
      exact ⟨a, m, rfl, h⟩
    · rintro ⟨_, _, ⟨⟩, h⟩
      exact h
  · simp [Stumbles, Yields, bind_run_of_some hr, hr]

/-- A statement that is dropped has recorded the same errors. -/
@[simp]
theorem stumbles_attempt {r : Rule α} : (attempt r).Stumbles c e ↔ r.Stumbles c e := Iff.rfl

@[simp]
theorem stumbles_looped {loop : Nat → Rule α} :
    (looped loop).Stumbles c e ↔ (loop c.size).Stumbles c e := Iff.rfl

variable {item : Rule α} {close : Kind}

theorem moreItems_stumbles_zero :
    (moreItems item close 0).Stumbles c e ↔
      c.upcoming.kind ≠ close ∧ e = ⟨.expected close c.upcoming.kind, c.upcoming⟩ := by
  simp [moreItems]

theorem moreItems_stumbles_succ {n : Nat} :
    (moreItems item close (n + 1)).Stumbles c e ↔
      if c.upcoming.kind = .comma then
        item.Stumbles c.advance.advance e ∨
          ∃ a m, item.Yields c.advance.advance a m ∧ (moreItems item close n).Stumbles m e
      else
        c.upcoming.kind ≠ close ∧ e = ⟨.expected close c.upcoming.kind, c.upcoming⟩ := by
  simp [moreItems]

theorem items_stumbles :
    (items item close).Stumbles c e ↔
      c.upcoming.kind ≠ close ∧
        (item.Stumbles c.advance e ∨
          ∃ a m, item.Yields c.advance a m ∧ (moreItems item close m.size).Stumbles m e) := by
  simp [items]

end Rule

namespace Grammar

open Rule

/-! ## Where the rules of the grammar stumble -/

variable {read : Reader} {c : Cursor} {e : SyntaxError} {n : Nat}

theorem bindStatement_stumbles :
    (bindStatement read).Stumbles c e ↔
      if c.upcoming.kind = .ident then
        if c.advance.upcoming.kind = .assign then
          (read .lowest).Stumbles c.advance.advance.advance e
        else e = ⟨.expected .assign c.advance.upcoming.kind, c.advance.upcoming⟩
      else e = ⟨.expected .ident c.upcoming.kind, c.upcoming⟩ := by
  simp [bindStatement]

theorem leaveStatement_stumbles :
    (leaveStatement read).Stumbles c e ↔
      ¬ (c.upcoming.kind = .semicolon ∨ c.upcoming.kind = .rbrace ∨ c.upcoming.kind = .eof) ∧
        (read .lowest).Stumbles c.advance e := by
  simp [leaveStatement]

theorem exprStatement_stumbles :
    (exprStatement read).Stumbles c e ↔ (read .lowest).Stumbles c e := by
  simp [exprStatement]

theorem statements_stumbles_succ {inBlock : Bool} :
    (statements read inBlock (n + 1)).Stumbles c e ↔
      stops inBlock c.current.kind = false ∧
        if c.current.kind = .semicolon then
          (statements read inBlock n).Stumbles c.advance e
        else
          (statement read).Stumbles c e ∨
            ∃ found m, (attempt (statement read)).Yields c found m ∧
              (statements read inBlock n).Stumbles m.advance e := by
  simp [statements]

theorem block_stumbles :
    (block read).Stumbles c e ↔
      (statements read true c.advance.size).Stumbles c.advance e ∨
        ∃ list d, (statements read true c.advance.size).Yields c.advance list d ∧
          d.current.kind = .eof ∧ e = ⟨.expected .rbrace .eof, d.current⟩ := by
  simp [block]

theorem parameter_stumbles :
    parameter.Stumbles c e ↔
      c.current.kind ≠ .ident ∧ e = ⟨.expected .ident c.current.kind, c.current⟩ := by
  simp [parameter]

theorem pairs_stumbles_succ :
    (pairs read (n + 1)).Stumbles c e ↔
      c.upcoming.kind ≠ .rbrace ∧
        ((read .lowest).Stumbles c.advance e ∨
          ∃ k m, (read .lowest).Yields c.advance k m ∧
            if m.upcoming.kind = .colon then
              (read .lowest).Stumbles m.advance.advance e ∨
                ∃ a l, (read .lowest).Yields m.advance.advance a l ∧
                  if l.upcoming.kind = .rbrace then (pairs read n).Stumbles l e
                  else if l.upcoming.kind = .comma then (pairs read n).Stumbles l.advance e
                  else e = ⟨.expected .comma l.upcoming.kind, l.upcoming⟩
            else e = ⟨.expected .colon m.upcoming.kind, m.upcoming⟩) := by
  simp [pairs]

theorem conditional_stumbles :
    (conditional read).Stumbles c e ↔
      (read .lowest).Stumbles c.advance e ∨
        ∃ test m, (read .lowest).Yields c.advance test m ∧
          if m.upcoming.kind = .lbrace then
            (block read).Stumbles m.advance e ∨
              ∃ yes l, (block read).Yields m.advance yes l ∧ l.upcoming.kind = .elseWord ∧
                if l.advance.upcoming.kind = .lbrace then
                  (block read).Stumbles l.advance.advance e
                else e = ⟨.expected .lbrace l.advance.upcoming.kind, l.advance.upcoming⟩
          else e = ⟨.expected .lbrace m.upcoming.kind, m.upcoming⟩ := by
  simp [conditional]

theorem function_stumbles :
    (function read).Stumbles c e ↔
      if c.upcoming.kind = .lparen then
        (items parameter .rparen).Stumbles c.advance e ∨
          ∃ parameters m, (items parameter .rparen).Yields c.advance parameters m ∧
            if m.upcoming.kind = .lbrace then (block read).Stumbles m.advance e
            else e = ⟨.expected .lbrace m.upcoming.kind, m.upcoming⟩
      else e = ⟨.expected .lparen c.upcoming.kind, c.upcoming⟩ := by
  simp [function]

theorem climb_stumbles_succ {power : Power} {left : Expr} :
    (climb read power (n + 1) left).Stumbles c e ↔
      power < c.upcoming.kind.power ∧
        ((continuation read left).Stumbles c.advance e ∨
          ∃ larger m, (continuation read left).Yields c.advance larger m ∧
            (climb read power n larger).Stumbles m e) := by
  simp [climb]

theorem expressionWith_stumbles {power : Power} :
    (expressionWith read power).Stumbles c e ↔
      (operand read).Stumbles c e ∨
        ∃ left m, (operand read).Yields c left m ∧
          (climb read power m.size left).Stumbles m e := by
  simp [expressionWith]

theorem program_stumbles :
    program.Stumbles c e ↔
      (statements (expression (c.size + 1)) false c.size).Stumbles c e := by
  simp [program]

end Grammar

/-! ## Derivations use legal tokens -/

/-- None of the tokens is illegal. -/
def Legal (w : List Token) : Prop := ∀ t ∈ w, t.kind ≠ .illegal

namespace Legal

variable {t : Token} {u w : List Token}

@[simp]
theorem nil : Legal [] := by simp [Legal]

@[simp]
theorem cons_iff : Legal (t :: w) ↔ t.kind ≠ .illegal ∧ Legal w := by simp [Legal]

@[simp]
theorem append_iff : Legal (u ++ w) ↔ Legal u ∧ Legal w := by
  simp [Legal, or_imp, forall_and]

end Legal

theorem Ending.legal {behind : Kind} {z : List Token} (h : Ending behind z) : Legal z := by
  cases h with
  | omitted _ => simp
  | semicolon h => simp [h]

theorem Series.legal_of {α : Type} {item : List Token → α → Prop} {w : List Token} {list : List α}
    (hitem : ∀ v a, item v a → Legal v) (h : Series item w list) : Legal w := by
  induction h with
  | one first => exact hitem _ _ first
  | more first hcomma _ ih => simp [hitem _ _ first, hcomma, ih]

theorem Listing.legal_of {α : Type} {item : List Token → α → Prop} {w : List Token} {list : List α}
    (hitem : ∀ v a, item v a → Legal v) (h : Listing item w list) : Legal w := by
  cases h with
  | none => simp
  | some series => exact series.legal_of hitem

theorem Named.legal {w : List Token} {t : Token} (h : Named w t) : Legal w := by
  cases h with
  | mk h => simp [h]

/-- An operator is legal. -/
theorem Level.operator_ne_illegal {level : Level} {kind : Kind} (h : kind ∈ level.operators) :
    kind ≠ .illegal := by
  rintro rfl
  cases level <;> simp [operators] at h

-- The induction is on the derivation; lists are opened along with their items.
mutual

theorem Phrase.legal {level : Level} {w : List Token} {e : Expr} (h : Phrase level w e) :
    Legal w := by
  match h with
  | .binary operator left right =>
      simp [left.legal, right.legal, Level.operator_ne_illegal operator]
  | .loosen _ inner => exact inner.legal
  | .unary operator operand =>
      rcases operator with h | h <;> simp [h, operand.legal]
  | .call callee hopening list hclosing =>
      simp [callee.legal, hopening, list.legal, hclosing]
  | .index collection hopening key hclosing =>
      simp [collection.legal, hopening, key.legal, hclosing]
  | .ident h | .int h _ | .string h | .yes h | .no h => simp [h]
  | .group hopening inner hclosing => simp [hopening, inner.legal, hclosing]
  | .cond h condition branch => simp [h, condition.legal, branch.legal]
  | .condElse h condition branch hother otherBranch =>
      simp [h, condition.legal, branch.legal, hother, otherBranch.legal]
  | .function h hopening list hclosing block =>
      simp [h, hopening, list.legal_of fun _ _ => Named.legal, hclosing, block.legal]
  | .array hopening list hclosing => simp [hopening, list.legal, hclosing]
  | .hash hopening entries hclosing => simp [hopening, entries.legal, hclosing]

theorem Listing.legal {w : List Token} {list : List Expr} (h : Listing (Phrase .equality) w list) :
    Legal w := by
  match h with
  | .none => simp
  | .some series => exact series.legal

theorem Series.legal {w : List Token} {list : List Expr} (h : Series (Phrase .equality) w list) :
    Legal w := by
  match h with
  | .one first => exact first.legal
  | .more first hcomma others => simp [first.legal, hcomma, others.legal]

theorem Entries.legal {w : List Token} {list : List (Expr × Expr)} (h : Entries w list) :
    Legal w := by
  match h with
  | .none => simp
  | .last key hcolon value => simp [key.legal, hcolon, value.legal]
  | .more key hcolon value hcomma others =>
      simp [key.legal, hcolon, value.legal, hcomma, others.legal]

theorem Braced.legal {w : List Token} {b : Block} (h : Braced w b) : Legal w := by
  match h with
  | .mk hopening body hclosing => simp [hopening, body.legal, hclosing]

theorem Body.legal {behind : Kind} {w : List Token} {list : List Stmt} (h : Body behind w list) :
    Legal w := by
  match h with
  | .done => simp
  | .semicolon h rest => simp [h, rest.legal]
  | .statement first rest => simp [first.legal, rest.legal]

theorem Sentence.legal {behind : Kind} {w : List Token} {s : Stmt} (h : Sentence behind w s) :
    Legal w := by
  match h with
  | .bind h hname hsign value ending =>
      simp [h, hname, hsign, value.legal, ending.legal]
  | .leave h _ => simp [h]
  | .leaveMarked h hmark => simp [h, hmark]
  | .leaveWith h value ending => simp [h, value.legal, ending.legal]
  | .expr value ending =>
      have hvalue := value.legal
      rw [Legal.cons_iff] at hvalue
      simp [hvalue, ending.legal]

end

/-! ## Tokens that stand before a cut -/

namespace Cursor

/-- Ahead stand the given tokens, none of which ends the source, then loose ones. -/
structure Cut (loose : Loose) (u : List Token) (c : Cursor) : Prop where
  ahead : c.ahead = u ++ loose.tokens
  kept : ∀ t ∈ u, t.endsSource = false

namespace Cut

variable {loose : Loose} {c d : Cursor} {t : Token} {u w : List Token}

theorem advance (h : c.Cut loose (t :: u)) : c.advance.Cut loose u :=
  ⟨by simp [Cursor.advance, h.ahead], fun s hs => h.kept s (List.mem_cons_of_mem t hs)⟩

theorem current_eq (h : c.Cut loose (t :: u)) : c.current = t := by
  simp [current, h.ahead]

/-- On a token that ends the source nothing stands before the cut any more. -/
theorem eq_nil (h : c.Cut loose u) (hends : c.current.endsSource = true) : u = [] := by
  cases u with
  | nil => rfl
  | cons t u =>
      have hkept := h.kept t List.mem_cons_self
      rw [h.current_eq] at hends
      rw [hends] at hkept
      cases hkept

/-- Where nothing stands before the cut the current token ends the source. -/
theorem current_ends (h : c.Cut loose []) : c.current.endsSource = true := by
  have hpast : c.PastCut loose := by simp [PastCut, h.ahead]
  exact hpast.ends c.current_mem

/-- A token that some rule may require stands before the cut. -/
theorem exists_cons (h : c.Cut loose u) {kind : Kind} (hkind : c.current.kind = kind)
    (hmark : kind.isMark = true) : ∃ v, u = c.current :: v ∧ c.advance.Cut loose v := by
  cases u with
  | nil => exact absurd hkind (Token.kind_ne_of_endsSource h.current_ends hmark)
  | cons t u => exact ⟨u, by rw [h.current_eq], h.advance⟩

/-- The same of the token after the current one. -/
theorem exists_upcoming (h : c.advance.Cut loose u) {kind : Kind} (hkind : c.upcoming.kind = kind)
    (hmark : kind.isMark = true) :
    ∃ v, u = c.upcoming :: v ∧ c.advance.advance.Cut loose v :=
  h.exists_cons hkind hmark

/-- Tokens that are passed stand before the cut, if none of them is illegal. -/
theorem clears (h : c.Cut loose u) (hw : c.Clears w d) (hlegal : Legal w) :
    ∃ v, u = w ++ v ∧ d.Cut loose v := by
  have hnone (t : Token) (ht : t ∈ w) : t ∉ loose.tokens := by
    intro hmem
    rcases Token.kind_of_endsSource (loose.ends t hmem) with hkind | hkind
    · exact hw.real t ht hkind
    · exact hlegal t ht hkind
  rcases List.append_eq_append_iff.1 (h.ahead.symm.trans hw.ahead) with
    ⟨excess, rfl, hloose⟩ | ⟨v, rfl, hahead⟩
  -- What is passed beyond the cut would be loose.
  · cases excess with
    | nil => exact ⟨[], by simp, by simpa using hloose.symm, by simp⟩
    | cons t excess =>
        have hmem : t ∈ loose.tokens := by simp [hloose]
        exact absurd hmem (hnone t (by simp))
  · exact ⟨v, rfl, hahead, fun t ht => h.kept t (List.mem_append_right w ht)⟩

/-- The same after a reading, which stands on the last token passed. -/
theorem reads (h : c.Cut loose u) (hw : c.Reads w d) (hlegal : Legal w) :
    ∃ v, u = w ++ v ∧ d.advance.Cut loose v :=
  h.clears hw.clears hlegal

end Cut
end Cursor

end MonkeyLang
