import MonkeyLang.Proofs.Derivation
import MonkeyLang.Proofs.RuleOutcome

/-!
# Passing tokens

Derivations speak of token lists and rules of cursors.  `Cursor.Reads` and
`Cursor.Clears` tie the two together: the first says that a cursor went through
a list of tokens and stands on the last one, as after an expression; the second
that it stands just behind them, as after the statements of a block.

The second half relates the levels of a derivation to the binding powers by
which an expression is read.  Reading at a power gives an expression of the
level `Level.above` it.
-/

namespace MonkeyLang

namespace Cursor

/-- From `c` the given tokens are passed, none of them an end, and `d` stands on
the last of them. -/
inductive Reads : Cursor → List Token → Cursor → Prop
  | one {c : Cursor} {t : Token} {rest : List Token}
      (h : c.ahead = t :: rest)
      (ht : t.kind ≠ .eof) : Reads c [t] c
  | more {c d : Cursor} {t : Token} {rest w : List Token}
      (h : c.ahead = t :: rest)
      (ht : t.kind ≠ .eof)
      (tail : Reads c.advance w d) : Reads c (t :: w) d

/-- From `c` the given tokens are passed, none of them an end, and `d` stands
just behind them. -/
structure Clears (c : Cursor) (w : List Token) (d : Cursor) : Prop where
  ahead : c.ahead = w ++ d.ahead
  finish : d.finish = c.finish
  real : ∀ t ∈ w, t.kind ≠ .eof

variable {c d m : Cursor} {t : Token} {u v w : List Token}

/-- Cursors that see the same are the same. -/
theorem ext_ahead (hahead : c.ahead = d.ahead) (hfinish : c.finish = d.finish) : c = d := by
  cases c
  cases d
  simp_all

namespace Reads

theorem ne_nil (h : c.Reads w d) : w ≠ [] := by
  cases h <;> simp

/-- Reading ends where the tokens passed are behind, but for the last one. -/
theorem clears (h : c.Reads w d) : c.Clears w d.advance := by
  induction h with
  | one h ht => exact ⟨by simp [h, advance], rfl, by simpa using ht⟩
  | more h ht _ ih =>
      have htail := ih.ahead
      simp only [advance, h, List.tail_cons] at htail
      refine ⟨by simp [h, htail, advance], ih.finish, ?_⟩
      intro s hs
      rcases List.mem_cons.1 hs with rfl | hs
      · exact ht
      · exact ih.real s hs

/-- The last token read is still ahead. -/
theorem size_pos (h : c.Reads w d) : 0 < d.size := by
  induction h with
  | one h _ => simp [size, h]
  | more _ _ _ ih => exact ih

/-- The tokens read are gone, but for the last one. -/
theorem size_add (h : c.Reads w d) : d.size + w.length = c.size + 1 := by
  have hlength := congrArg List.length h.clears.ahead
  have hpos := h.size_pos
  simp only [advance, List.length_append, List.length_tail, size] at *
  omega

theorem size_le (h : c.Reads w d) : d.size ≤ c.size := by
  have hsize := h.size_add
  have hpos := List.length_pos_iff.2 h.ne_nil
  omega

theorem current_eq (h : c.Reads (t :: w) d) : c.current = t := by
  cases h with
  | one h _ => simp [current, h]
  | more h _ _ => simp [current, h]

/-- A reading that starts one token further on starts on the next token. -/
theorem upcoming_eq (h : c.advance.Reads (t :: w) d) : c.upcoming = t := h.current_eq

/-- One list of tokens after another. -/
theorem append (hu : c.Reads u m) (hv : m.advance.Reads v d) : c.Reads (u ++ v) d := by
  induction hu with
  | one h ht => exact more h ht hv
  | more h ht _ ih => exact more h ht (ih hv)

/-- A reading can be stopped anywhere in between. -/
theorem split (h : c.Reads (u ++ v) d) (hu : u ≠ []) (hv : v ≠ []) :
    ∃ m, c.Reads u m ∧ m.advance.Reads v d := by
  induction u generalizing c with
  | nil => exact absurd rfl hu
  | cons t u ih =>
      rw [List.cons_append] at h
      generalize hw : u ++ v = w at h
      cases h with
      | one h ht => exact absurd (List.append_eq_nil_iff.1 hw).2 hv
      | more h ht tail =>
          cases u with
          | nil =>
              rw [List.nil_append] at hw
              exact ⟨c, one h ht, hw ▸ tail⟩
          | cons s u =>
              obtain ⟨m, hm, hrest⟩ := ih (hw ▸ tail) (by simp)
              exact ⟨m, more h ht hm, hrest⟩

/-- After its first token a longer reading goes on from the next one. -/
theorem tail (h : c.Reads (t :: w) d) (hw : w ≠ []) : c.advance.Reads w d := by
  cases h with
  | one _ _ => exact absurd rfl hw
  | more _ _ htail => exact htail

theorem eq_of_singleton (h : c.Reads [t] d) : d = c := by
  cases h with
  | one _ _ => rfl
  | more _ _ tail => exact absurd rfl tail.ne_nil

end Reads

/-- A token that is no end can be read. -/
theorem reads_current (h : c.current.kind ≠ .eof) : c.Reads [c.current] c := by
  cases hc : c.ahead with
  | nil => simp [current, hc, c.isEnd] at h
  | cons t rest =>
      have hcurrent : c.current = t := by simp [current, hc]
      rw [hcurrent] at h ⊢
      exact Reads.one hc h

/-- A token that is no end can be read before others. -/
theorem reads_cons (h : c.current.kind ≠ .eof) (htail : c.advance.Reads w d) :
    c.Reads (c.current :: w) d :=
  (reads_current h).append htail

/-- Tokens that are ahead can be read. -/
theorem exists_reads {rest : List Token} (hw : w ≠ []) (hreal : ∀ t ∈ w, t.kind ≠ .eof)
    (h : c.ahead = w ++ rest) : ∃ d, c.Reads w d ∧ d.advance.ahead = rest := by
  induction w generalizing c with
  | nil => exact absurd rfl hw
  | cons t w ih =>
      have ht := hreal t List.mem_cons_self
      cases w with
      | nil => exact ⟨c, Reads.one h ht, by simp [advance, h]⟩
      | cons s w =>
          have htail : c.advance.ahead = (s :: w) ++ rest := by
            simp [advance, h]
          obtain ⟨d, hd, hrest⟩ :=
            ih (by simp) (fun u hu => hreal u (List.mem_cons_of_mem t hu)) htail
          exact ⟨d, Reads.more h ht hd, hrest⟩

namespace Clears

theorem refl (c : Cursor) : c.Clears [] c := ⟨rfl, rfl, by simp⟩

/-- A reading, then more tokens cleared. -/
theorem of_reads (hu : c.Reads u m) (hv : m.advance.Clears v d) : c.Clears (u ++ v) d where
  ahead := by rw [hu.clears.ahead, hv.ahead, List.append_assoc]
  finish := hv.finish.trans hu.clears.finish
  real := by
    intro t ht
    rcases List.mem_append.1 ht with ht | ht
    · exact hu.clears.real t ht
    · exact hv.real t ht

theorem tail (h : c.Clears (t :: w) d) : c.advance.Clears w d :=
  ⟨by simp [advance, h.ahead], h.finish, fun s hs => h.real s (List.mem_cons_of_mem t hs)⟩

/-- Tokens that are cleared can be read up to anywhere in between. -/
theorem split (h : c.Clears (u ++ w) d) (hu : u ≠ []) :
    ∃ m, c.Reads u m ∧ m.advance.Clears w d := by
  obtain ⟨m, hm, hrest⟩ := exists_reads hu
    (fun t ht => h.real t (List.mem_append_left w ht))
    (h.ahead.trans (List.append_assoc u w d.ahead))
  refine ⟨m, hm, hrest, h.finish.trans hm.clears.finish.symm, ?_⟩
  exact fun t ht => h.real t (List.mem_append_right u ht)

/-- No tokens cleared is no move. -/
theorem eq_of_nil (h : c.Clears [] d) : c = d := ext_ahead h.ahead h.finish.symm

theorem current_eq (h : c.Clears (t :: w) d) : c.current = t := by
  simp [current, h.ahead]

/-- The first token cleared, or the one behind when there is none, is the
current one. -/
theorem leadingKind_eq (h : c.Clears w d) :
    leadingKind w d.current.kind = c.current.kind := by
  cases w with
  | nil =>
      have hahead : c.ahead = d.ahead := h.ahead
      simp [leadingKind, current, hahead, h.finish]
  | cons t w => simp [leadingKind, h.current_eq]

/-- When tokens are cleared up to one that is no end, that one can be read too. -/
theorem reads (h : c.Clears w d) (hd : d.current.kind ≠ .eof) :
    c.Reads (w ++ [d.current]) d := by
  induction w generalizing c with
  | nil =>
      have hc := h.eq_of_nil
      subst hc
      exact reads_current hd
  | cons t w ih => exact Reads.more h.ahead (h.real t List.mem_cons_self) (ih h.tail)

end Clears
end Cursor

/-! ## Levels and powers -/

namespace Level

/-- The power by which the operators of a level bind. -/
def power : Level → Nat
  | .equality => Power.equality
  | .comparison => Power.comparison
  | .sum => Power.sum
  | .product => Power.product
  | .sign => Power.sign
  | .applied => Power.call
  | .primary => Power.index

/-- The level of what is read at a power. -/
def above : Nat → Level
  | 0 | 1 => .equality
  | 2 => .comparison
  | 3 => .sum
  | 4 => .product
  | _ => .sign

/-- An operator of a level binds by the power of that level. -/
theorem power_of_mem_operators {level : Level} {kind : Kind} (h : kind ∈ level.operators) :
    kind.power = level.power := by
  cases level <;> simp [operators] at h <;> rcases h with rfl | rfl <;> rfl

/-- The operands to the right of an operator are of the next level. -/
theorem above_power_of_mem_operators {level : Level} {kind : Kind}
    (h : kind ∈ level.operators) : above kind.power = level.tighter := by
  cases level <;> simp [operators] at h <;> rcases h with rfl | rfl <;> rfl

/-- Operators bind less tightly than signs. -/
theorem power_lt_sign_of_mem_operators {level : Level} {kind : Kind}
    (h : kind ∈ level.operators) : level.power < sign.power := by
  cases level <;> simp [operators] at h <;> decide

/-- What binds, and is no call and no indexing, is an operator of some level. -/
theorem exists_mem_operators {kind : Kind} (h : Power.lowest < kind.power)
    (hcall : kind ≠ .lparen) (hindex : kind ≠ .lbracket) :
    ∃ level, kind ∈ operators level := by
  cases kind
  case equal | notEqual => exact ⟨.equality, by simp [operators]⟩
  case less | greater => exact ⟨.comparison, by simp [operators]⟩
  case plus | minus => exact ⟨.sum, by simp [operators]⟩
  case star | slash => exact ⟨.product, by simp [operators]⟩
  all_goals simp_all [Kind.power, Power.lowest]

/-- What is read at a power is bound by every operator that binds tighter. -/
theorem power_above_le {p q : Nat} (hp : 0 < p) (h : p < q) : (above p).power ≤ q := by
  match p with
  | 1 | 2 | 3 | 4 => exact h
  | p + 5 => exact Nat.le_trans (Nat.le_add_left 6 p) h

theorem le_power_above {p : Nat} (h : p ≤ sign.power) : p ≤ (above p).power := by
  match p with
  | 0 | 1 | 2 | 3 | 4 => decide
  | p + 5 => exact h

theorem power_above_le_sign (p : Nat) : (above p).power ≤ Level.sign.power := by
  unfold above
  split <;> decide

theorem power_tighter {level : Level} (h : level ≠ .primary) :
    level.tighter.power = level.power + 1 := by
  cases level <;> first | rfl | exact absurd rfl h

end Level

/-- The token behind an expression does not bind into it: it binds no tighter
than the expression's level, or the level is that of calls. -/
def Settled (level : Level) (behind : Kind) : Prop :=
  behind.power ≤ level.power ∨ Level.applied.power ≤ level.power

/-- An expression goes on with just the tokens that bind. -/
theorem Kind.continues_iff {kind : Kind} : kind.continues ↔ Power.lowest < kind.power := by
  cases kind <;> simp [Kind.continues, Kind.power, Power.lowest, Power.equality,
    Power.comparison, Power.sum, Power.product, Power.call, Power.index]

/-- An expression of a level is one of every looser level. -/
theorem Phrase.loosen_to {level inner : Level} {w : List Token} {e : Expr}
    (h : Phrase inner w e) (hle : level.power ≤ inner.power) : Phrase level w e := by
  induction hd : inner.power - level.power generalizing level with
  | zero =>
      have hpower : level.power = inner.power := by omega
      have heq : level = inner := by
        cases level <;> cases inner <;> first | rfl | exact absurd hpower (by decide)
      exact heq ▸ h
  | succ n ih =>
      have hbelow : level ≠ .primary := by
        rintro rfl
        cases inner <;> simp_all [Level.power, Power.index, Power.equality, Power.comparison,
          Power.sum, Power.product, Power.sign, Power.call]
      have hnext := Level.power_tighter hbelow
      exact Phrase.loosen hbelow (ih (by omega) (by omega))

namespace Phrase

variable {level : Level} {w : List Token} {e : Expr}

/-- Before an opening parenthesis stands what can be called. -/
theorem callee (h : Phrase level w e) (hsettled : Settled level .lparen) :
    Phrase .applied w e := by
  refine h.loosen_to ?_
  rcases hsettled with hle | hle
  · exact hle
  · exact hle

/-- Before an opening bracket stands what can be indexed. -/
theorem collection (h : Phrase level w e) (hsettled : Settled level .lbracket) :
    Phrase .applied w e := by
  refine h.loosen_to ?_
  rcases hsettled with hle | hle
  · exact Nat.le_trans (by decide) hle
  · exact hle

/-- Before an operator stands what can be its left operand. -/
theorem leftOperand {outer : Level} {kind : Kind} (h : Phrase level w e)
    (hsettled : Settled level kind) (hmem : kind ∈ outer.operators) : Phrase outer w e := by
  refine h.loosen_to ?_
  rcases hsettled with hle | hle
  · exact Level.power_of_mem_operators hmem ▸ hle
  · have hsign := Level.power_lt_sign_of_mem_operators hmem
    exact Nat.le_trans (Nat.le_of_lt (Nat.lt_trans hsign (by decide))) hle

end Phrase

end MonkeyLang
