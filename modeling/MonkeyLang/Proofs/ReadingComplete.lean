import MonkeyLang.Proofs.GrammarOrder
import MonkeyLang.Proofs.Reading

/-!
# What is derived is read

A rule that is started on tokens that derive something reads exactly that,
passes exactly those tokens and records nothing, provided the token behind them
does not belong to them.  For expressions this means that the token behind does
not bind tighter than the power read at, and that it is no `else`, which would
be taken for the rest of a conditional.

Expressions are derived from the left and read from the left, but where a
derivation nests its left operands, reading climbs.  `phrase_climbs` bridges the
two by induction on the left operands: to read an expression and climb on from
it is to read its first operand and climb on from there.
-/

namespace MonkeyLang

/-! ## How derived tokens begin -/

/-- An expression may start with a token of this kind. -/
def Kind.starts (kind : Kind) : Prop :=
  kind ∈ [.ident, .int, .string, .trueWord, .falseWord, .bang, .minus, .lparen, .ifWord, .fnWord,
    .lbracket, .lbrace]

/-- Every expression starts with a token that may start one. -/
theorem Phrase.exists_start {level : Level} {w : List Token} {e : Expr}
    (h : Phrase level w e) : ∃ t rest, w = t :: rest ∧ t.kind.starts := by
  match h with
  | .binary _ left _ | .call left _ _ _ | .index left _ _ _ =>
      obtain ⟨t, rest, rfl, ht⟩ := left.exists_start
      exact ⟨t, _, rfl, ht⟩
  | .loosen _ inner => exact inner.exists_start
  | .unary (.inl h) _ | .unary (.inr h) _ => exact ⟨_, _, rfl, by simp [h, Kind.starts]⟩
  | .ident h | .int h _ | .string h | .yes h | .no h | .group h _ _ | .cond h _ _
  | .condElse h _ _ _ _ | .function h _ _ _ _ | .array h _ _ | .hash h _ _ =>
      exact ⟨_, _, rfl, by simp [h, Kind.starts]⟩

theorem Phrase.ne_nil {level : Level} {w : List Token} {e : Expr} (h : Phrase level w e) :
    w ≠ [] := by
  obtain ⟨t, rest, rfl, _⟩ := h.exists_start
  simp

theorem Phrase.starts_head {level : Level} {w : List Token} {t : Token} {e : Expr}
    (h : Phrase level (t :: w) e) : t.kind.starts := by
  obtain ⟨s, rest, heq, hs⟩ := h.exists_start
  rw [(List.cons.inj heq).1]
  exact hs

/-- A statement starts with `let`, `return` or an expression. -/
theorem Sentence.exists_start {behind : Kind} {w : List Token} {s : Stmt}
    (h : Sentence behind w s) :
    ∃ t rest, w = t :: rest ∧
      (t.kind = .letWord ∨ t.kind = .returnWord ∨ t.kind.starts) := by
  cases h with
  | bind h _ _ _ _ => exact ⟨_, _, rfl, Or.inl h⟩
  | leave h _ => exact ⟨_, _, rfl, Or.inr (Or.inl h)⟩
  | leaveMarked h _ => exact ⟨_, _, rfl, Or.inr (Or.inl h)⟩
  | leaveWith h _ _ => exact ⟨_, _, rfl, Or.inr (Or.inl h)⟩
  | expr value _ => exact ⟨_, _, rfl, Or.inr (Or.inr value.starts_head)⟩

/-- No statement starts with a semicolon, a closing brace, `else` or the end. -/
theorem Sentence.head_kind {behind : Kind} {w : List Token} {t : Token} {s : Stmt}
    (h : Sentence behind (t :: w) s) :
    t.kind ≠ .semicolon ∧ t.kind ≠ .rbrace ∧ t.kind ≠ .elseWord ∧ t.kind ≠ .eof := by
  obtain ⟨t', rest, heq, ht⟩ := h.exists_start
  rw [(List.cons.inj heq).1]
  rcases ht with ht | ht | ht
  · simp [ht]
  · simp [ht]
  · refine ⟨?_, ?_, ?_, ?_⟩ <;> rintro hkind <;> simp [Kind.starts, hkind] at ht

theorem Sentence.ne_nil {behind : Kind} {w : List Token} {s : Stmt}
    (h : Sentence behind w s) : w ≠ [] := by
  obtain ⟨t, rest, rfl, _⟩ := h.exists_start
  simp

/-- A block starts with an opening brace. -/
theorem Braced.exists_start {w : List Token} {b : Block} (h : Braced w b) :
    ∃ t rest, w = t :: rest ∧ t.kind = .lbrace := by
  cases h with
  | mk hopening _ _ => exact ⟨_, _, rfl, hopening⟩

/-- Statements do not start with `else`. -/
theorem Body.leadingKind_ne_else {behind : Kind} {w : List Token} {list : List Stmt}
    (h : Body behind w list) (hbehind : behind ≠ .elseWord) :
    leadingKind w behind ≠ .elseWord := by
  cases h with
  | done => exact hbehind
  | semicolon h _ => simp [leadingKind, h]
  | statement first _ =>
      obtain ⟨t, rest, rfl, _⟩ := first.exists_start
      exact first.head_kind.2.2.1

/-- No tokens are no statements. -/
theorem Body.eq_nil {behind : Kind} {list : List Stmt} (h : Body behind [] list) :
    list = [] := by
  generalize hw : ([] : List Token) = w at h
  cases h with
  | done => rfl
  | semicolon _ _ => cases hw
  | statement first _ => exact absurd (List.append_eq_nil_iff.1 hw.symm).1 first.ne_nil

/-- A leading semicolon stands alone. -/
theorem Body.of_semicolon {behind : Kind} {t : Token} {w : List Token} {list : List Stmt}
    (h : Body behind (t :: w) list) (ht : t.kind = .semicolon) : Body behind w list := by
  generalize hw : t :: w = v at h
  cases h with
  | done => cases hw
  | semicolon _ rest =>
      cases hw
      exact rest
  | statement first _ =>
      obtain ⟨s, rest, rfl, _⟩ := first.exists_start
      cases hw
      exact absurd ht first.head_kind.1

namespace Cursor.Reads

variable {c d : Cursor} {u : List Token} {t : Token}

/-- Before the last token read stand all the others. -/
theorem clears_init (h : c.Reads (u ++ [t]) d) : c.Clears u d ∧ d.current = t := by
  cases u with
  | nil =>
      have hd := h.eq_of_singleton
      subst hd
      exact ⟨Clears.refl d, h.current_eq⟩
  | cons s u =>
      obtain ⟨m, hm, hlast⟩ := h.split (by simp) (by simp)
      have hd := hlast.eq_of_singleton
      subst hd
      exact ⟨hm.clears, hlast.current_eq⟩

/-- Where a rule stops after a statement whose tokens end at `d`: there, or on
the semicolon behind it. -/
def StopsAfter (d stop : Cursor) : Prop :=
  stop = d ∨ d.upcoming.kind = .semicolon ∧ stop = d.advance

/-- A semicolon that may be there is passed over. -/
theorem stopsAfter_skip (d : Cursor) : StopsAfter d (d.skip .semicolon) := by
  unfold skip
  split
  · next hmark => exact Or.inr ⟨hmark, rfl⟩
  · exact Or.inl rfl

/-- Before its ending an expression has nothing behind it that belongs to it. -/
theorem before_ending {z : List Token} (hu : u ≠ []) (h : c.Reads (u ++ z) d)
    (hz : Ending d.upcoming.kind z) (helse : d.upcoming.kind ≠ .elseWord) :
    ∃ m, c.Reads u m ∧ ¬ m.upcoming.kind.continues ∧ m.upcoming.kind ≠ .elseWord ∧
      StopsAfter d (m.skip .semicolon) := by
  cases hz with
  | omitted hstop => exact ⟨d, by simpa using h, hstop, helse, stopsAfter_skip d⟩
  | @semicolon t hmark =>
      obtain ⟨m, hm, hlast⟩ := h.split hu (by simp)
      have hd := hlast.eq_of_singleton
      have hkind : m.upcoming.kind = .semicolon := by
        rw [hlast.upcoming_eq, hmark]
      refine ⟨m, hm, by rw [hkind]; decide, by simp [hkind], Or.inl ?_⟩
      rw [skip, if_pos hkind, hd]

end Cursor.Reads

namespace Grammar

open Rule

/-- Where at most `n` tokens are left, the reader reads what is derived, if the
token behind binds no tighter than the power read at and is no `else`. -/
def CompleteTo (n : Nat) (read : Reader) : Prop :=
  ∀ ⦃p : Power⦄ ⦃c : Cursor⦄ ⦃w : List Token⦄ ⦃e : Expr⦄ ⦃d : Cursor⦄,
    0 < p → p ≤ Power.sign → c.size ≤ n → Phrase (Level.above p) w e → c.Reads w d →
      d.upcoming.kind.power ≤ p → d.upcoming.kind ≠ .elseWord → (read p).Yields c e d

variable {read : Reader} {n : Nat} {c d : Cursor} {w : List Token}

/-- An expression before a token of a kind that cannot belong to it. -/
theorem CompleteTo.before (hread : CompleteTo n read) {e : Expr} {kind : Kind}
    (hc : c.size ≤ n) (hphrase : Phrase .equality w e) (hw : c.Reads w d)
    (hkind : d.upcoming.kind = kind) (hstop : ¬ kind.continues) (helse : kind ≠ .elseWord) :
    (read .lowest).Yields c e d := by
  rw [Kind.continues_iff, ← hkind] at hstop
  exact hread (by decide) (by decide) hc hphrase hw (Nat.not_lt.1 hstop) (hkind ▸ helse)

/-! ## Statements and blocks -/

open Cursor.Reads in
/-- A derived `let` statement is read. -/
theorem bindStatement_complete (hread : CompleteTo n read) {t name sign : Token}
    {z : List Token} {e : Expr} (hc : c.size ≤ n) (hname : name.kind = .ident)
    (hsign : sign.kind = .assign) (value : Phrase .equality w e)
    (ending : Ending d.upcoming.kind z) (hw : c.Reads (t :: name :: sign :: (w ++ z)) d)
    (helse : d.upcoming.kind ≠ .elseWord) :
    ∃ stop, (bindStatement read).Yields c (.bind t name e) stop ∧ StopsAfter d stop := by
  have hne : w ++ z ≠ [] := by simp [value.ne_nil]
  have hsecond := hw.tail (by simp)
  have hthird := hsecond.tail (by simp)
  obtain ⟨m, hm, hstop, hother, hafter⟩ :=
    before_ending value.ne_nil (hthird.tail hne) ending helse
  have hsize : c.advance.advance.advance.size ≤ n := by
    simp only [Cursor.size_advance]
    omega
  have hvalue := hread.before hsize value hm rfl hstop hother
  refine ⟨_, bindStatement_yields.2 ⟨?_, ?_, e, m, hvalue, ?_, rfl⟩, hafter⟩
  · rw [hsecond.upcoming_eq, hname]
  · rw [hthird.upcoming_eq, hsign]
  · rw [hw.current_eq, hsecond.upcoming_eq]

open Cursor.Reads in
/-- A derived `return` statement with a value is read. -/
theorem leaveWith_complete (hread : CompleteTo n read) {t : Token} {z : List Token} {e : Expr}
    (hc : c.size ≤ n) (value : Phrase .equality w e) (ending : Ending d.upcoming.kind z)
    (hw : c.Reads (t :: (w ++ z)) d) (helse : d.upcoming.kind ≠ .elseWord) :
    ∃ stop, (leaveStatement read).Yields c (.leave t (some e)) stop ∧ StopsAfter d stop := by
  have hne : w ++ z ≠ [] := by simp [value.ne_nil]
  have htail := hw.tail hne
  obtain ⟨m, hm, hstop, hother, hafter⟩ := before_ending value.ne_nil htail ending helse
  have hsize := Nat.le_trans c.onward_advance.size_le hc
  have hgo : ¬ (c.upcoming.kind = .semicolon ∨ c.upcoming.kind = .rbrace ∨
      c.upcoming.kind = .eof) := by
    obtain ⟨s, rest, rfl, hs⟩ := value.exists_start
    rw [htail.upcoming_eq]
    rintro (hkind | hkind | hkind) <;> simp [Kind.starts, hkind] at hs
  refine ⟨_, leaveStatement_yields.2 ?_, hafter⟩
  rw [if_neg hgo]
  exact ⟨e, m, hread.before hsize value hm rfl hstop hother, by rw [hw.current_eq], rfl⟩

open Cursor.Reads in
/-- A derived statement is read, together with a semicolon behind it. -/
theorem statement_complete (hread : CompleteTo n read) {s : Stmt} (hc : c.size ≤ n)
    (h : Sentence d.upcoming.kind w s) (hw : c.Reads w d)
    (helse : d.upcoming.kind ≠ .elseWord) :
    ∃ stop, (statement read).Yields c s stop ∧ StopsAfter d stop := by
  simp only [Yields, statement_run]
  generalize hbehind : d.upcoming.kind = behind at h
  cases h with
  | @bind _ t name sign w z e hlet hname hsign value ending =>
      subst hbehind
      simp only [hw.current_eq, hlet]
      exact bindStatement_complete hread hc hname hsign value ending hw helse
  | @leave _ t hreturn hend =>
      subst hbehind
      have hd := hw.eq_of_singleton
      subst hd
      simp only [hw.current_eq, hreturn]
      refine ⟨d.skip .semicolon, leaveStatement_yields.2 ?_, stopsAfter_skip d⟩
      rw [if_pos hend, hw.current_eq]
      exact ⟨rfl, rfl⟩
  | @leaveMarked _ t mark hreturn hmark =>
      have hlast := hw.tail (by simp)
      have hkind : c.upcoming.kind = .semicolon := by rw [hlast.upcoming_eq, hmark]
      simp only [hw.current_eq, hreturn]
      refine ⟨d, leaveStatement_yields.2 ?_, Or.inl rfl⟩
      rw [if_pos (Or.inl hkind), hw.current_eq, Cursor.skip, if_pos hkind]
      exact ⟨rfl, hlast.eq_of_singleton⟩
  | @leaveWith _ t w z e hreturn value ending =>
      subst hbehind
      simp only [hw.current_eq, hreturn]
      exact leaveWith_complete hread hc value ending hw helse
  | @expr _ t w z e value ending =>
      subst hbehind
      obtain ⟨m, hm, hstop, hother, hafter⟩ :=
        before_ending (u := t :: w) (by simp) hw ending helse
      have htoken : c.current = t := hw.current_eq
      have hlet : t.kind ≠ .letWord := by
        intro hkind
        simpa [Kind.starts, hkind] using value.starts_head
      have hreturn : t.kind ≠ .returnWord := by
        intro hkind
        simpa [Kind.starts, hkind] using value.starts_head
      refine ⟨_, ?_, hafter⟩
      rw [htoken]
      split
      · next hkind => exact absurd hkind hlet
      · next hkind => exact absurd hkind hreturn
      · exact exprStatement_yields.2
          ⟨e, m, hread.before hc value hm rfl hstop hother, by rw [htoken], rfl⟩

/-- At a token where statements stop nothing is read. -/
theorem statements_yields_nil {inBlock : Bool} (turns : Nat)
    (hstop : stops inBlock c.current.kind = true) :
    (statements read inBlock turns).Yields c [] c := by
  cases turns with
  | zero => rfl
  | succ turns =>
      rw [statements_yields_succ, if_pos hstop]
      exact ⟨rfl, rfl⟩

/-- Derived statements are read up to the token they stop at. -/
theorem statements_complete (hread : CompleteTo n read) {inBlock : Bool} {turns : Nat}
    {list : List Stmt} (hc : c.size ≤ n) (hturns : c.size ≤ turns)
    (h : Body d.current.kind w list) (hw : c.Clears w d)
    (hstop : stops inBlock d.current.kind = true) :
    (statements read inBlock turns).Yields c list d := by
  induction turns generalizing c w list with
  | zero =>
      have hempty : w ++ d.ahead = [] := by
        rw [← hw.ahead]
        exact List.length_eq_zero_iff.1 (Nat.le_zero.1 hturns)
      obtain ⟨rfl, _⟩ := List.append_eq_nil_iff.1 hempty
      obtain rfl := h.eq_nil
      have hd := hw.eq_of_nil
      subst hd
      exact statements_yields_nil _ hstop
  | succ turns ih =>
      generalize hbehind : d.current.kind = behind at h
      cases h with
      | done =>
          have hd := hw.eq_of_nil
          subst hd
          exact statements_yields_nil _ hstop
      | @semicolon _ t w list hmark rest =>
          have htoken : c.current = t := hw.current_eq
          have hgo : ¬ stops inBlock c.current.kind = true := by simp [stops, htoken, hmark]
          have hmarked : c.current.kind = .semicolon := by rw [htoken, hmark]
          rw [statements_yields_succ, if_neg hgo, if_pos hmarked]
          refine ih ?_ (Cursor.size_advance_le hturns) (hbehind ▸ rest) hw.tail
          exact Nat.le_trans c.onward_advance.size_le hc
      | @statement _ u w s list first rest =>
          subst hbehind
          have hnoElse : d.current.kind ≠ .elseWord := by
            intro hkind
            simp [stops, hkind] at hstop
          have hnoMark : d.current.kind ≠ .semicolon := by
            intro hkind
            simp [stops, hkind] at hstop
          obtain ⟨m, hm, hclears⟩ := hw.split first.ne_nil
          have hleading : leadingKind w d.current.kind = m.upcoming.kind :=
            hclears.leadingKind_eq
          obtain ⟨stop, hyields, hafter⟩ := statement_complete hread hc (hleading ▸ first) hm
            (hleading ▸ rest.leadingKind_ne_else hnoElse)
          obtain ⟨t, v, rfl, _⟩ := first.exists_start
          obtain ⟨hmark, hbrace, _, hend⟩ := first.head_kind
          have htoken : c.current = t := hm.current_eq
          have hgo : ¬ stops inBlock c.current.kind = true := by
            simp [stops, htoken, hbrace, hend]
          have hunmarked : c.current.kind ≠ .semicolon := by rw [htoken]; exact hmark
          have hturns' : m.advance.size ≤ turns :=
            Cursor.size_advance_le (Nat.le_trans hm.size_le hturns)
          have hn := Nat.le_trans (Nat.le_trans m.onward_advance.size_le hm.size_le) hc
          rw [statements_yields_succ, if_neg hgo, if_neg hunmarked]
          refine ⟨some s, stop, attempt_yields hyields, list, ?_, rfl⟩
          rcases hafter with rfl | ⟨hkind, rfl⟩
          · exact ih hn hturns' rest hclears
          · rw [← hleading] at hkind
            have hle := m.advance.onward_advance.size_le
            cases w with
            | nil => exact absurd hkind hnoMark
            | cons next w =>
                exact ih (Nat.le_trans hle hn) (Nat.le_trans hle hturns')
                  (rest.of_semicolon hkind) hclears.tail

/-- A derived block is read. -/
theorem block_complete (hread : CompleteTo n read) {b : Block} (hc : c.size ≤ n)
    (h : Braced w b) (hw : c.Reads w d) : (block read).Yields c b d := by
  cases h with
  | @mk opening closing w list hopening body hclosing =>
      have htoken : c.current = opening := hw.current_eq
      obtain ⟨hclears, hlast⟩ := (hw.tail (by simp)).clears_init
      have hkind : d.current.kind = .rbrace := by rw [hlast, hclosing]
      have hsize := Nat.le_trans c.onward_advance.size_le hc
      refine block_yields.2 ⟨list, ?_, by simp [hkind], by rw [htoken]⟩
      exact statements_complete hread hsize (Nat.le_refl _) (hkind ▸ body) hclears
        (by simp [stops, hkind])

/-! ## Lists and entries -/

/-- Where at most `n` tokens are left, the item reads what is derived before a
comma or the closing token, and does not start with the latter. -/
structure ItemCompleteTo {α : Type} (n : Nat) (item : Rule α)
    (derived : List Token → α → Prop) (close : Kind) : Prop where
  yields : ∀ ⦃c : Cursor⦄ ⦃w : List Token⦄ ⦃a : α⦄ ⦃d : Cursor⦄, c.size ≤ n → derived w a →
    c.Reads w d → d.upcoming.kind = .comma ∨ d.upcoming.kind = close → item.Yields c a d
  begins : ∀ ⦃w : List Token⦄ ⦃a : α⦄, derived w a → ∃ t rest, w = t :: rest ∧ t.kind ≠ close

variable {α : Type} {item : Rule α} {derived : List Token → α → Prop} {close : Kind}

/-- At the closing token the list is complete. -/
theorem moreItems_yields_nil (turns : Nat) (hclose : c.upcoming.kind = close)
    (hcomma : close ≠ .comma) : (moreItems item close turns).Yields c [] c.advance := by
  cases turns with
  | zero => simp [moreItems, hclose]
  | succ turns =>
      rw [moreItems_yields_succ, if_neg (by rw [hclose]; exact hcomma)]
      exact ⟨hclose, rfl, rfl⟩

/-- A derived series is read: its first item, then those after it. -/
theorem series_complete (hitem : ItemCompleteTo n item derived close) (hcomma : close ≠ .comma)
    {list : List α} {z : Token} (h : Series derived w list) (hc : c.size ≤ n)
    (hw : c.Reads (w ++ [z]) d) (hz : z.kind = close) :
    ∃ a rest u m, list = a :: rest ∧ c.Reads u m ∧ item.Yields c a m ∧
      ∀ turns, m.size ≤ turns → (moreItems item close turns).Yields m rest d := by
  induction h generalizing c with
  | @one w a first =>
      obtain ⟨t, rest, rfl, _⟩ := hitem.begins first
      obtain ⟨m, hm, hlast⟩ := hw.split (by simp) (by simp)
      have hd := hlast.eq_of_singleton
      have hkind : m.upcoming.kind = close := by
        rw [hlast.upcoming_eq, hz]
      refine ⟨a, [], _, m, rfl, hm, hitem.yields hc first hm (Or.inr hkind), ?_⟩
      intro turns _
      rw [hd]
      exact moreItems_yields_nil turns hkind hcomma
  | @more w v comma a rest first hsep _ ih =>
      obtain ⟨t, tail, rfl, _⟩ := hitem.begins first
      rw [List.append_assoc] at hw
      obtain ⟨m, hm, hnext⟩ := hw.split (by simp) (by simp)
      have hkind : m.upcoming.kind = .comma := by
        rw [hnext.upcoming_eq, hsep]
      have hsize := hm.size_le
      have hpos := hm.size_pos
      have hafter : m.advance.advance.size ≤ n := by
        simp only [Cursor.size_advance]
        omega
      obtain ⟨b, others, u, l, rfl, hl, hb, hothers⟩ := ih hafter (hnext.tail (by simp))
      refine ⟨a, _, _, m, rfl, hm, hitem.yields hc first hm (Or.inl hkind), ?_⟩
      intro turns hturns
      obtain ⟨more, rfl⟩ : ∃ more, turns = more + 1 := ⟨turns - 1, by omega⟩
      have hlsize := hl.size_le
      simp only [Cursor.size_advance] at hlsize
      rw [moreItems_yields_succ, if_pos hkind]
      exact ⟨b, l, hb, others, hothers more (by omega), rfl⟩

/-- A derived list is read.  The cursor starts on its opening token. -/
theorem items_complete (hitem : ItemCompleteTo (n - 1) item derived close)
    (hcomma : close ≠ .comma) {list : List α} {z : Token} (h : Listing derived w list)
    (hc : c.size ≤ n) (hw : c.advance.Reads (w ++ [z]) d) (hz : z.kind = close) :
    (items item close).Yields c list d := by
  rw [items_yields]
  cases h with
  | none =>
      have hd := hw.eq_of_singleton
      have hkind : c.upcoming.kind = close := by
        rw [hw.upcoming_eq, hz]
      rw [if_pos hkind]
      exact ⟨rfl, hd⟩
  | some series =>
      have hsize : c.advance.size ≤ n - 1 := Cursor.size_advance_le hc
      obtain ⟨a, rest, u, m, rfl, _, ha, hrest⟩ :=
        series_complete hitem hcomma series hsize hw hz
      have hopen : c.upcoming.kind ≠ close := by
        have hbegins : ∃ t tail, w = t :: tail ∧ t.kind ≠ close := by
          cases series with
          | one first => exact hitem.begins first
          | more first _ _ =>
              obtain ⟨t, tail, rfl, ht⟩ := hitem.begins first
              exact ⟨t, _, rfl, ht⟩
        obtain ⟨t, tail, rfl, ht⟩ := hbegins
        rw [← c.current_advance, hw.current_eq]
        exact ht
      rw [if_neg hopen]
      exact ⟨a, m, ha, rest, hrest m.size (Nat.le_refl _), rfl⟩

theorem parameter_complete : ItemCompleteTo n parameter Named .rparen where
  yields := by
    intro c w t d _ h hw _
    cases h with
    | mk hkind =>
        have htoken := hw.current_eq
        exact parameter_yields.2 ⟨by rw [htoken, hkind], htoken.symm, hw.eq_of_singleton⟩
  begins := by
    intro w t h
    cases h with
    | mk hkind => exact ⟨t, [], rfl, by simp [hkind]⟩

/-- Expressions are items of a list that is closed by what starts none. -/
theorem CompleteTo.itemComplete (hread : CompleteTo n read) (hstart : ¬ close.starts)
    (hstop : ¬ close.continues) (helse : close ≠ .elseWord) :
    ItemCompleteTo n (read .lowest) (Phrase .equality) close where
  yields := by
    intro c w e d hc hphrase hw hbehind
    rcases hbehind with hkind | hkind
    · exact hread.before hc hphrase hw hkind (by decide) (by decide)
    · exact hread.before hc hphrase hw hkind hstop helse
  begins := by
    intro w e hphrase
    obtain ⟨t, rest, rfl, ht⟩ := hphrase.exists_start
    refine ⟨t, rest, rfl, ?_⟩
    rintro rfl
    exact hstart ht

/-- A derived entry is read, before a comma or the closing brace. -/
theorem entry_complete (hread : CompleteTo (n - 1) read) {u v tail : List Token}
    {colon t : Token} {k a : Expr} (key : Phrase .equality u k) (hcolon : colon.kind = .colon)
    (value : Phrase .equality v a) (hc : c.size ≤ n)
    (hw : c.advance.Reads (u ++ colon :: (v ++ t :: tail)) d)
    (ht : t.kind = .comma ∨ t.kind = .rbrace) :
    c.upcoming.kind ≠ .rbrace ∧ ∃ m l, (read .lowest).Yields c.advance k m ∧
      m.upcoming.kind = .colon ∧ (read .lowest).Yields m.advance.advance a l ∧
      l.upcoming = t ∧ l.advance.Reads (t :: tail) d ∧ 0 < l.size ∧ l.size < c.size := by
  have hsize : c.advance.size ≤ n - 1 := Cursor.size_advance_le hc
  obtain ⟨m, hm, hnext⟩ := hw.split key.ne_nil (by simp)
  have hmcolon : m.upcoming.kind = .colon := by
    rw [hnext.upcoming_eq, hcolon]
  obtain ⟨l, hl, hrest⟩ := (hnext.tail (by simp)).split value.ne_nil (by simp)
  have hlt : l.upcoming = t := hrest.current_eq
  have hmsize := hm.size_le
  have hmpos := hm.size_pos
  have hlsize := hl.size_le
  have hlpos := hl.size_pos
  simp only [Cursor.size_advance] at hmsize hlsize
  have hvalueSize : m.advance.advance.size ≤ n - 1 := by
    simp only [Cursor.size_advance]
    omega
  have hbegin : c.upcoming.kind ≠ .rbrace := by
    obtain ⟨s, rest, rfl, hs⟩ := key.exists_start
    rw [← c.current_advance, hw.current_eq]
    intro hkind
    simp [Kind.starts, hkind] at hs
  refine ⟨hbegin, m, l, hread.before hsize key hm hmcolon (by decide) (by decide), hmcolon, ?_,
    hlt, hrest, hlpos, by omega⟩
  rcases ht with hkind | hkind
  · exact hread.before hvalueSize value hl (hlt ▸ hkind) (by decide) (by decide)
  · exact hread.before hvalueSize value hl (hlt ▸ hkind) (by decide) (by decide)

/-- Derived entries are read.  The cursor starts on the token before them. -/
theorem pairs_complete (hread : CompleteTo (n - 1) read) {turns : Nat}
    {list : List (Expr × Expr)} {z : Token} (h : Entries w list) (hc : c.size ≤ n)
    (hpos : 0 < c.size) (hturns : c.size ≤ turns) (hw : c.advance.Reads (w ++ [z]) d)
    (hz : z.kind = .rbrace) : (pairs read turns).Yields c list d := by
  induction turns generalizing c w list with
  | zero => omega
  | succ turns ih =>
      rw [pairs_yields_succ]
      cases h with
      | none =>
          have hkind : c.upcoming.kind = .rbrace := by
            rw [hw.upcoming_eq, hz]
          rw [if_pos hkind]
          exact ⟨rfl, hw.eq_of_singleton⟩
      | @last u v colon k a key hcolon value =>
          rw [List.append_assoc, List.cons_append] at hw
          obtain ⟨hbegin, m, l, hk, hmcolon, ha, hlast, hend, hlpos, hlsize⟩ :=
            entry_complete hread key hcolon value hc hw (Or.inr hz)
          have hbrace : l.upcoming.kind = .rbrace := by rw [hlast, hz]
          rw [if_neg hbegin]
          refine ⟨k, m, hk, hmcolon, a, l, ha, ?_⟩
          rw [if_pos hbrace]
          refine ⟨[], ih (w := []) Entries.none ?_ hlpos ?_ hend, rfl⟩
          · omega
          · omega
      | @more u v w colon comma k a rest key hcolon value hcomma others =>
          simp only [List.append_assoc, List.cons_append] at hw
          obtain ⟨hbegin, m, l, hk, hmcolon, ha, hnext, hrest, hlpos, hlsize⟩ :=
            entry_complete hread key hcolon value hc hw (Or.inl hcomma)
          have hsep : l.upcoming.kind = .comma := by rw [hnext, hcomma]
          have hafter := Cursor.size_pos_of_current (c := l.advance) (by simp [hsep])
          rw [if_neg hbegin]
          refine ⟨k, m, hk, hmcolon, a, l, ha, ?_⟩
          rw [if_neg (by simp [hsep])]
          refine ⟨hsep, rest, ih others ?_ hafter ?_ (hrest.tail (by simp)), rfl⟩
          · rw [Cursor.size_advance]
            omega
          · rw [Cursor.size_advance]
            omega

/-! ## Expressions -/

/-- A derived condition is read, with the block behind it. -/
theorem test_complete (hread : CompleteTo (n - 1) read) {t : Token} {u v : List Token}
    {test : Expr} {yes : Block} (hc : c.size ≤ n) (condition : Phrase .equality u test)
    (branch : Braced v yes) (hw : c.Reads (t :: (u ++ v)) d) :
    ∃ m, (read .lowest).Yields c.advance test m ∧ m.upcoming.kind = .lbrace ∧
      (block read).Yields m.advance yes d := by
  have hsize : c.advance.size ≤ n - 1 := Cursor.size_advance_le hc
  obtain ⟨opening, rest, rfl, hopening⟩ := branch.exists_start
  obtain ⟨m, hm, hblock⟩ := (hw.tail (by simp)).split condition.ne_nil (by simp)
  have hkind : m.upcoming.kind = .lbrace := by
    rw [hblock.upcoming_eq, hopening]
  have hadvance := Nat.le_trans (Nat.le_trans m.onward_advance.size_le hm.size_le) hsize
  exact ⟨m, hread.before hsize condition hm hkind (by decide) (by decide), hkind,
    block_complete hread hadvance branch hblock⟩

/-- A derived conditional with two branches is read. -/
theorem condElse_complete (hread : CompleteTo (n - 1) read) {t other : Token}
    {u v : List Token} {test : Expr} {yes no : Block} (hc : c.size ≤ n)
    (condition : Phrase .equality u test) (branch : Braced v yes)
    (hother : other.kind = .elseWord) (otherBranch : Braced w no)
    (hw : c.Reads (t :: (u ++ (v ++ other :: w))) d) :
    (conditional read).Yields c (.cond t test yes (some no)) d := by
  have hsplit : t :: (u ++ (v ++ other :: w)) = t :: (u ++ v) ++ other :: w := by simp
  rw [hsplit] at hw
  obtain ⟨l, hl, hrest⟩ := hw.split (by simp) (by simp)
  obtain ⟨m, htest, hkind, hyes⟩ := test_complete hread hc condition branch hl
  have helse : l.upcoming.kind = .elseWord := by rw [hrest.upcoming_eq, hother]
  obtain ⟨opening, tail, rfl, hopening⟩ := otherBranch.exists_start
  have hblock := hrest.tail (by simp)
  have hopen : l.advance.upcoming.kind = .lbrace := by rw [hblock.upcoming_eq, hopening]
  have hlsize := hl.size_le
  have hadvance : l.advance.advance.size ≤ n - 1 := by
    simp only [Cursor.size_advance]
    omega
  refine conditional_yields.2 ⟨test, m, htest, hkind, yes, l, hyes, ?_⟩
  rw [if_pos helse, hl.current_eq]
  exact ⟨hopen, no, block_complete hread hadvance otherBranch hblock, rfl⟩

/-- A derived function literal is read. -/
theorem function_complete (hread : CompleteTo (n - 1) read) {t opening closing : Token}
    {u v parameters : List Token} {body : Block} (hc : c.size ≤ n)
    (hopening : opening.kind = .lparen) (list : Listing Named u parameters)
    (hclosing : closing.kind = .rparen) (block : Braced v body)
    (hw : c.Reads (t :: opening :: (u ++ closing :: v)) d) :
    (function read).Yields c (.function t parameters body) d := by
  have hsplit : u ++ closing :: v = (u ++ [closing]) ++ v := by simp
  obtain ⟨brace, tail, rfl, hbrace⟩ := block.exists_start
  have hsecond := hw.tail (by simp)
  have hopen : c.upcoming.kind = .lparen := by rw [hsecond.upcoming_eq, hopening]
  have hthird := hsecond.tail (by simp)
  rw [hsplit] at hthird
  obtain ⟨m, hm, hbody⟩ := hthird.split (by simp) (by simp)
  have hkind : m.upcoming.kind = .lbrace := by rw [hbody.upcoming_eq, hbrace]
  have hsize : c.advance.size ≤ n - 1 := Cursor.size_advance_le hc
  have hmsize := hm.size_le
  have hadvance : m.advance.size ≤ n - 1 := by
    simp only [Cursor.size_advance] at *
    omega
  have hlist := items_complete parameter_complete (by decide) list hsize hm hclosing
  have hblock := block_complete hread hadvance block hbody
  exact function_yields.2 ⟨hopen, parameters, m, hlist, hkind, body, hblock,
    by rw [hw.current_eq]⟩

/-- A derived primary expression is read as an operand. -/
theorem primary_complete (hread : CompleteTo (n - 1) read) {e : Expr}
    (h : Phrase .primary w e) (hc : c.size ≤ n) (hw : c.Reads w d)
    (helse : d.upcoming.kind ≠ .elseWord) : (operand read).Yields c e d := by
  have hsize : c.advance.size ≤ n - 1 := Cursor.size_advance_le hc
  rw [Yields, operand_run]
  cases h with
  | binary operator _ _ => simp [Level.operators] at operator
  | loosen below _ => exact absurd rfl below
  | ident h | string h | yes h | no h =>
      rw [hw.current_eq, hw.eq_of_singleton, h]
  | int h hvalue =>
      rw [hw.current_eq, hw.eq_of_singleton, h]
      simp only [hvalue]
  | @group opening closing w e hopening inner hclosing =>
      obtain ⟨m, hm, hlast⟩ := (hw.tail (by simp)).split inner.ne_nil (by simp)
      have hkind : m.upcoming.kind = .rparen := by
        rw [hlast.upcoming_eq, hclosing]
      have hinner := hread.before hsize inner hm hkind (by decide) (by decide)
      rw [hw.current_eq, hopening]
      refine yields_bind.2 ⟨e, m, hinner, ?_⟩
      simp [hkind, hlast.eq_of_singleton]
  | @cond t u v test yes h condition branch =>
      obtain ⟨m, htest, hkind, hyes⟩ := test_complete hread hc condition branch hw
      have htoken := hw.current_eq
      rw [htoken, h]
      refine conditional_yields.2 ⟨test, m, htest, hkind, yes, d, hyes, ?_⟩
      rw [if_neg helse, htoken]
      exact ⟨rfl, rfl⟩
  | condElse h condition branch hother otherBranch =>
      rw [hw.current_eq, h]
      exact condElse_complete hread hc condition branch hother otherBranch hw
  | function h hopening list hclosing block =>
      rw [hw.current_eq, h]
      exact function_complete hread hc hopening list hclosing block hw
  | @array opening closing w elements hopening list hclosing =>
      have hitem : ItemCompleteTo (n - 1) (read .lowest) (Phrase .equality) .rbracket :=
        hread.itemComplete (by simp [Kind.starts]) (by decide) (by decide)
      have hlist := items_complete hitem (by decide) list hc (hw.tail (by simp)) hclosing
      have htoken := hw.current_eq
      rw [htoken, hopening]
      exact yields_bind.2 ⟨elements, d, hlist, rfl⟩
  | @hash opening closing w pairs hopening entries hclosing =>
      have hpos := Nat.lt_of_lt_of_le hw.size_pos hw.size_le
      have hlist := pairs_complete hread entries hc hpos (Nat.le_refl _) (hw.tail (by simp))
        hclosing
      have htoken := hw.current_eq
      rw [htoken, hopening]
      exact yields_bind.2 ⟨pairs, d, hlist, rfl⟩

/-- A climb that has turns for all tokens left gains nothing by more of them. -/
theorem climb_yields_mono (horderly : ∀ p, (read p).OrderlyTo (n - 1)) {p : Power} (hp : 0 < p)
    {turns more : Nat} {left e : Expr} (hc : c.size ≤ n) (hturns : c.size ≤ turns)
    (hmore : turns ≤ more) (h : (climb read p turns left).Yields c e d) :
    (climb read p more left).Yields c e d := by
  induction turns generalizing c left more with
  | zero =>
      obtain ⟨rfl, rfl⟩ := yields_pure.1 h
      cases more with
      | zero => rfl
      | succ more =>
          have hend : d.upcoming.kind = .eof := by
            have hsize : d.advance.size = 0 := by
              rw [Cursor.size_advance]
              omega
            rw [← d.current_advance, Cursor.current_of_size_eq_zero hsize, d.advance.isEnd]
          have hstop : ¬ p < d.upcoming.kind.power := by
            rw [hend]
            exact Nat.not_lt.2 hp
          rw [climb_yields_succ, if_neg hstop]
          exact ⟨rfl, rfl⟩
  | succ turns ih =>
      obtain ⟨more, rfl⟩ : ∃ k, more = k + 1 := ⟨more - 1, by omega⟩
      rw [climb_yields_succ] at h ⊢
      split at h
      · next hbinds =>
        rw [if_pos hbinds]
        obtain ⟨larger, m, hlarger, hrest⟩ := h
        have hadvance := Nat.le_trans c.onward_advance.size_le hc
        have hm := ((continuation_orderly horderly left _ hadvance).onward_of_yields
          hlarger).size_le
        rw [Cursor.size_advance] at hm
        exact ⟨larger, m, hlarger, ih (by omega) (by omega) (by omega) hrest⟩
      · next hstop =>
        rw [if_neg hstop]
        exact h

/-- One step of a climb. -/
theorem climb_yields_step (horderly : ∀ p, (read p).OrderlyTo (n - 1)) {p : Power} (hp : 0 < p)
    {left larger e : Expr} {m : Cursor} (hc : c.size ≤ n) (hpos : 0 < c.size)
    (hbinds : p < c.upcoming.kind.power)
    (hstep : (continuation read left).Yields c.advance larger m)
    (h : (climb read p m.size larger).Yields m e d) :
    (climb read p c.size left).Yields c e d := by
  obtain ⟨turns, hturns⟩ : ∃ turns, c.size = turns + 1 := ⟨c.size - 1, by omega⟩
  have hadvance := Nat.le_trans c.onward_advance.size_le hc
  have hm := ((continuation_orderly horderly left _ hadvance).onward_of_yields hstep).size_le
  rw [Cursor.size_advance] at hm
  rw [hturns, climb_yields_succ, if_pos hbinds]
  exact ⟨larger, m, hstep,
    climb_yields_mono horderly hp (by omega) (Nat.le_refl _) (by omega) h⟩

/-- Every operator of the level, and every call or index behind it, binds
tighter than the power. -/
def Climbable (p : Power) (level : Level) : Prop :=
  p ≤ Power.sign ∧ (level.power < Power.sign → p < level.power)

theorem climbable_above {p : Power} (hp : 0 < p) (hsign : p ≤ Power.sign) :
    Climbable p (Level.above p) := by
  refine ⟨hsign, ?_⟩
  match p with
  | 1 | 2 | 3 | 4 => exact fun _ => Nat.lt_succ_self _
  | p + 5 => exact fun h => absurd h (Nat.lt_irrefl _)

theorem Climbable.tighter {p : Power} {level : Level} (h : Climbable p level)
    (hlevel : level ≠ .primary) : Climbable p level.tighter := by
  refine ⟨h.1, fun hlt => ?_⟩
  rw [Level.power_tighter hlevel] at hlt ⊢
  exact Nat.lt_succ_of_lt (h.2 (Nat.lt_of_succ_lt hlt))

/-- A derived operand is read behind its sign. -/
theorem unary_complete (hread : CompleteTo (n - 1) read) {t : Token} {e : Expr}
    (hoperator : t.kind = .bang ∨ t.kind = .minus) (inner : Phrase .sign w e)
    (hc : c.size ≤ n) (hw : c.Reads (t :: w) d) (hsettled : Settled .sign d.upcoming.kind)
    (helse : d.upcoming.kind ≠ .elseWord) : (operand read).Yields c (.unary t e) d := by
  have hsize : c.advance.size ≤ n - 1 := Cursor.size_advance_le hc
  have hbehind : d.upcoming.kind.power ≤ Power.sign := by
    rcases hsettled with hle | hle
    · exact hle
    · exact absurd hle (by decide)
  have hright : (read .sign).Yields c.advance e d :=
    hread (by decide) (Nat.le_refl _) hsize inner (hw.tail inner.ne_nil) hbehind helse
  have htoken := hw.current_eq
  rw [Yields, operand_run, htoken]
  rcases hoperator with hkind | hkind
  · rw [hkind]
    exact yields_bind.2 ⟨e, d, hright, rfl⟩
  · rw [hkind]
    exact yields_bind.2 ⟨e, d, hright, rfl⟩

/-- A derived right operand is read behind its operator. -/
theorem binary_complete (hread : CompleteTo (n - 1) read) {level : Level} {t : Token}
    {a b : Expr} (hc : c.size ≤ n) (operator : t.kind ∈ level.operators)
    (right : Phrase level.tighter w b) (hw : c.Reads (t :: w) d)
    (hsettled : Settled level d.upcoming.kind) (helse : d.upcoming.kind ≠ .elseWord) :
    (continuation read a).Yields c (.binary t a b) d := by
  have htoken := hw.current_eq
  have hpower : t.kind.power = level.power := Level.power_of_mem_operators operator
  have hlevel : Level.above t.kind.power = level.tighter :=
    Level.above_power_of_mem_operators operator
  have hsize : c.advance.size ≤ n - 1 := Cursor.size_advance_le hc
  have hsign : level.power < Power.sign := Level.power_lt_sign_of_mem_operators operator
  have hpos : 0 < level.power := by cases level <;> decide
  have hcall : t.kind ≠ .lparen := by
    intro hkind
    rw [← hpower, hkind] at hsign
    exact absurd hsign (by decide)
  have hindex : t.kind ≠ .lbracket := by
    intro hkind
    rw [← hpower, hkind] at hsign
    exact absurd hsign (by decide)
  have hbehind : d.upcoming.kind.power ≤ t.kind.power := by
    rw [hpower]
    rcases hsettled with hle | hle
    · exact hle
    · exact absurd (Nat.lt_of_le_of_lt hle hsign) (by decide)
  have hright : (read t.kind.power).Yields c.advance b d := by
    refine hread ?_ ?_ hsize (hlevel ▸ right) (hw.tail right.ne_nil) hbehind helse
    · rw [hpower]
      exact hpos
    · rw [hpower]
      exact Nat.le_of_lt hsign
  rw [Yields, continuation_run, htoken]
  split
  · next hkind => exact absurd hkind hcall
  · next hkind => exact absurd hkind hindex
  · exact yields_bind.2 ⟨b, d, hright, rfl⟩

/-- Derived arguments are read behind a callee. -/
theorem call_complete (hread : CompleteTo (n - 1) read) {opening closing : Token} {f : Expr}
    {arguments : List Expr} (hc : c.size ≤ n) (hopening : opening.kind = .lparen)
    (list : Listing (Phrase .equality) w arguments) (hclosing : closing.kind = .rparen)
    (hw : c.Reads (opening :: (w ++ [closing])) d) :
    (continuation read f).Yields c (.call opening f arguments) d := by
  have htoken := hw.current_eq
  have hitem : ItemCompleteTo (n - 1) (read .lowest) (Phrase .equality) .rparen :=
    hread.itemComplete (by simp [Kind.starts]) (by decide) (by decide)
  have hlist := items_complete hitem (by decide) list hc (hw.tail (by simp)) hclosing
  rw [Yields, continuation_run, htoken, hopening]
  exact yields_bind.2 ⟨arguments, d, hlist, rfl⟩

/-- A derived key is read behind a collection. -/
theorem index_complete (hread : CompleteTo (n - 1) read) {opening closing : Token}
    {a k : Expr} (hc : c.size ≤ n) (hopening : opening.kind = .lbracket)
    (key : Phrase .equality w k) (hclosing : closing.kind = .rbracket)
    (hw : c.Reads (opening :: (w ++ [closing])) d) :
    (continuation read a).Yields c (.index opening a k) d := by
  have htoken := hw.current_eq
  have hsize : c.advance.size ≤ n - 1 := Cursor.size_advance_le hc
  obtain ⟨m, hm, hlast⟩ := (hw.tail (by simp)).split key.ne_nil (by simp)
  have hkind : m.upcoming.kind = .rbracket := by
    rw [hlast.upcoming_eq, hclosing]
  have hkey := hread.before hsize key hm hkind (by decide) (by decide)
  rw [Yields, continuation_run, htoken, hopening]
  refine yields_bind.2 ⟨k, m, hkey, ?_⟩
  simp [hkind, hlast.eq_of_singleton]

/-- **Climbing up to a derived expression.**  To climb on from a derived
expression is to read its first operand and climb on from there, whatever the
climb leads to, as long as the token behind the expression does not bind into
it. -/
theorem phrase_climbs (horderly : ∀ p, (read p).OrderlyTo (n - 1))
    (hread : CompleteTo (n - 1) read) {p : Power} {level : Level} {w : List Token}
    {e result : Expr} {m : Cursor} (h : Phrase level w e) (hp : 0 < p) (hclimb : Climbable p level)
    (hc : c.size ≤ n) (hw : c.Reads w m) (hsettled : Settled level m.upcoming.kind)
    (helse : m.upcoming.kind ≠ .elseWord)
    (hrest : (climb read p m.size e).Yields m result d) :
    (expressionWith read p).Yields c result d := by
  by_cases hprimary : level = .primary
  · subst hprimary
    exact expressionWith_yields.2 ⟨e, m, primary_complete hread h hc hw helse, hrest⟩
  match h with
  | .binary (t := t) operator left right =>
      obtain ⟨l, hl, hnext⟩ := hw.split left.ne_nil (by simp)
      have htoken : l.upcoming = t := hnext.current_eq
      have hpower : l.upcoming.kind.power = level.power :=
        htoken ▸ Level.power_of_mem_operators operator
      have hsign : level.power < Power.sign := Level.power_lt_sign_of_mem_operators operator
      have hbinds : p < l.upcoming.kind.power := hpower ▸ hclimb.2 hsign
      have hbehind : l.upcoming.kind ≠ .elseWord := by
        intro hkind
        rw [hkind] at hbinds
        exact absurd (Nat.lt_of_le_of_lt hp hbinds) (by decide)
      have hl' := Nat.le_trans hl.size_le hc
      refine phrase_climbs horderly hread left hp hclimb hc hl (Or.inl (Nat.le_of_eq hpower))
        hbehind ?_
      refine climb_yields_step horderly hp hl' hl.size_pos hbinds ?_ hrest
      exact binary_complete hread (Nat.le_trans l.onward_advance.size_le hl') operator right
        hnext hsettled helse
  | .loosen below inner =>
      refine phrase_climbs horderly hread inner hp (hclimb.tighter below) hc hw ?_ helse hrest
      have htighter := Level.power_tighter below
      rcases hsettled with hle | hle
      · exact Or.inl (Nat.le_trans hle (by omega))
      · exact Or.inr (Nat.le_trans hle (by omega))
  | .unary operator inner =>
      exact expressionWith_yields.2
        ⟨_, m, unary_complete hread operator inner hc hw hsettled helse, hrest⟩
  | .call callee hopening list hclosing =>
      obtain ⟨l, hl, hnext⟩ := hw.split callee.ne_nil (by simp)
      have hkind : l.upcoming.kind = .lparen := by
        rw [hnext.upcoming_eq, hopening]
      have hbinds : p < l.upcoming.kind.power := by
        rw [hkind]
        exact Nat.lt_of_le_of_lt hclimb.1 (by decide)
      have hl' := Nat.le_trans hl.size_le hc
      refine phrase_climbs horderly hread callee hp hclimb hc hl (Or.inr (Nat.le_refl _))
        (by simp [hkind]) ?_
      refine climb_yields_step horderly hp hl' hl.size_pos hbinds ?_ hrest
      exact call_complete hread (Nat.le_trans l.onward_advance.size_le hl') hopening list
        hclosing hnext
  | .index collection hopening key hclosing =>
      obtain ⟨l, hl, hnext⟩ := hw.split collection.ne_nil (by simp)
      have hkind : l.upcoming.kind = .lbracket := by
        rw [hnext.upcoming_eq, hopening]
      have hbinds : p < l.upcoming.kind.power := by
        rw [hkind]
        exact Nat.lt_of_le_of_lt hclimb.1 (by decide)
      have hl' := Nat.le_trans hl.size_le hc
      refine phrase_climbs horderly hread collection hp hclimb hc hl (Or.inr (Nat.le_refl _))
        (by simp [hkind]) ?_
      refine climb_yields_step horderly hp hl' hl.size_pos hbinds ?_ hrest
      exact index_complete hread (Nat.le_trans l.onward_advance.size_le hl') hopening key
        hclosing hnext
  | .ident _ | .int _ _ | .string _ | .yes _ | .no _ | .group _ _ _ | .cond _ _ _
  | .condElse _ _ _ _ _ | .function _ _ _ _ _ | .array _ _ _ | .hash _ _ _ =>
      exact absurd rfl hprimary

/-- What is derived is read by the readers of expressions. -/
theorem expression_complete (n : Nat) : CompleteTo n (expression (n + 1)) := by
  induction n with
  | zero =>
      intro p c w e d _ _ hc _ hw _ _
      have hpos := hw.size_pos
      have hle := hw.size_le
      omega
  | succ n ih =>
      intro p c w e d hp hsign hc hphrase hw hpower helse
      have horderly (p : Power) : (expression (n + 1) p).OrderlyTo (n + 1 - 1) :=
        expression_orderly n p
      have hread : CompleteTo (n + 1 - 1) (expression (n + 1)) := ih
      refine phrase_climbs horderly hread hphrase hp (climbable_above hp hsign) hc hw ?_ helse ?_
      · exact Or.inl (Nat.le_trans hpower (Level.le_power_above hsign))
      · obtain ⟨turns, hturns⟩ : ∃ turns, d.size = turns + 1 :=
          ⟨d.size - 1, by have := hw.size_pos; omega⟩
        rw [hturns, climb_yields_succ, if_neg (Nat.not_lt.2 hpower)]
        exact ⟨rfl, rfl⟩

end Grammar
end MonkeyLang
