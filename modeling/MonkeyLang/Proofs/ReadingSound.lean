import MonkeyLang.Proofs.GrammarOrder
import MonkeyLang.Proofs.Reading

/-!
# What is read is derived

A rule that succeeds and records nothing has passed tokens that derive what it
read.  The lemmas follow the rules one by one, each of them given a reader for
the expressions inside of which the same is known.

The one argument that is not local is that of `climb_sound`.  The left operand
built so far has a level, and the token behind it binds no tighter than that
level unless it is a call or an index; so the operator that comes next always
finds a left operand it may stand behind.
-/

namespace MonkeyLang

namespace Cursor.Reads

/-- After an expression that nothing continues the statement ends, with a
semicolon or without one. -/
theorem exists_ending {c m : Cursor} {w : List Token} (h : c.Reads w m)
    (hm : m.upcoming.kind.power ≤ Power.lowest) :
    ∃ z, Ending (m.skip .semicolon).upcoming.kind z ∧ c.Reads (w ++ z) (m.skip .semicolon) := by
  unfold skip
  split
  · next hmark =>
    have hreal : m.advance.current.kind ≠ .eof := by simp [hmark]
    exact ⟨_, Ending.semicolon hmark, h.append (reads_current hreal)⟩
  · refine ⟨[], Ending.omitted ?_, by simpa using h⟩
    rw [Kind.continues_iff]
    exact Nat.not_lt.2 hm

end Cursor.Reads

namespace Grammar

open Rule

/-- What the reader reads where at most `n` tokens are left is derived, and
nothing behind it binds tighter than the power it was read at. -/
def SoundTo (n : Nat) (read : Reader) : Prop :=
  ∀ ⦃p : Power⦄ ⦃c : Cursor⦄ ⦃e : Expr⦄ ⦃d : Cursor⦄, 0 < p → c.size ≤ n →
    (read p).Yields c e d →
      ∃ w, c.Reads w d ∧ Phrase (Level.above p) w e ∧ d.upcoming.kind.power ≤ p

variable {read : Reader} {n : Nat} {c d : Cursor}

/-- An expression at the loosest power, and what stands behind it. -/
theorem SoundTo.lowest (hread : SoundTo n read) {e : Expr} (hc : c.size ≤ n)
    (h : (read .lowest).Yields c e d) :
    ∃ w, c.Reads w d ∧ Phrase .equality w e ∧ d.upcoming.kind.power ≤ Power.lowest :=
  hread (by decide) hc h

/-! ## Statements and blocks -/

theorem bindStatement_sound (hread : SoundTo n read) {s : Stmt} (hc : c.size ≤ n)
    (hlet : c.current.kind = .letWord) (h : (bindStatement read).Yields c s d) :
    ∃ w, c.Reads w d ∧ Sentence d.upcoming.kind w s := by
  obtain ⟨hname, hsign, e, m, he, rfl, rfl⟩ := bindStatement_yields.1 h
  have hsize : c.advance.advance.advance.size ≤ n := by
    simp only [Cursor.size_advance]
    omega
  obtain ⟨w, hw, hphrase, hpower⟩ := hread.lowest hsize he
  obtain ⟨z, hz, hreads⟩ := hw.exists_ending hpower
  refine ⟨_, ?_, Sentence.bind hlet hname hsign hphrase hz⟩
  refine Cursor.reads_cons (by simp [hlet]) ?_
  refine Cursor.reads_cons (c := c.advance) (by simp [hname]) ?_
  exact Cursor.reads_cons (c := c.advance.advance) (by simp [hsign]) hreads

theorem leaveStatement_sound (hread : SoundTo n read) {s : Stmt} (hc : c.size ≤ n)
    (hreturn : c.current.kind = .returnWord) (h : (leaveStatement read).Yields c s d) :
    ∃ w, c.Reads w d ∧ Sentence d.upcoming.kind w s := by
  have hreal : c.current.kind ≠ .eof := by simp [hreturn]
  rw [leaveStatement_yields] at h
  split at h
  · next hbehind =>
    obtain ⟨rfl, rfl⟩ := h
    unfold Cursor.skip
    split
    · next hmark =>
      refine ⟨[c.current, c.upcoming], ?_, Sentence.leaveMarked hreturn hmark⟩
      exact Cursor.reads_cons hreal (Cursor.reads_current (by simp [hmark]))
    · exact ⟨_, Cursor.reads_current hreal, Sentence.leave hreturn hbehind⟩
  · obtain ⟨e, m, he, rfl, rfl⟩ := h
    have hsize : c.advance.size ≤ n := Nat.le_trans c.onward_advance.size_le hc
    obtain ⟨w, hw, hphrase, hpower⟩ := hread.lowest hsize he
    obtain ⟨z, hz, hreads⟩ := hw.exists_ending hpower
    exact ⟨_, Cursor.reads_cons hreal hreads, Sentence.leaveWith hreturn hphrase hz⟩

theorem exprStatement_sound (hread : SoundTo n read) {s : Stmt} (hc : c.size ≤ n)
    (h : (exprStatement read).Yields c s d) :
    ∃ w, c.Reads w d ∧ Sentence d.upcoming.kind w s := by
  obtain ⟨e, m, he, rfl, rfl⟩ := exprStatement_yields.1 h
  obtain ⟨w, hw, hphrase, hpower⟩ := hread.lowest hc he
  obtain ⟨z, hz, hreads⟩ := hw.exists_ending hpower
  cases w with
  | nil => exact absurd rfl hw.ne_nil
  | cons t w =>
      rw [hw.current_eq]
      exact ⟨_, hreads, Sentence.expr hphrase hz⟩

/-- A statement that is read is derived, given the token behind it. -/
theorem statement_sound (hread : SoundTo n read) {s : Stmt} (hc : c.size ≤ n)
    (h : (statement read).Yields c s d) :
    ∃ w, c.Reads w d ∧ Sentence d.upcoming.kind w s := by
  rw [Yields, statement_run] at h
  split at h
  · next hlet => exact bindStatement_sound hread hc hlet h
  · next hreturn => exact leaveStatement_sound hread hc hreturn h
  · exact exprStatement_sound hread hc h

/-- Statements that are read are derived, up to the token they stop at. -/
theorem statements_sound (horderly : ∀ p, (read p).OrderlyTo n) (hread : SoundTo n read)
    {inBlock : Bool} {turns : Nat} {list : List Stmt} (hc : c.size ≤ n)
    (hturns : c.size ≤ turns) (h : (statements read inBlock turns).Yields c list d) :
    ∃ w, c.Clears w d ∧ Body d.current.kind w list ∧ stops inBlock d.current.kind = true := by
  induction turns generalizing c list with
  | zero =>
      obtain ⟨rfl, rfl⟩ := yields_pure.1 h
      have hend : d.current.kind = .eof := by
        rw [Cursor.current_of_size_eq_zero (Nat.le_zero.1 hturns), d.isEnd]
      exact ⟨[], Cursor.Clears.refl d, Body.done, by simp [stops, hend]⟩
  | succ turns ih =>
      rw [statements_yields_succ] at h
      split at h
      · next hstop =>
        obtain ⟨rfl, rfl⟩ := h
        exact ⟨[], Cursor.Clears.refl d, Body.done, hstop⟩
      · next hgo =>
        have hreal : c.current.kind ≠ .eof := by
          intro hend
          simp [stops, hend] at hgo
        have hpos := Cursor.size_pos_of_current hreal
        split at h
        · next hmark =>
          have hsize : c.advance.size ≤ turns := Cursor.size_advance_le hturns
          have hc' := Nat.le_trans c.onward_advance.size_le hc
          obtain ⟨w, hw, hbody, hstop⟩ := ih hc' hsize h
          exact ⟨_, Cursor.Clears.of_reads (Cursor.reads_current hreal) hw,
            Body.semicolon hmark hbody, hstop⟩
        · obtain ⟨found, m, hfound, rest, hrest, rfl⟩ := h
          obtain ⟨s, rfl, hs⟩ := (statement_orderly horderly c hc).of_attempt_yields hfound
          obtain ⟨u, hu, hsentence⟩ := statement_sound hread hc hs
          have hsize : m.advance.size ≤ turns :=
            Cursor.size_advance_le (Nat.le_trans hu.size_le hturns)
          have hmn : m.advance.size ≤ n :=
            Nat.le_trans (Nat.le_trans m.onward_advance.size_le hu.size_le) hc
          obtain ⟨w, hw, hbody, hstop⟩ := ih hmn hsize hrest
          refine ⟨u ++ w, Cursor.Clears.of_reads hu hw, Body.statement ?_ hbody, hstop⟩
          rw [hw.leadingKind_eq]
          exact hsentence

/-- A block that is read is derived. -/
theorem block_sound (horderly : ∀ p, (read p).OrderlyTo n) (hread : SoundTo n read)
    {b : Block} (hc : c.size ≤ n) (hopen : c.current.kind = .lbrace)
    (h : (block read).Yields c b d) : ∃ w, c.Reads w d ∧ Braced w b := by
  obtain ⟨list, hlist, hreal, rfl⟩ := block_yields.1 h
  have hsize := Nat.le_trans c.onward_advance.size_le hc
  obtain ⟨w, hw, hbody, hstop⟩ :=
    statements_sound horderly hread hsize (Nat.le_refl _) hlist
  have hclose : d.current.kind = .rbrace := by
    simpa [stops, hreal] using hstop
  rw [hclose] at hbody
  exact ⟨_, Cursor.reads_cons (by simp [hopen]) (hw.reads hreal), Braced.mk hopen hbody hclose⟩

/-! ## Lists and entries -/

/-- What an item reads where at most `n` tokens are left is derived. -/
def ItemSoundTo {α : Type} (n : Nat) (item : Rule α) (derived : List Token → α → Prop) : Prop :=
  ∀ ⦃c : Cursor⦄ ⦃a : α⦄ ⦃d : Cursor⦄, c.size ≤ n → item.Yields c a d →
    ∃ w, c.Reads w d ∧ derived w a

variable {α : Type} {item : Rule α} {derived : List Token → α → Prop} {close : Kind}

/-- An item before the closing token is a series of one. -/
theorem lastItem_sound (hclose : close ≠ .eof) {start : Cursor} {u : List Token} {a : α}
    {rest : List α} (hu : start.Reads u c) (ha : derived u a)
    (h : c.upcoming.kind = close ∧ rest = [] ∧ d = c.advance) :
    ∃ w z, start.Reads (w ++ [z]) d ∧ z.kind = close ∧ Series derived w (a :: rest) := by
  obtain ⟨hkind, rfl, rfl⟩ := h
  have hreal : c.advance.current.kind ≠ .eof := by simp [hkind, hclose]
  exact ⟨u, c.upcoming, hu.append (Cursor.reads_current hreal), hkind, Series.one ha⟩

/-- An item and those after it are a series before the closing token. -/
theorem moreItems_sound (hitem : ItemSoundTo n item derived) (hclose : close ≠ .eof)
    {turns : Nat} {start : Cursor} {u : List Token} {a : α} {rest : List α}
    (hc : c.size ≤ n) (hu : start.Reads u c) (ha : derived u a)
    (h : (moreItems item close turns).Yields c rest d) :
    ∃ w z, start.Reads (w ++ [z]) d ∧ z.kind = close ∧ Series derived w (a :: rest) := by
  induction turns generalizing start c u a rest with
  | zero =>
      simp only [moreItems, yields_expectNext_bind, yields_pure] at h
      exact lastItem_sound hclose hu ha h
  | succ turns ih =>
      rw [moreItems_yields_succ] at h
      split at h
      · next hcomma =>
        obtain ⟨b, m, hb, others, hothers, rfl⟩ := h
        have hsize : c.advance.advance.size ≤ n := by
          simp only [Cursor.size_advance]
          omega
        obtain ⟨v, hv, hderived⟩ := hitem hsize hb
        have hm := Nat.le_trans hv.size_le hsize
        obtain ⟨w, z, hw, hz, hseries⟩ := ih hm hv hderived hothers
        have hreal : c.advance.current.kind ≠ .eof := by simp [hcomma]
        have hreads := hu.append (Cursor.reads_cons hreal hw)
        refine ⟨u ++ c.upcoming :: w, z, ?_, hz, Series.more ha hcomma hseries⟩
        simpa using hreads
      · exact lastItem_sound hclose hu ha h

/-- A list that is read is derived.  The cursor starts on its opening token. -/
theorem items_sound (hitem : ItemSoundTo (n - 1) item derived) (hclose : close ≠ .eof)
    {list : List α} (hc : c.size ≤ n) (h : (items item close).Yields c list d) :
    ∃ w z, c.advance.Reads (w ++ [z]) d ∧ z.kind = close ∧ Listing derived w list := by
  rw [items_yields] at h
  split at h
  · next hkind =>
    obtain ⟨rfl, rfl⟩ := h
    have hreal : c.advance.current.kind ≠ .eof := by simp [hkind, hclose]
    exact ⟨[], c.upcoming, Cursor.reads_current hreal, hkind, Listing.none⟩
  · obtain ⟨a, m, ha, rest, hrest, rfl⟩ := h
    have hsize : c.advance.size ≤ n - 1 := Cursor.size_advance_le hc
    obtain ⟨u, hu, hderived⟩ := hitem hsize ha
    have hm := Nat.le_trans hu.size_le hsize
    obtain ⟨w, z, hw, hz, hseries⟩ := moreItems_sound hitem hclose hm hu hderived hrest
    exact ⟨w, z, hw, hz, Listing.some hseries⟩

theorem parameter_sound : ItemSoundTo n parameter Named := by
  intro c t d _ h
  obtain ⟨hkind, rfl, rfl⟩ := parameter_yields.1 h
  exact ⟨_, Cursor.reads_current (by simp [hkind]), Named.mk hkind⟩

theorem SoundTo.itemSound (hread : SoundTo n read) :
    ItemSoundTo n (read .lowest) (Phrase .equality) := by
  intro c e d hc h
  obtain ⟨w, hw, hphrase, _⟩ := hread.lowest hc h
  exact ⟨w, hw, hphrase⟩

/-- Entries that are read are derived.  The cursor starts on the token before
them. -/
theorem pairs_sound (hread : SoundTo (n - 1) read) {turns : Nat} {list : List (Expr × Expr)}
    (hc : c.size ≤ n) (hpos : 0 < c.size) (hturns : c.size ≤ turns)
    (h : (pairs read turns).Yields c list d) :
    ∃ w z, c.advance.Reads (w ++ [z]) d ∧ z.kind = .rbrace ∧ Entries w list := by
  induction turns generalizing c list with
  | zero => omega
  | succ turns ih =>
      rw [pairs_yields_succ] at h
      split at h
      · next hkind =>
        obtain ⟨rfl, rfl⟩ := h
        have hreal : c.advance.current.kind ≠ .eof := by simp [hkind]
        exact ⟨[], c.upcoming, Cursor.reads_current hreal, hkind, Entries.none⟩
      · obtain ⟨k, m, hk, hcolon, a, l, ha, h⟩ := h
        have hsize : c.advance.size ≤ n - 1 := Cursor.size_advance_le hc
        obtain ⟨u, hu, hkey, _⟩ := hread.lowest hsize hk
        have hm := hu.size_le
        have hvalueSize : m.advance.advance.size ≤ n - 1 := by
          simp only [Cursor.size_advance] at *
          omega
        obtain ⟨v, hv, hvalue, _⟩ := hread.lowest hvalueSize ha
        have hl := hv.size_le
        have hlpos := hv.size_pos
        have hcolonReal : m.advance.current.kind ≠ .eof := by simp [hcolon]
        have hboth : c.advance.Reads (u ++ m.upcoming :: v) l :=
          hu.append (Cursor.reads_cons hcolonReal hv)
        simp only [Cursor.size_advance] at hm hl
        split at h
        · next hkind =>
          obtain ⟨rest, hrest, rfl⟩ := h
          obtain ⟨more, rfl⟩ : ∃ more, turns = more + 1 := ⟨turns - 1, by omega⟩
          rw [pairs_yields_succ, if_pos hkind] at hrest
          obtain ⟨rfl, rfl⟩ := hrest
          have hreal : l.advance.current.kind ≠ .eof := by simp [hkind]
          have hreads := hboth.append (Cursor.reads_current hreal)
          exact ⟨_, l.upcoming, hreads, hkind, Entries.last hkey hcolon hvalue⟩
        · obtain ⟨hcomma, rest, hrest, rfl⟩ := h
          have hcommaReal : l.advance.current.kind ≠ .eof := by simp [hcomma]
          have hlast := Cursor.size_pos_of_current hcommaReal
          obtain ⟨w, z, hw, hz, hentries⟩ := ih (by rw [Cursor.size_advance]; omega) hlast
            (by rw [Cursor.size_advance]; omega) hrest
          refine ⟨_, z, ?_, hz, Entries.more hkey hcolon hvalue hcomma hentries⟩
          have hreads := hboth.append (Cursor.reads_cons hcommaReal hw)
          simpa using hreads

/-! ## Expressions -/

theorem conditional_sound (horderly : ∀ p, (read p).OrderlyTo (n - 1))
    (hread : SoundTo (n - 1) read) {e : Expr} (hc : c.size ≤ n)
    (hif : c.current.kind = .ifWord) (h : (conditional read).Yields c e d) :
    ∃ w, c.Reads w d ∧ Phrase .primary w e := by
  obtain ⟨test, m, htest, hopen, yes, l, hyes, h⟩ := conditional_yields.1 h
  have hsize : c.advance.size ≤ n - 1 := Cursor.size_advance_le hc
  obtain ⟨u, hu, hcondition, _⟩ := hread.lowest hsize htest
  have hm := Nat.le_trans (Nat.le_trans m.onward_advance.size_le hu.size_le) hsize
  obtain ⟨v, hv, hbranch⟩ := block_sound horderly hread hm hopen hyes
  have hstart : c.current.kind ≠ .eof := by simp [hif]
  have hboth := Cursor.reads_cons hstart (hu.append hv)
  split at h
  · next helse =>
    obtain ⟨hopenElse, no, hno, rfl⟩ := h
    have hl : l.advance.advance.size ≤ n - 1 := by
      have := Nat.le_trans hv.size_le hm
      simp only [Cursor.size_advance]
      omega
    obtain ⟨w, hw, hotherBranch⟩ := block_sound horderly hread hl hopenElse hno
    have helseReal : l.advance.current.kind ≠ .eof := by simp [helse]
    have hreads := hboth.append (Cursor.reads_cons helseReal hw)
    exact ⟨_, by simpa using hreads, Phrase.condElse hif hcondition hbranch helse hotherBranch⟩
  · obtain ⟨rfl, rfl⟩ := h
    exact ⟨_, hboth, Phrase.cond hif hcondition hbranch⟩

theorem function_sound (horderly : ∀ p, (read p).OrderlyTo (n - 1))
    (hread : SoundTo (n - 1) read) {e : Expr} (hc : c.size ≤ n)
    (hfn : c.current.kind = .fnWord) (h : (function read).Yields c e d) :
    ∃ w, c.Reads w d ∧ Phrase .primary w e := by
  obtain ⟨hopen, parameters, m, hparameters, hbrace, body, hbody, rfl⟩ := function_yields.1 h
  have hsize : c.advance.size ≤ n - 1 := Cursor.size_advance_le hc
  obtain ⟨u, z, hu, hz, hlist⟩ := items_sound parameter_sound (by decide) hsize hparameters
  have hm : m.advance.size ≤ n - 1 := by
    have hle := Nat.le_trans hu.size_le c.advance.onward_advance.size_le
    exact Nat.le_trans (Nat.le_trans m.onward_advance.size_le hle) hsize
  obtain ⟨v, hv, hblock⟩ := block_sound horderly hread hm hbrace hbody
  have hopenReal : c.advance.current.kind ≠ .eof := by simp [hopen]
  have hreads := Cursor.reads_cons (by simp [hfn]) (Cursor.reads_cons hopenReal (hu.append hv))
  exact ⟨_, by simpa using hreads, Phrase.function hfn hopen hlist hz hblock⟩

/-- A sign and the expression behind it are derived. -/
theorem unary_sound (hread : SoundTo (n - 1) read) {e : Expr} (hc : c.size ≤ n)
    (hoperator : c.current.kind = .bang ∨ c.current.kind = .minus)
    (h : (read .sign >>= fun right => pure (Expr.unary c.current right)).Yields c.advance e d) :
    ∃ w, c.Reads w d ∧ Phrase .sign w e ∧ Settled .sign d.upcoming.kind := by
  obtain ⟨right, m, hright, hpure⟩ := yields_bind.1 h
  obtain ⟨rfl, rfl⟩ := yields_pure.1 hpure
  obtain ⟨w, hw, hphrase, hpower⟩ := hread (by decide) (Cursor.size_advance_le hc) hright
  have hreal : c.current.kind ≠ .eof := by rcases hoperator with h | h <;> simp [h]
  exact ⟨_, Cursor.reads_cons hreal hw, Phrase.unary hoperator hphrase, Or.inl hpower⟩

/-- What an expression starts with, signs apart, is a primary expression. -/
theorem primary_sound (horderly : ∀ p, (read p).OrderlyTo (n - 1))
    (hread : SoundTo (n - 1) read) {e : Expr} (hc : c.size ≤ n)
    (hbang : c.current.kind ≠ .bang) (hminus : c.current.kind ≠ .minus)
    (h : (operand read).Yields c e d) : ∃ w, c.Reads w d ∧ Phrase .primary w e := by
  rw [Yields, operand_run] at h
  cases hkind : c.current.kind
  all_goals simp only [hkind] at h
  case ident =>
    cases h
    exact ⟨_, Cursor.reads_current (by simp [hkind]), Phrase.ident hkind⟩
  case int =>
    cases hvalue : c.current.literal.toInt64? with
    | none =>
        rw [hvalue] at h
        cases h
    | some value =>
        rw [hvalue] at h
        cases h
        exact ⟨_, Cursor.reads_current (by simp [hkind]), Phrase.int hkind hvalue⟩
  case string =>
    cases h
    exact ⟨_, Cursor.reads_current (by simp [hkind]), Phrase.string hkind⟩
  case trueWord =>
    cases h
    exact ⟨_, Cursor.reads_current (by simp [hkind]), Phrase.yes hkind⟩
  case falseWord =>
    cases h
    exact ⟨_, Cursor.reads_current (by simp [hkind]), Phrase.no hkind⟩
  case bang => exact absurd hkind hbang
  case minus => exact absurd hkind hminus
  case lparen =>
    obtain ⟨inner, m, hinner, hclose⟩ := yields_bind.1 h
    simp only [yields_expectNext_bind, yields_pure] at hclose
    obtain ⟨hz, rfl, rfl⟩ := hclose
    obtain ⟨w, hw, hphrase, _⟩ := hread.lowest (Cursor.size_advance_le hc) hinner
    have hreal : m.advance.current.kind ≠ .eof := by simp [hz]
    exact ⟨_, Cursor.reads_cons (by simp [hkind]) (hw.append (Cursor.reads_current hreal)),
      Phrase.group hkind hphrase hz⟩
  case ifWord => exact conditional_sound horderly hread hc hkind h
  case fnWord => exact function_sound horderly hread hc hkind h
  case lbracket =>
    obtain ⟨elements, m, helements, hpure⟩ := yields_bind.1 h
    obtain ⟨rfl, rfl⟩ := yields_pure.1 hpure
    obtain ⟨w, z, hw, hz, hlist⟩ := items_sound hread.itemSound (by decide) hc helements
    exact ⟨_, Cursor.reads_cons (by simp [hkind]) hw, Phrase.array hkind hlist hz⟩
  case lbrace =>
    obtain ⟨entries, m, hentries, hpure⟩ := yields_bind.1 h
    obtain ⟨rfl, rfl⟩ := yields_pure.1 hpure
    have hreal : c.current.kind ≠ .eof := by simp [hkind]
    obtain ⟨w, z, hw, hz, hlist⟩ :=
      pairs_sound hread hc (Cursor.size_pos_of_current hreal) (Nat.le_refl _) hentries
    exact ⟨_, Cursor.reads_cons hreal hw, Phrase.hash hkind hlist hz⟩
  all_goals cases h

/-- What an expression starts with is derived, and binds at least like a sign. -/
theorem operand_sound (horderly : ∀ p, (read p).OrderlyTo (n - 1))
    (hread : SoundTo (n - 1) read) {e : Expr} (hc : c.size ≤ n)
    (h : (operand read).Yields c e d) :
    ∃ w level, c.Reads w d ∧ Phrase level w e ∧ Level.sign.power ≤ level.power ∧
      Settled level d.upcoming.kind := by
  by_cases hoperator : c.current.kind = .bang ∨ c.current.kind = .minus
  · have hsign : (read .sign >>= fun right => pure (Expr.unary c.current right)).Yields
        c.advance e d := by
      rw [Yields, operand_run] at h
      rcases hoperator with hkind | hkind
      · simp only [hkind] at h
        exact h
      · simp only [hkind] at h
        exact h
    obtain ⟨w, hw, hphrase, hsettled⟩ := unary_sound hread hc hoperator hsign
    exact ⟨w, .sign, hw, hphrase, Nat.le_refl _, hsettled⟩
  · obtain ⟨hbang, hminus⟩ := not_or.1 hoperator
    obtain ⟨w, hw, hphrase⟩ := primary_sound horderly hread hc hbang hminus h
    exact ⟨w, .primary, hw, hphrase, by decide, Or.inr (by decide)⟩

section Continuation

variable {start : Cursor} {u : List Token} {level : Level} {left e : Expr}

/-- A callee and its arguments are derived together. -/
theorem call_sound (hread : SoundTo (n - 1) read) (hc : c.size ≤ n) (hu : start.Reads u c)
    (hleft : Phrase level u left) (hsettled : Settled level c.upcoming.kind)
    (hkind : c.upcoming.kind = .lparen)
    (h : (items (read .lowest) .rparen >>= fun arguments =>
      pure (Expr.call c.upcoming left arguments)).Yields c.advance e d) :
    ∃ w, start.Reads w d ∧ Phrase .applied w e := by
  obtain ⟨arguments, m, harguments, hpure⟩ := yields_bind.1 h
  obtain ⟨rfl, rfl⟩ := yields_pure.1 hpure
  have hadvance : c.advance.size ≤ n := Nat.le_trans c.onward_advance.size_le hc
  have hreal : c.advance.current.kind ≠ .eof := by simp [hkind]
  obtain ⟨w, z, hw, hz, hlist⟩ := items_sound hread.itemSound (by decide) hadvance harguments
  have hcallee : Phrase .applied u left := hleft.callee (hkind ▸ hsettled)
  exact ⟨_, hu.append (Cursor.reads_cons hreal hw), Phrase.call hcallee hkind hlist hz⟩

/-- A collection and its key are derived together. -/
theorem index_sound (hread : SoundTo (n - 1) read) (hc : c.advance.size ≤ n)
    (hu : start.Reads u c) (hleft : Phrase level u left)
    (hsettled : Settled level c.upcoming.kind) (hkind : c.upcoming.kind = .lbracket)
    (h : (do
      let key ← read .lowest
      expectNext .rbracket
      pure (Expr.index c.upcoming left key) : Rule Expr).Yields c.advance.advance e d) :
    ∃ w, start.Reads w d ∧ Phrase .applied w e := by
  obtain ⟨key, m, hkey, hclose⟩ := yields_bind.1 h
  simp only [yields_expectNext_bind, yields_pure] at hclose
  obtain ⟨hz, rfl, rfl⟩ := hclose
  obtain ⟨w, hw, hphrase, _⟩ := hread.lowest (Cursor.size_advance_le hc) hkey
  have hreal : c.advance.current.kind ≠ .eof := by simp [hkind]
  have hcloseReal : m.advance.current.kind ≠ .eof := by simp [hz]
  have hcollection : Phrase .applied u left := hleft.collection (hkind ▸ hsettled)
  exact ⟨_, hu.append (Cursor.reads_cons hreal (hw.append (Cursor.reads_current hcloseReal))),
    Phrase.index hcollection hkind hphrase hz⟩

/-- An operator and its two operands are derived together. -/
theorem binary_sound (hread : SoundTo (n - 1) read) {outer : Level} (hc : c.advance.size ≤ n)
    (hu : start.Reads u c) (hleft : Phrase level u left)
    (hsettled : Settled level c.upcoming.kind) (hmem : c.upcoming.kind ∈ outer.operators)
    (hpos : 0 < c.upcoming.kind.power) (hreal : c.upcoming.kind ≠ .eof)
    (h : (read c.upcoming.kind.power >>= fun right =>
      pure (Expr.binary c.upcoming left right)).Yields c.advance.advance e d) :
    ∃ w, start.Reads w d ∧ Phrase outer w e ∧ d.upcoming.kind.power ≤ outer.power := by
  obtain ⟨right, m, hright, hpure⟩ := yields_bind.1 h
  obtain ⟨rfl, rfl⟩ := yields_pure.1 hpure
  have hpower : c.upcoming.kind.power = outer.power := Level.power_of_mem_operators hmem
  have hlevel : Level.above c.upcoming.kind.power = outer.tighter :=
    Level.above_power_of_mem_operators hmem
  obtain ⟨v, hv, hphrase, hbehind⟩ := hread hpos (Cursor.size_advance_le hc) hright
  have hlooser : Phrase outer u left := hleft.leftOperand hsettled hmem
  exact ⟨_, hu.append (Cursor.reads_cons hreal hv), Phrase.binary hmem hlooser (hlevel ▸ hphrase),
    hpower ▸ hbehind⟩

/-- A left operand and what continues it are derived together, at a level that
suits the power read at. -/
theorem continuation_sound (hread : SoundTo (n - 1) read) {p : Power} (hc : c.size ≤ n)
    (hu : start.Reads u c) (hleft : Phrase level u left)
    (hsettled : Settled level c.upcoming.kind) (hp : 0 < p)
    (hbinds : p < c.upcoming.kind.power)
    (h : (continuation read left).Yields c.advance e d) :
    ∃ w outer, start.Reads w d ∧ Phrase outer w e ∧ (Level.above p).power ≤ outer.power ∧
      Settled outer d.upcoming.kind := by
  have hlowest : Power.lowest < c.upcoming.kind.power := Nat.lt_of_le_of_lt hp hbinds
  have hreal : c.upcoming.kind ≠ .eof := by
    intro hend
    rw [hend] at hlowest
    exact absurd hlowest (by decide)
  have happlied : (Level.above p).power ≤ Level.applied.power :=
    Nat.le_trans (Level.power_above_le_sign p) (by decide)
  have hadvance : c.advance.size ≤ n := Nat.le_trans c.onward_advance.size_le hc
  rw [Yields, continuation_run, c.current_advance] at h
  split at h
  · next hkind =>
    obtain ⟨w, hw, hphrase⟩ := call_sound hread hc hu hleft hsettled hkind h
    exact ⟨w, .applied, hw, hphrase, happlied, Or.inr (Nat.le_refl _)⟩
  · next hkind =>
    obtain ⟨w, hw, hphrase⟩ := index_sound hread hadvance hu hleft hsettled hkind h
    exact ⟨w, .applied, hw, hphrase, happlied, Or.inr (Nat.le_refl _)⟩
  · next hcall hindex =>
    obtain ⟨outer, hmem⟩ := Level.exists_mem_operators hlowest hcall hindex
    obtain ⟨w, hw, hphrase, hbehind⟩ :=
      binary_sound hread hadvance hu hleft hsettled hmem (Nat.lt_trans hp hbinds) hreal h
    refine ⟨w, outer, hw, hphrase, ?_, Or.inl hbehind⟩
    rw [← Level.power_of_mem_operators hmem]
    exact Level.power_above_le hp hbinds

end Continuation

/-- **Climbing.**  Reading on from a left operand that is derived, and that the
token behind it does not bind into, gives an expression that is derived. -/
theorem climb_sound (horderly : ∀ p, (read p).OrderlyTo (n - 1))
    (hread : SoundTo (n - 1) read) {start : Cursor} {turns : Nat}
    {p : Power} {u : List Token} {level : Level} {left e : Expr} (hp : 0 < p)
    (hc : c.size ≤ n) (hturns : c.size ≤ turns) (hu : start.Reads u c)
    (hleft : Phrase level u left) (hlevel : (Level.above p).power ≤ level.power)
    (hsettled : Settled level c.upcoming.kind)
    (h : (climb read p turns left).Yields c e d) :
    ∃ w, start.Reads w d ∧ Phrase (Level.above p) w e ∧ d.upcoming.kind.power ≤ p := by
  induction turns generalizing c u level left with
  | zero =>
      have hpos := hu.size_pos
      omega
  | succ turns ih =>
      rw [climb_yields_succ] at h
      split at h
      · next hbinds =>
        obtain ⟨larger, m, hlarger, hrest⟩ := h
        obtain ⟨w, outer, hw, hphrase, houter, hsettled'⟩ :=
          continuation_sound hread hc hu hleft hsettled hp hbinds hlarger
        have hadvance := Nat.le_trans c.onward_advance.size_le hc
        have hm := ((continuation_orderly horderly left _ hadvance).onward_of_yields
          hlarger).size_le
        rw [Cursor.size_advance] at hm
        exact ih (by omega) (by omega) hw hphrase houter hsettled' hrest
      · next hstop =>
        obtain ⟨rfl, rfl⟩ := h
        exact ⟨u, hu, hleft.loosen_to hlevel, Nat.not_lt.1 hstop⟩

/-- What the readers of expressions read is derived. -/
theorem expression_sound (n : Nat) : SoundTo n (expression (n + 1)) := by
  induction n with
  | zero =>
      intro p c e d _ hc h
      rw [Yields, expression_run_of_size_eq_zero (Nat.le_zero.1 hc)] at h
      cases h
  | succ n ih =>
      intro p c e d hp hc h
      have horderly (p : Power) : (expression (n + 1) p).OrderlyTo (n + 1 - 1) :=
        expression_orderly n p
      have hread : SoundTo (n + 1 - 1) (expression (n + 1)) := ih
      obtain ⟨left, m, hleft, hclimb⟩ := expressionWith_yields.1 h
      obtain ⟨u, level, hu, hphrase, hlevel, hsettled⟩ :=
        operand_sound horderly hread hc hleft
      have hm := Nat.le_trans hu.size_le hc
      exact climb_sound horderly hread hp hm (Nat.le_refl _) hu hphrase
        (Nat.le_trans (Level.power_above_le_sign p) hlevel) hsettled hclimb

end Grammar
end MonkeyLang
