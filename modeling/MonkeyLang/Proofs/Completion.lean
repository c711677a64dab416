import MonkeyLang.Proofs.ContinuedScan
import MonkeyLang.Proofs.FirstError
import MonkeyLang.Proofs.ParseExact

/-!
# Completing what was cut

When the first error is found where the source was cut, everything before the cut
was read, and only the rules that were open there are left to be satisfied.  Each of
them can be, by a few tokens of its own: an operand, a closing delimiter, an empty
block.  `Completable` says that some tokens can follow, whatever their texts and
places, as long as they have the right kinds.

The lemmas follow the rules.  A rule that stumbles does so in a rule it calls, and
then the completion of the inner rule is followed by its own; or it misses a token,
and then that token begins the completion.

A cut may go through a string literal.  Then the error must be that the literal is
illegal as an operand: closed, it becomes an operand.
-/

namespace MonkeyLang

/-- Tokens of these kinds may go on where the source was cut: a string literal that
was open comes first. -/
structure Loose.Admits (loose : Loose) (kinds : List Kind) : Prop where
  completing : ∀ kind ∈ kinds, kind ∈ Kind.completing
  closing : loose.tokens ≠ [] → kinds.head? = some .string

/-- The tokens before the cut become what is to be derived when tokens of some kinds
follow. -/
def Completable (loose : Loose) (u : List Token) (derived : List Token → Prop) : Prop :=
  ∃ kinds, loose.Admits kinds ∧ ∀ x : List Token, x.map Token.kind = kinds → derived (u ++ x)

/-- The error is one of those a completion mends: it stands where the source ends,
and if that is an open string literal, the literal itself is the fault. -/
structure SyntaxError.Mendable (loose : Loose) (e : SyntaxError) : Prop where
  ends : e.token.endsSource = true
  isOpen : loose.tokens ≠ [] → ∃ literal, e.fault = .illegal literal

namespace SyntaxError.Mendable

variable {loose : Loose} {d : Cursor} {v : List Token} {fault : Fault}

/-- Nothing stands between a mendable error and the cut. -/
theorem at_cut (h : Mendable loose ⟨fault, d.current⟩) (hcut : d.Cut loose v) : v = [] :=
  hcut.eq_nil h.ends

/-- A token that is missed is missed at the very end of the source. -/
theorem closed {wanted found : Kind} {t : Token}
    (h : Mendable loose ⟨.expected wanted found, t⟩) : loose.tokens = [] := by
  cases htokens : loose.tokens with
  | nil => rfl
  | cons s rest =>
      obtain ⟨literal, hfault⟩ := h.isOpen (by simp [htokens])
      cases hfault

end SyntaxError.Mendable

namespace Completable

variable {loose : Loose} {u v : List Token} {derived larger : List Token → Prop}

/-- What is completed can stand inside something larger: behind tokens that were read
before, and before more tokens of the completion. -/
theorem wrap (h : Completable loose u derived) (before : List Token) (after : List Kind)
    (hafter : ∀ kind ∈ after, kind ∈ Kind.completing)
    (hlarger : ∀ w x, derived w → x.map Token.kind = after → larger (before ++ (w ++ x))) :
    Completable loose (before ++ u) larger := by
  obtain ⟨kinds, hadmits, hderived⟩ := h
  refine ⟨kinds ++ after, ⟨?_, ?_⟩, ?_⟩
  · intro kind hkind
    rcases List.mem_append.1 hkind with hkind | hkind
    · exact hadmits.completing kind hkind
    · exact hafter kind hkind
  · intro hne
    simp [List.head?_append, hadmits.closing hne]
  · intro x hx
    obtain ⟨y, z, rfl, hy, hz⟩ := List.map_eq_append_iff.1 hx
    have hwhole := hlarger (u ++ y) z (hderived y hy) hz
    simpa only [List.append_assoc] using hwhole

/-- The same with nothing of its own to add. -/
theorem behind (h : Completable loose u derived) (before : List Token)
    (hlarger : ∀ w, derived w → larger (before ++ w)) :
    Completable loose (before ++ u) larger := by
  refine h.wrap before [] (by simp) fun w x hw hx => ?_
  obtain rfl := List.map_eq_nil_iff.1 hx
  rw [List.append_nil]
  exact hlarger w hw

theorem mono (h : Completable loose u derived) (hlarger : ∀ w, derived w → larger w) :
    Completable loose u larger :=
  h.behind [] hlarger

/-- Tokens that are missed at the very end of the source follow there. -/
theorem missed (hclosed : loose.tokens = []) (kinds : List Kind)
    (hkinds : ∀ kind ∈ kinds, kind ∈ Kind.completing)
    (h : ∀ x : List Token, x.map Token.kind = kinds → derived (u ++ x)) :
    Completable loose u derived :=
  ⟨kinds, ⟨hkinds, fun hne => absurd hclosed hne⟩, h⟩

/-- One token is added behind what is completed. -/
theorem wrapToken (h : Completable loose u derived) (before : List Token) (kind : Kind)
    (hkind : kind ∈ Kind.completing)
    (hlarger : ∀ w z, derived w → z.kind = kind → larger (before ++ (w ++ [z]))) :
    Completable loose (before ++ u) larger := by
  refine h.wrap before [kind] (by simpa using hkind) fun w x hw hx => ?_
  obtain ⟨z, rfl, hz⟩ := List.map_eq_singleton_iff.1 hx
  exact hlarger w z hw hz

/-- One token is missed. -/
theorem missedToken (hclosed : loose.tokens = []) (kind : Kind) (hkind : kind ∈ Kind.completing)
    (h : ∀ z : Token, z.kind = kind → derived (u ++ [z])) : Completable loose u derived := by
  refine missed hclosed [kind] (by simpa using hkind) fun x hx => ?_
  obtain ⟨z, rfl, hz⟩ := List.map_eq_singleton_iff.1 hx
  exact h z hz

end Completable

/-! ## The pieces of completions -/

/-- A string literal is an expression of every level. -/
theorem exists_phrase_of_string {x : List Token} (level : Level)
    (h : x.map Token.kind = [.string]) : ∃ e, Phrase level x e := by
  obtain ⟨t, rfl, ht⟩ := List.map_eq_singleton_iff.1 h
  refine ⟨.string t, (Phrase.string ht).loosen_to ?_⟩
  cases level <;> decide

/-- Two braces are a block. -/
theorem exists_braced_of_braces {x : List Token}
    (h : x.map Token.kind = [.lbrace, .rbrace]) : ∃ b, Braced x b := by
  obtain ⟨opening, rest, rfl, hopening, hrest⟩ := List.map_eq_cons_iff.1 h
  obtain ⟨closing, rfl, hclosing⟩ := List.map_eq_singleton_iff.1 hrest
  exact ⟨_, Braced.mk hopening Body.done hclosing⟩

namespace Completable

variable {loose : Loose} {u : List Token} {derived larger : List Token → Prop}

/-- A block is added behind what is completed. -/
theorem wrapBlock (h : Completable loose u derived) (before : List Token)
    (hlarger : ∀ w x b, derived w → Braced x b → larger (before ++ (w ++ x))) :
    Completable loose (before ++ u) larger := by
  refine h.wrap before [.lbrace, .rbrace] (by decide) fun w x hw hx => ?_
  obtain ⟨b, hb⟩ := exists_braced_of_braces hx
  exact hlarger w x b hw hb

/-- A block is missed. -/
theorem missedBlock (hclosed : loose.tokens = [])
    (h : ∀ x b, Braced x b → derived (u ++ x)) : Completable loose u derived := by
  refine missed hclosed [.lbrace, .rbrace] (by decide) fun x hx => ?_
  obtain ⟨b, hb⟩ := exists_braced_of_braces hx
  exact h x b hb

/-- An expression is one of every looser level. -/
theorem loosen {level outer : Level} (h : Completable loose u fun w => ∃ e, Phrase level w e)
    (hlevel : outer.power ≤ level.power) :
    Completable loose u fun w => ∃ e, Phrase outer w e := by
  refine h.mono ?_
  rintro w ⟨e, he⟩
  exact ⟨e, he.loosen_to hlevel⟩

end Completable

/-- What a delimiter closes. -/
def Closed (close : Kind) (derived : List Token → Prop) (w : List Token) : Prop :=
  ∃ v z, w = v ++ [z] ∧ z.kind = close ∧ derived v

/-- Where nothing is left before the cut, a string literal is an operand. -/
theorem completable_operand (loose : Loose) (level : Level) :
    Completable loose [] fun w => ∃ e, Phrase level w e :=
  ⟨[.string], ⟨by decide, fun _ => rfl⟩, fun _ hx => exists_phrase_of_string level hx⟩

/-- A token behind which a `return` has no value. -/
def Kind.endsReturn (kind : Kind) : Prop :=
  kind = .semicolon ∨ kind = .rbrace ∨ kind = .eof

/-- A statement stays one before another token that goes on with it no more than the
old one did, and ends a `return` where that one did. -/
theorem Sentence.before {behind other : Kind} {w : List Token} {s : Stmt}
    (h : Sentence behind w s) (hcontinues : ¬ other.continues)
    (hreturn : behind.endsReturn → other.endsReturn) : Sentence other w s := by
  have hending {z : List Token} (hz : Ending behind z) : Ending other z := by
    cases hz with
    | omitted _ => exact Ending.omitted hcontinues
    | semicolon h => exact Ending.semicolon h
  cases h with
  | bind h hname hsign value ending => exact Sentence.bind h hname hsign value (hending ending)
  | leave h hbehind => exact Sentence.leave h (hreturn hbehind)
  | leaveMarked h hmark => exact Sentence.leaveMarked h hmark
  | leaveWith h value ending => exact Sentence.leaveWith h value (hending ending)
  | expr value ending => exact Sentence.expr value (hending ending)

/-- The tokens are a statement before whatever does not go on with it. -/
def Clause (w : List Token) : Prop :=
  ∃ s, ∀ behind : Kind, ¬ behind.continues → Sentence behind w s

namespace Clause

variable {t name sign : Token} {w : List Token} {e : Expr}

theorem bind (h : t.kind = .letWord) (hname : name.kind = .ident) (hsign : sign.kind = .assign)
    (value : Phrase .equality w e) : Clause (t :: name :: sign :: w) := by
  refine ⟨.bind t name e, fun behind hbehind => ?_⟩
  simpa using Sentence.bind h hname hsign value (Ending.omitted hbehind)

theorem leave (h : t.kind = .returnWord) (value : Phrase .equality w e) : Clause (t :: w) := by
  refine ⟨.leave t (some e), fun behind hbehind => ?_⟩
  simpa using Sentence.leaveWith h value (Ending.omitted hbehind)

theorem expr (value : Phrase .equality w e) : Clause w := by
  cases w with
  | nil => exact absurd rfl value.ne_nil
  | cons t w =>
      refine ⟨.expr t e, fun behind hbehind => ?_⟩
      simpa using Sentence.expr value (Ending.omitted hbehind)

/-- Alone it is the whole of a body. -/
theorem body (h : Clause w) {behind : Kind} (hbehind : ¬ behind.continues) :
    ∃ list, Body behind w list := by
  obtain ⟨s, hs⟩ := h
  have hfirst : Sentence (leadingKind [] behind) w s := hs behind hbehind
  exact ⟨[s], by simpa using Body.statement hfirst Body.done⟩

end Clause

/-- The statements before the end of a source are those before a closing brace. -/
theorem Body.before_brace {w : List Token} {list : List Stmt} (h : Body .eof w list) :
    Body .rbrace w list := by
  match h with
  | .done => exact Body.done
  | .semicolon h rest => exact Body.semicolon h rest.before_brace
  | .statement (w := []) first rest =>
      exact Body.statement (first.before (by decide) fun _ => Or.inr (Or.inl rfl)) rest.before_brace
  | .statement (w := _ :: _) first rest => exact Body.statement first rest.before_brace

namespace Grammar

open Rule

/-- A reader, where at most `n` tokens are left: what it reads is derived, and where it
stumbles over a mendable error what it has read can be completed. -/
structure Resumes (loose : Loose) (n : Nat) (read : Reader) : Prop where
  orderly : ∀ p, (read p).OrderlyTo n
  sound : SoundTo n read
  completes : ∀ ⦃p : Power⦄ ⦃c : Cursor⦄ ⦃u : List Token⦄ ⦃e : SyntaxError⦄, 0 < p → c.size ≤ n →
    c.Cut loose u → e.Mendable loose → (read p).Stumbles c e →
      Completable loose u fun w => ∃ x, Phrase (Level.above p) w x

/-- The same of an item of a list. -/
structure ItemResumes {α : Type} (loose : Loose) (n : Nat) (item : Rule α)
    (derived : List Token → α → Prop) : Prop where
  sound : ItemSoundTo n item derived
  legal : ∀ w a, derived w a → Legal w
  completes : ∀ ⦃c : Cursor⦄ ⦃u : List Token⦄ ⦃e : SyntaxError⦄, c.size ≤ n → c.Cut loose u →
    e.Mendable loose → item.Stumbles c e → Completable loose u fun w => ∃ a, derived w a

variable {loose : Loose} {read : Reader} {n : Nat} {c : Cursor} {u v : List Token}
  {e : SyntaxError}

namespace Resumes

theorem lowest (h : Resumes loose n read) (hc : c.size ≤ n) (hcut : c.Cut loose u)
    (he : e.Mendable loose) (hstumbles : (read .lowest).Stumbles c e) :
    Completable loose u fun w => ∃ x, Phrase .equality w x :=
  h.completes (by decide) hc hcut he hstumbles

theorem item (h : Resumes loose n read) :
    ItemResumes loose n (read .lowest) (Phrase .equality) where
  sound := h.sound.itemSound
  legal := fun _ _ hphrase => hphrase.legal
  completes := fun _ _ _ hc hcut he hstumbles => h.lowest hc hcut he hstumbles

/-- What a reader has read stands before the cut. -/
theorem passes (h : Resumes loose n read) {x : Expr} {m : Cursor} (hc : c.size ≤ n)
    (hcut : c.Cut loose u) (hread : (read .lowest).Yields c x m) :
    ∃ w v, u = w ++ v ∧ c.Reads w m ∧ Phrase .equality w x ∧ m.advance.Cut loose v := by
  obtain ⟨w, hw, hphrase, _⟩ := h.sound.lowest hc hread
  obtain ⟨v, hv, hcut'⟩ := hcut.reads hw hphrase.legal
  exact ⟨w, v, hv, hw, hphrase, hcut'⟩

end Resumes

/-! ## Statements and blocks -/

theorem bindStatement_completes (h : Resumes loose n read) (hc : c.size ≤ n)
    (hcut : c.Cut loose u) (he : e.Mendable loose) (hlet : c.current.kind = .letWord)
    (hstumbles : (bindStatement read).Stumbles c e) :
    Completable loose u Clause := by
  obtain ⟨v, rfl, hname⟩ := hcut.exists_cons hlet rfl
  rw [bindStatement_stumbles] at hstumbles
  split at hstumbles
  · next hident =>
    obtain ⟨v, rfl, hsign⟩ := hname.exists_upcoming hident rfl
    split at hstumbles
    · next hassign =>
      obtain ⟨v, rfl, hvalue⟩ := hsign.exists_upcoming hassign rfl
      have hsize : c.advance.advance.advance.size ≤ n := by
        simp only [Cursor.size_advance]
        omega
      refine (h.lowest hsize hvalue he hstumbles).behind
        [c.current, c.upcoming, c.advance.upcoming] ?_
      rintro w ⟨x, hx⟩
      exact Clause.bind hlet hident hassign hx
    · subst hstumbles
      obtain rfl := he.at_cut hsign
      refine Completable.missed he.closed [.assign, .string] (by decide) fun x hx => ?_
      obtain ⟨sign, value, rfl, hassign, hstring⟩ := List.map_eq_cons_iff.1 hx
      obtain ⟨y, hy⟩ := exists_phrase_of_string .equality hstring
      exact Clause.bind hlet hident hassign hy
  · subst hstumbles
    obtain rfl := he.at_cut hname
    refine Completable.missed he.closed [.ident, .assign, .string] (by decide) fun x hx => ?_
    obtain ⟨name, rest, rfl, hident, hrest⟩ := List.map_eq_cons_iff.1 hx
    obtain ⟨sign, value, rfl, hassign, hstring⟩ := List.map_eq_cons_iff.1 hrest
    obtain ⟨y, hy⟩ := exists_phrase_of_string .equality hstring
    exact Clause.bind hlet hident hassign hy

theorem leaveStatement_completes (h : Resumes loose n read) (hc : c.size ≤ n)
    (hcut : c.Cut loose u) (he : e.Mendable loose) (hreturn : c.current.kind = .returnWord)
    (hstumbles : (leaveStatement read).Stumbles c e) :
    Completable loose u Clause := by
  obtain ⟨v, rfl, hvalue⟩ := hcut.exists_cons hreturn rfl
  obtain ⟨_, hstumbles⟩ := leaveStatement_stumbles.1 hstumbles
  have hsize : c.advance.size ≤ n := Nat.le_trans c.onward_advance.size_le hc
  refine (h.lowest hsize hvalue he hstumbles).behind [c.current] ?_
  rintro w ⟨x, hx⟩
  exact Clause.leave hreturn hx

theorem exprStatement_completes (h : Resumes loose n read) (hc : c.size ≤ n)
    (hcut : c.Cut loose u) (he : e.Mendable loose)
    (hstumbles : (exprStatement read).Stumbles c e) :
    Completable loose u Clause := by
  refine (h.lowest hc hcut he (exprStatement_stumbles.1 hstumbles)).mono ?_
  rintro w ⟨x, hx⟩
  exact Clause.expr hx

/-- A statement that stumbles can be completed, and nothing need follow it. -/
theorem statement_completes (h : Resumes loose n read) (hc : c.size ≤ n) (hcut : c.Cut loose u)
    (he : e.Mendable loose) (hstumbles : (statement read).Stumbles c e) :
    Completable loose u Clause := by
  rw [Stumbles, statement_run] at hstumbles
  split at hstumbles
  · next hlet => exact bindStatement_completes h hc hcut he hlet hstumbles
  · next hreturn => exact leaveStatement_completes h hc hcut he hreturn hstumbles
  · exact exprStatement_completes h hc hcut he hstumbles

/-- At the end of the source there is no statement to stumble over. -/
theorem real_of_stumbles {inBlock : Bool} {turns : Nat}
    (h : (statements read inBlock turns).Stumbles c e) : c.current.kind ≠ .eof := by
  cases turns with
  | zero => exact absurd h stumbles_pure
  | succ turns =>
      intro hend
      have hgoing := (statements_stumbles_succ.1 h).1
      simp [stops, hend] at hgoing

/-- What stands behind the tokens before a cut once they are completed: the token that
stood there, or the string literal that was open. -/
theorem leadingKind_completed (hcut : c.Cut loose v) (hreal : c.current.kind ≠ .eof)
    {kinds : List Kind} (hadmits : loose.Admits kinds) {x : List Token}
    (hx : x.map Token.kind = kinds) (behind : Kind) :
    leadingKind (v ++ x) behind = c.current.kind ∨
      c.current.kind = .illegal ∧ leadingKind (v ++ x) behind = .string := by
  cases v with
  | cons t v => exact Or.inl (by simp [leadingKind, hcut.current_eq])
  | nil =>
      right
      have hends := Token.kind_of_endsSource hcut.current_ends
      have hopen : loose.tokens ≠ [] := by
        intro hnil
        have hahead : c.ahead = [] := by simpa [hnil] using hcut.ahead
        exact hreal (by simp [Cursor.current, hahead, c.isEnd])
      have hhead := hadmits.closing hopen
      rw [← hx, List.head?_map] at hhead
      exact ⟨hends.resolve_left hreal, by simp [leadingKind, hhead]⟩

/-- Statements that stumble can be completed. -/
theorem statements_completes (h : Resumes loose n read) {inBlock : Bool} {turns : Nat}
    {behind : Kind} (hbehind : ¬ behind.continues) (hc : c.size ≤ n) (hcut : c.Cut loose u)
    (he : e.Mendable loose) (hstumbles : (statements read inBlock turns).Stumbles c e) :
    Completable loose u fun w => ∃ list, Body behind w list := by
  induction turns generalizing c u with
  | zero => exact absurd hstumbles stumbles_pure
  | succ turns ih =>
      obtain ⟨_, hstumbles⟩ := statements_stumbles_succ.1 hstumbles
      split at hstumbles
      · next hmark =>
        obtain ⟨v, rfl, hcut'⟩ := hcut.exists_cons hmark rfl
        have hsize := Nat.le_trans c.onward_advance.size_le hc
        refine (ih hsize hcut' hstumbles).behind [c.current] ?_
        rintro w ⟨list, hlist⟩
        exact ⟨list, Body.semicolon hmark hlist⟩
      · rcases hstumbles with hstumbles | ⟨found, m, hfound, hstumbles⟩
        · exact (statement_completes h hc hcut he hstumbles).mono fun w hw => hw.body hbehind
        · obtain ⟨s, rfl, hs⟩ := (statement_orderly h.orderly c hc).of_attempt_yields hfound
          obtain ⟨w, hw, hsentence⟩ := statement_sound h.sound hc hs
          obtain ⟨v, rfl, hcut'⟩ := hcut.reads hw hsentence.legal
          have hsize : m.advance.size ≤ n :=
            Nat.le_trans (Nat.le_trans m.onward_advance.size_le hw.size_le) hc
          obtain ⟨kinds, hadmits, hbody⟩ := ih hsize hcut' hstumbles
          have hreal := real_of_stumbles hstumbles
          refine ⟨kinds, hadmits, fun x hx => ?_⟩
          obtain ⟨list, hlist⟩ := hbody x hx
          rw [List.append_assoc]
          refine ⟨s :: list, Body.statement ?_ hlist⟩
          rcases leadingKind_completed hcut' hreal hadmits hx behind with hkind | ⟨hold, hkind⟩
          · rw [hkind]
            exact hsentence
          -- The open literal becomes a closed one, which goes on with no statement, and
          -- an illegal token ended no `return`.
          · rw [hkind]
            refine hsentence.before (by decide) fun hends => ?_
            rw [← m.current_advance, hold] at hends
            simp [Kind.endsReturn] at hends

/-- A block that stumbles can be completed. -/
theorem block_completes (h : Resumes loose n read) (hc : c.size ≤ n) (hcut : c.Cut loose u)
    (he : e.Mendable loose) (hopen : c.current.kind = .lbrace)
    (hstumbles : (block read).Stumbles c e) : Completable loose u fun w => ∃ b, Braced w b := by
  obtain ⟨v, rfl, hbody⟩ := hcut.exists_cons hopen rfl
  have hsize := Nat.le_trans c.onward_advance.size_le hc
  have hbrace : ¬ Kind.rbrace.continues := by decide
  rcases block_stumbles.1 hstumbles with hstumbles | ⟨list, d, hlist, hend, rfl⟩
  · refine (statements_completes h hbrace hsize hbody he hstumbles).wrapToken
      [c.current] .rbrace (by decide) ?_
    rintro w z ⟨list, hlist⟩ hz
    exact ⟨_, Braced.mk hopen hlist hz⟩
  · obtain ⟨w, hw, hderived, _⟩ :=
      statements_sound h.orderly h.sound hsize (Nat.le_refl _) hlist
    obtain ⟨v, rfl, hcut'⟩ := hbody.clears hw hderived.legal
    obtain rfl := he.at_cut hcut'
    rw [hend] at hderived
    refine Completable.missedToken he.closed .rbrace (by decide) fun z hz => ?_
    exact ⟨_, by simpa using Braced.mk hopen hderived.before_brace hz⟩

/-! ## Lists and entries -/

section Items

variable {α : Type} {item : Rule α} {derived : List Token → α → Prop} {close : Kind}

/-- A closing delimiter that is missed after an item follows there. -/
theorem lastItem_completes (hclose : close ∈ Kind.completing) {w : List Token} {a : α}
    (ha : derived w a) (hcut : c.advance.Cut loose v)
    (he : SyntaxError.Mendable loose ⟨.expected close c.upcoming.kind, c.upcoming⟩) :
    Completable loose (w ++ v) (Closed close fun x => ∃ list, Series derived x list) := by
  obtain rfl := he.at_cut hcut
  refine Completable.missedToken he.closed close hclose fun z hz => ?_
  exact ⟨w, z, by simp, hz, [a], Series.one ha⟩

/-- Items that stumble after a first one can be completed together with it. -/
theorem moreItems_completes (hitem : ItemResumes loose n item derived)
    (hclose : close ∈ Kind.completing) {turns : Nat} {w : List Token} {a : α} (hc : c.size ≤ n)
    (ha : derived w a) (hcut : c.advance.Cut loose v) (he : e.Mendable loose)
    (hstumbles : (moreItems item close turns).Stumbles c e) :
    Completable loose (w ++ v) (Closed close fun x => ∃ list, Series derived x list) := by
  induction turns generalizing c v w a with
  | zero =>
      obtain ⟨_, rfl⟩ := moreItems_stumbles_zero.1 hstumbles
      exact lastItem_completes hclose ha hcut he
  | succ turns ih =>
      rw [moreItems_stumbles_succ] at hstumbles
      split at hstumbles
      · next hcomma =>
        obtain ⟨v, rfl, hcut'⟩ := hcut.exists_upcoming hcomma rfl
        have hsize : c.advance.advance.size ≤ n := by
          simp only [Cursor.size_advance]
          omega
        rw [List.append_cons]
        rcases hstumbles with hstumbles | ⟨b, m, hb, hstumbles⟩
        · refine (hitem.completes hsize hcut' he hstumbles).wrapToken _ close hclose ?_
          rintro x z ⟨b, hb⟩ hz
          refine ⟨w ++ c.upcoming :: x, z, by simp, hz, [a, b], ?_⟩
          exact Series.more ha hcomma (Series.one hb)
        · obtain ⟨x, hx, hderived⟩ := hitem.sound hsize hb
          obtain ⟨v, rfl, hcut''⟩ := hcut'.reads hx (hitem.legal x b hderived)
          have hm := Nat.le_trans hx.size_le hsize
          refine (ih hm hderived hcut'' hstumbles).behind _ ?_
          rintro y ⟨y, z, rfl, hz, list, hlist⟩
          exact ⟨w ++ c.upcoming :: y, z, by simp, hz, a :: list, Series.more ha hcomma hlist⟩
      · obtain ⟨_, rfl⟩ := hstumbles
        exact lastItem_completes hclose ha hcut he

/-- A list that stumbles can be completed.  The cursor starts on its opening token. -/
theorem items_completes (hitem : ItemResumes loose (n - 1) item derived)
    (hclose : close ∈ Kind.completing) (hc : c.size ≤ n) (hcut : c.advance.Cut loose v)
    (he : e.Mendable loose) (hstumbles : (items item close).Stumbles c e) :
    Completable loose v (Closed close fun x => ∃ list, Listing derived x list) := by
  have hsize : c.advance.size ≤ n - 1 := Cursor.size_advance_le hc
  obtain ⟨_, hstumbles⟩ := items_stumbles.1 hstumbles
  rcases hstumbles with hstumbles | ⟨a, m, ha, hstumbles⟩
  · refine (hitem.completes hsize hcut he hstumbles).wrapToken [] close hclose ?_
    rintro x z ⟨a, ha⟩ hz
    exact ⟨x, z, rfl, hz, [a], Listing.some (Series.one ha)⟩
  · obtain ⟨w, hw, hderived⟩ := hitem.sound hsize ha
    obtain ⟨v, rfl, hcut'⟩ := hcut.reads hw (hitem.legal w a hderived)
    have hm := Nat.le_trans hw.size_le hsize
    refine (moreItems_completes hitem hclose hm hderived hcut' he hstumbles).mono ?_
    rintro x ⟨x, z, rfl, hz, list, hlist⟩
    exact ⟨x, z, rfl, hz, list, Listing.some hlist⟩

end Items

theorem parameter_resumes : ItemResumes loose n parameter Named where
  sound := parameter_sound
  legal := fun _ _ => Named.legal
  completes := by
    intro c u e _ hcut he hstumbles
    obtain ⟨_, rfl⟩ := parameter_stumbles.1 hstumbles
    obtain rfl := he.at_cut hcut
    exact Completable.missedToken he.closed .ident (by decide) fun t ht => ⟨t, Named.mk ht⟩

/-- A key becomes an entry by a colon, a value and a closing brace. -/
theorem entry_of_key {u x : List Token} {key : Expr} (hkey : Phrase .equality u key)
    (hx : x.map Token.kind = [.colon, .string, .rbrace]) :
    Closed .rbrace (fun w => ∃ list, Entries w list) (u ++ x) := by
  obtain ⟨colon, rest, rfl, hcolon, hrest⟩ := List.map_eq_cons_iff.1 hx
  obtain ⟨value, rest, rfl, hvalue, hrest⟩ := List.map_eq_cons_iff.1 hrest
  obtain ⟨z, rfl, hz⟩ := List.map_eq_singleton_iff.1 hrest
  obtain ⟨a, ha⟩ := exists_phrase_of_string (x := [value]) .equality (by simp [hvalue])
  exact ⟨u ++ [colon, value], z, by simp, hz, [(key, a)], Entries.last hkey hcolon ha⟩

/-- Entries that stop do not stumble. -/
theorem pairs_stumbles_ne {turns : Nat} (h : (pairs read turns).Stumbles c e) :
    c.upcoming.kind ≠ .rbrace := by
  cases turns with
  | zero => exact absurd h stumbles_pure
  | succ turns => exact (pairs_stumbles_succ.1 h).1

/-- Entries that stumble can be completed.  The cursor starts on the token before
them. -/
theorem pairs_completes (h : Resumes loose (n - 1) read) {turns : Nat} (hc : c.size ≤ n)
    (hcut : c.advance.Cut loose v) (he : e.Mendable loose)
    (hstumbles : (pairs read turns).Stumbles c e) :
    Completable loose v (Closed .rbrace fun x => ∃ list, Entries x list) := by
  induction turns generalizing c v with
  | zero => exact absurd hstumbles stumbles_pure
  | succ turns ih =>
      have hsize : c.advance.size ≤ n - 1 := Cursor.size_advance_le hc
      obtain ⟨_, hstumbles⟩ := pairs_stumbles_succ.1 hstumbles
      rcases hstumbles with hstumbles | ⟨key, m, hkey, hstumbles⟩
      · refine (h.lowest hsize hcut he hstumbles).wrap [] [.colon, .string, .rbrace] (by decide) ?_
        rintro u x ⟨key, hkey⟩ hx
        rw [List.nil_append]
        exact entry_of_key hkey hx
      obtain ⟨u, v, rfl, hu, hkey, hcolons⟩ := h.passes hsize hcut hkey
      split at hstumbles
      · next hcolon =>
        obtain ⟨v, rfl, hvalues⟩ := hcolons.exists_upcoming hcolon rfl
        have hm := hu.size_le
        have hvalueSize : m.advance.advance.size ≤ n - 1 := by
          simp only [Cursor.size_advance] at *
          omega
        rcases hstumbles with hstumbles | ⟨a, l, ha, hstumbles⟩
        · rw [List.append_cons]
          refine (h.lowest hvalueSize hvalues he hstumbles).wrapToken _ .rbrace (by decide) ?_
          rintro w z ⟨a, ha⟩ hz
          refine ⟨u ++ m.upcoming :: w, z, by simp, hz, [(key, a)], ?_⟩
          exact Entries.last hkey hcolon ha
        obtain ⟨w, v, rfl, hw, hvalue, hcommas⟩ := h.passes hvalueSize hvalues ha
        have hl := Nat.le_trans hw.size_le hvalueSize
        split at hstumbles
        · next hstop => exact absurd hstop (pairs_stumbles_ne hstumbles)
        · split at hstumbles
          · next hcomma =>
            obtain ⟨v, rfl, hothers⟩ := hcommas.exists_upcoming hcomma rfl
            have hnext : l.advance.size ≤ n := by
              rw [Cursor.size_advance]
              omega
            have hsplit : u ++ m.upcoming :: (w ++ l.upcoming :: v) =
                (u ++ m.upcoming :: (w ++ [l.upcoming])) ++ v := by simp
            rw [hsplit]
            refine (ih hnext hothers hstumbles).behind _ ?_
            rintro x ⟨x, z, rfl, hz, list, hlist⟩
            refine ⟨u ++ m.upcoming :: (w ++ l.upcoming :: x), z, by simp, hz, (key, a) :: list, ?_⟩
            exact Entries.more hkey hcolon hvalue hcomma hlist
          · subst hstumbles
            obtain rfl := he.at_cut hcommas
            refine Completable.missedToken he.closed .rbrace (by decide) fun z hz => ?_
            refine ⟨u ++ m.upcoming :: w, z, by simp, hz, [(key, a)], ?_⟩
            exact Entries.last hkey hcolon hvalue
      · subst hstumbles
        obtain rfl := he.at_cut hcolons
        refine Completable.missed he.closed [.colon, .string, .rbrace] (by decide) fun x hx => ?_
        rw [List.append_nil]
        exact entry_of_key hkey hx

/-! ## Expressions -/

theorem conditional_completes (h : Resumes loose (n - 1) read) (hc : c.size ≤ n)
    (hcut : c.Cut loose u) (he : e.Mendable loose) (hif : c.current.kind = .ifWord)
    (hstumbles : (conditional read).Stumbles c e) :
    Completable loose u fun w => ∃ x, Phrase .primary w x := by
  obtain ⟨u, rfl, htests⟩ := hcut.exists_cons hif rfl
  have hsize : c.advance.size ≤ n - 1 := Cursor.size_advance_le hc
  rcases conditional_stumbles.1 hstumbles with hstumbles | ⟨test, m, htest, hstumbles⟩
  · refine (h.lowest hsize htests he hstumbles).wrapBlock [c.current] ?_
    rintro w x b ⟨test, htest⟩ hb
    exact ⟨_, by simpa using Phrase.cond hif htest hb⟩
  obtain ⟨w, u, rfl, hw, htest, hbranches⟩ := h.passes hsize htests htest
  split at hstumbles
  · next hopen =>
    have hm := Nat.le_trans (Nat.le_trans m.onward_advance.size_le hw.size_le) hsize
    rcases hstumbles with hstumbles | ⟨yes, l, hyes, helse, hstumbles⟩
    · refine (block_completes h hm hbranches he hopen hstumbles).behind (c.current :: w) ?_
      rintro v ⟨b, hb⟩
      exact ⟨_, Phrase.cond hif htest hb⟩
    obtain ⟨v, hv, hbranch⟩ := block_sound h.orderly h.sound hm hopen hyes
    obtain ⟨u, rfl, helses⟩ := hbranches.reads hv hbranch.legal
    obtain ⟨u, rfl, hothers⟩ := helses.exists_upcoming helse rfl
    have hl : l.advance.advance.size ≤ n - 1 := by
      have := Nat.le_trans hv.size_le hm
      simp only [Cursor.size_advance]
      omega
    have hwhole {x : List Token} {b : Block} (hb : Braced x b) :
        ∃ y, Phrase .primary (c.current :: (w ++ (v ++ l.upcoming :: x))) y :=
      ⟨_, Phrase.condElse hif htest hbranch helse hb⟩
    split at hstumbles
    · next hopenElse =>
      have hsplit : c.current :: (w ++ (v ++ l.upcoming :: u)) =
          (c.current :: (w ++ (v ++ [l.upcoming]))) ++ u := by simp
      rw [hsplit]
      refine (block_completes h hl hothers he hopenElse hstumbles).behind _ ?_
      rintro x ⟨b, hb⟩
      simpa using hwhole hb
    · subst hstumbles
      obtain rfl := he.at_cut hothers
      refine Completable.missedBlock he.closed fun x b hb => ?_
      simpa using hwhole hb
  · subst hstumbles
    obtain rfl := he.at_cut hbranches
    refine Completable.missedBlock he.closed fun x b hb => ?_
    exact ⟨_, by simpa using Phrase.cond hif htest hb⟩

theorem function_completes (h : Resumes loose (n - 1) read) (hc : c.size ≤ n)
    (hcut : c.Cut loose u) (he : e.Mendable loose) (hfn : c.current.kind = .fnWord)
    (hstumbles : (function read).Stumbles c e) :
    Completable loose u fun w => ∃ x, Phrase .primary w x := by
  obtain ⟨u, rfl, hopens⟩ := hcut.exists_cons hfn rfl
  have hsize : c.advance.size ≤ n - 1 := Cursor.size_advance_le hc
  rw [function_stumbles] at hstumbles
  split at hstumbles
  · next hopen =>
    obtain ⟨u, rfl, hnames⟩ := hopens.exists_upcoming hopen rfl
    rcases hstumbles with hstumbles | ⟨parameters, m, hparameters, hstumbles⟩
    · refine (items_completes parameter_resumes (by decide) hsize hnames he hstumbles).wrapBlock
        [c.current, c.upcoming] ?_
      rintro w x b ⟨w, z, rfl, hz, parameters, hlist⟩ hb
      exact ⟨_, by simpa using Phrase.function hfn hopen hlist hz hb⟩
    obtain ⟨w, z, hw, hz, hlist⟩ := items_sound parameter_sound (by decide) hsize hparameters
    have hlegal : Legal (w ++ [z]) := by simp [hlist.legal_of fun _ _ => Named.legal, hz]
    obtain ⟨u, rfl, hbodies⟩ := hnames.reads hw hlegal
    have hm : m.advance.size ≤ n - 1 := by
      have hle := Nat.le_trans hw.size_le c.advance.onward_advance.size_le
      exact Nat.le_trans (Nat.le_trans m.onward_advance.size_le hle) hsize
    split at hstumbles
    · next hbrace =>
      refine (block_completes h hm hbodies he hbrace hstumbles).behind
        (c.current :: c.upcoming :: (w ++ [z])) ?_
      rintro x ⟨b, hb⟩
      exact ⟨_, by simpa using Phrase.function hfn hopen hlist hz hb⟩
    · subst hstumbles
      obtain rfl := he.at_cut hbodies
      refine Completable.missedBlock he.closed fun x b hb => ?_
      exact ⟨_, by simpa using Phrase.function hfn hopen hlist hz hb⟩
  · subst hstumbles
    obtain rfl := he.at_cut hopens
    refine Completable.missed he.closed [.lparen, .rparen, .lbrace, .rbrace] (by decide)
      fun x hx => ?_
    obtain ⟨opening, x, rfl, hopening, hx⟩ := List.map_eq_cons_iff.1 hx
    obtain ⟨closing, x, rfl, hclosing, hx⟩ := List.map_eq_cons_iff.1 hx
    obtain ⟨b, hb⟩ := exists_braced_of_braces hx
    exact ⟨_, Phrase.function hfn hopening Listing.none hclosing hb⟩

/-- A group that stumbles can be completed. -/
theorem group_completes (h : Resumes loose (n - 1) read) (hc : c.size ≤ n)
    (hcut : c.Cut loose u) (he : e.Mendable loose) (hopen : c.current.kind = .lparen)
    (hstumbles : (do
      let inner ← read .lowest
      expectNext .rparen
      pure inner : Rule Expr).Stumbles c.advance e) :
    Completable loose u fun w => ∃ x, Phrase .primary w x := by
  obtain ⟨u, rfl, hinners⟩ := hcut.exists_cons hopen rfl
  have hsize : c.advance.size ≤ n - 1 := Cursor.size_advance_le hc
  rcases stumbles_bind.1 hstumbles with hstumbles | ⟨inner, m, hinner, hstumbles⟩
  · refine (h.lowest hsize hinners he hstumbles).wrapToken [c.current] .rparen (by decide) ?_
    rintro w z ⟨inner, hinner⟩ hz
    exact ⟨inner, Phrase.group hopen hinner hz⟩
  · obtain ⟨w, u, rfl, _, hinner, hcloses⟩ := h.passes hsize hinners hinner
    simp only [stumbles_expectNext_bind, stumbles_pure, if_false_left] at hstumbles
    obtain ⟨_, rfl⟩ := hstumbles
    obtain rfl := he.at_cut hcloses
    refine Completable.missedToken he.closed .rparen (by decide) fun z hz => ?_
    exact ⟨inner, by simpa using Phrase.group hopen hinner hz⟩

/-- A sign whose operand stumbles can be completed. -/
theorem unary_completes (h : Resumes loose (n - 1) read) (hc : c.size ≤ n)
    (hcut : c.Cut loose u) (he : e.Mendable loose)
    (hoperator : c.current.kind = .bang ∨ c.current.kind = .minus)
    (hstumbles : (read .sign >>= fun right => pure (Expr.unary c.current right)).Stumbles
      c.advance e) :
    Completable loose u fun w => ∃ x, Phrase .sign w x := by
  have hmark : c.current.kind.isMark = true := by
    rcases hoperator with hkind | hkind <;> simp [hkind, Kind.isMark]
  obtain ⟨u, rfl, hoperands⟩ := hcut.exists_cons rfl hmark
  have hright : (read .sign).Stumbles c.advance e := by simpa using hstumbles
  have hsize : c.advance.size ≤ n - 1 := Cursor.size_advance_le hc
  refine (h.completes (by decide) hsize hoperands he hright).behind [c.current] ?_
  rintro w ⟨x, hx⟩
  exact ⟨.unary c.current x, Phrase.unary hoperator hx⟩

/-- An array that stumbles can be completed. -/
theorem array_completes (h : Resumes loose (n - 1) read) (hc : c.size ≤ n)
    (hcut : c.Cut loose u) (he : e.Mendable loose) (hopen : c.current.kind = .lbracket)
    (hstumbles : (items (read .lowest) .rbracket >>= fun elements =>
      pure (Expr.array c.current elements)).Stumbles c e) :
    Completable loose u fun w => ∃ x, Phrase .primary w x := by
  obtain ⟨u, rfl, helements⟩ := hcut.exists_cons hopen rfl
  have hitems : (items (read .lowest) .rbracket).Stumbles c e := by simpa using hstumbles
  refine (items_completes h.item (by decide) hc helements he hitems).behind [c.current] ?_
  rintro w ⟨w, z, rfl, hz, list, hlist⟩
  exact ⟨_, Phrase.array hopen hlist hz⟩

/-- A hash literal that stumbles can be completed. -/
theorem hash_completes (h : Resumes loose (n - 1) read) (hc : c.size ≤ n)
    (hcut : c.Cut loose u) (he : e.Mendable loose) (hopen : c.current.kind = .lbrace)
    (hstumbles : (looped (pairs read) >>= fun entries =>
      pure (Expr.hash c.current entries)).Stumbles c e) :
    Completable loose u fun w => ∃ x, Phrase .primary w x := by
  obtain ⟨u, rfl, hentries⟩ := hcut.exists_cons hopen rfl
  have hpairs : (pairs read c.size).Stumbles c e := by simpa using hstumbles
  refine (pairs_completes h hc hentries he hpairs).behind [c.current] ?_
  rintro w ⟨w, z, rfl, hz, list, hlist⟩
  exact ⟨_, Phrase.hash hopen hlist hz⟩

/-- What an expression starts with can be completed.  At the cut itself a string
literal does; before it the token itself is not to blame. -/
theorem operand_completes (h : Resumes loose (n - 1) read) (hc : c.size ≤ n)
    (hcut : c.Cut loose u) (he : e.Mendable loose) (hstumbles : (operand read).Stumbles c e) :
    Completable loose u fun w => ∃ x, Phrase .sign w x := by
  by_cases hends : c.current.endsSource = true
  · obtain rfl := hcut.eq_nil hends
    exact completable_operand loose .sign
  have hblamed (fault : Fault) : ¬ [SyntaxError.mk fault c.current].head? = some e := by
    intro hhead
    simp only [List.head?_cons, Option.some.injEq] at hhead
    subst hhead
    exact hends he.ends
  have hprimary (hcompletable : Completable loose u fun w => ∃ x, Phrase .primary w x) :
      Completable loose u fun w => ∃ x, Phrase .sign w x :=
    hcompletable.loosen (by decide)
  rw [Stumbles, operand_run] at hstumbles
  cases hkind : c.current.kind
  all_goals simp only [hkind] at hstumbles
  case int =>
    cases hvalue : c.current.literal.toInt64? with
    | none =>
        rw [hvalue] at hstumbles
        exact absurd hstumbles (hblamed _)
    | some value =>
        rw [hvalue] at hstumbles
        cases hstumbles
  case bang => exact unary_completes h hc hcut he (Or.inl hkind) hstumbles
  case minus => exact unary_completes h hc hcut he (Or.inr hkind) hstumbles
  case lparen => exact hprimary (group_completes h hc hcut he hkind hstumbles)
  case ifWord => exact hprimary (conditional_completes h hc hcut he hkind hstumbles)
  case fnWord => exact hprimary (function_completes h hc hcut he hkind hstumbles)
  case lbracket => exact hprimary (array_completes h hc hcut he hkind hstumbles)
  case lbrace => exact hprimary (hash_completes h hc hcut he hkind hstumbles)
  case ident | string | trueWord | falseWord => cases hstumbles
  all_goals exact absurd hstumbles (hblamed _)

section Continuation

variable {w : List Token} {level : Level} {left : Expr}

/-- A call that stumbles can be completed. -/
theorem call_completes (h : Resumes loose (n - 1) read) (hc : c.size ≤ n)
    (hleft : Phrase .applied w left) (hcut : c.advance.Cut loose v) (he : e.Mendable loose)
    (hkind : c.current.kind = .lparen)
    (hstumbles : (items (read .lowest) .rparen >>= fun arguments =>
      pure (Expr.call c.current left arguments)).Stumbles c e) :
    Completable loose (w ++ c.current :: v) fun w => ∃ x, Phrase .applied w x := by
  have hitems : (items (read .lowest) .rparen).Stumbles c e := by simpa using hstumbles
  rw [List.append_cons]
  refine (items_completes h.item (by decide) hc hcut he hitems).behind _ ?_
  rintro x ⟨x, z, rfl, hz, list, hlist⟩
  exact ⟨_, by simpa using Phrase.call hleft hkind hlist hz⟩

/-- An index that stumbles can be completed. -/
theorem index_completes (h : Resumes loose (n - 1) read) (hc : c.size ≤ n)
    (hleft : Phrase .applied w left) (hcut : c.advance.Cut loose v) (he : e.Mendable loose)
    (hkind : c.current.kind = .lbracket)
    (hstumbles : (do
      let key ← read .lowest
      expectNext .rbracket
      pure (Expr.index c.current left key) : Rule Expr).Stumbles c.advance e) :
    Completable loose (w ++ c.current :: v) fun w => ∃ x, Phrase .applied w x := by
  have hsize : c.advance.size ≤ n - 1 := Cursor.size_advance_le hc
  rcases stumbles_bind.1 hstumbles with hstumbles | ⟨key, m, hkey, hstumbles⟩
  · rw [List.append_cons]
    refine (h.lowest hsize hcut he hstumbles).wrapToken _ .rbracket (by decide) ?_
    rintro u z ⟨key, hkey⟩ hz
    exact ⟨_, by simpa using Phrase.index hleft hkind hkey hz⟩
  · obtain ⟨u, v, rfl, _, hkey, hcloses⟩ := h.passes hsize hcut hkey
    simp only [stumbles_expectNext_bind, stumbles_pure, if_false_left] at hstumbles
    obtain ⟨_, rfl⟩ := hstumbles
    obtain rfl := he.at_cut hcloses
    refine Completable.missedToken he.closed .rbracket (by decide) fun z hz => ?_
    exact ⟨_, by simpa using Phrase.index hleft hkind hkey hz⟩

/-- An operator whose right operand stumbles can be completed. -/
theorem binary_completes (h : Resumes loose (n - 1) read) {outer : Level} (hc : c.size ≤ n)
    (hleft : Phrase outer w left) (hcut : c.advance.Cut loose v) (he : e.Mendable loose)
    (hmem : c.current.kind ∈ outer.operators) (hpos : 0 < c.current.kind.power)
    (hstumbles : (read c.current.kind.power >>= fun right =>
      pure (Expr.binary c.current left right)).Stumbles c.advance e) :
    Completable loose (w ++ c.current :: v) fun w => ∃ x, Phrase outer w x := by
  have hright : (read c.current.kind.power).Stumbles c.advance e := by simpa using hstumbles
  have hsize : c.advance.size ≤ n - 1 := Cursor.size_advance_le hc
  have hlevel : Level.above c.current.kind.power = outer.tighter :=
    Level.above_power_of_mem_operators hmem
  rw [List.append_cons]
  refine (h.completes hpos hsize hcut he hright).behind _ ?_
  rintro u ⟨x, hx⟩
  exact ⟨_, by simpa using Phrase.binary hmem hleft (hlevel ▸ hx)⟩

/-- A left operand and a continuation that stumbles can be completed together, at the
level of the power read at. -/
theorem continuation_completes (h : Resumes loose (n - 1) read) {p : Power} (hc : c.size ≤ n)
    (hleft : Phrase level w left) (hsettled : Settled level c.upcoming.kind) (hp : 0 < p)
    (hbinds : p < c.upcoming.kind.power) (hcut : c.advance.Cut loose v) (he : e.Mendable loose)
    (hstumbles : (continuation read left).Stumbles c.advance e) :
    Completable loose (w ++ v) fun w => ∃ x, Phrase (Level.above p) w x := by
  have hlowest : Power.lowest < c.upcoming.kind.power := Nat.lt_of_le_of_lt hp hbinds
  have hmark : c.upcoming.kind.isMark = true := by
    cases hkind : c.upcoming.kind <;> simp_all [Kind.isMark, Kind.power]
  obtain ⟨v, rfl, hrest⟩ := hcut.exists_upcoming rfl hmark
  have hadvance : c.advance.size ≤ n := Nat.le_trans c.onward_advance.size_le hc
  have happlied : (Level.above p).power ≤ Level.applied.power :=
    Nat.le_trans (Level.power_above_le_sign p) (by decide)
  rw [Stumbles, continuation_run, c.current_advance] at hstumbles
  split at hstumbles
  · next hkind =>
    rw [hkind] at hsettled
    have hcall := call_completes h hadvance (hleft.callee hsettled) hrest he hkind hstumbles
    exact hcall.loosen happlied
  · next hkind =>
    rw [hkind] at hsettled
    have hindex := index_completes h hadvance (hleft.collection hsettled) hrest he hkind hstumbles
    exact hindex.loosen happlied
  · next hcall hindex =>
    obtain ⟨outer, hmem⟩ := Level.exists_mem_operators hlowest hcall hindex
    have houter : (Level.above p).power ≤ outer.power := by
      rw [← Level.power_of_mem_operators hmem]
      exact Level.power_above_le hp hbinds
    have hbinary := binary_completes h hadvance (hleft.leftOperand hsettled hmem) hrest he hmem
      (Nat.lt_trans hp hbinds) hstumbles
    exact hbinary.loosen houter

end Continuation

/-- Reading on from a left operand that is derived, an expression that stumbles can be
completed. -/
theorem climb_completes (h : Resumes loose (n - 1) read) {start : Cursor} {turns : Nat}
    {p : Power} {w : List Token} {level : Level} {left : Expr} (hp : 0 < p) (hc : c.size ≤ n)
    (hcut : start.Cut loose u) (hw : start.Reads w c) (hleft : Phrase level w left)
    (hsettled : Settled level c.upcoming.kind) (he : e.Mendable loose)
    (hstumbles : (climb read p turns left).Stumbles c e) :
    Completable loose u fun w => ∃ x, Phrase (Level.above p) w x := by
  induction turns generalizing c w level left with
  | zero => exact absurd hstumbles stumbles_pure
  | succ turns ih =>
      obtain ⟨hbinds, hstumbles⟩ := climb_stumbles_succ.1 hstumbles
      rcases hstumbles with hstumbles | ⟨larger, m, hlarger, hstumbles⟩
      · obtain ⟨v, rfl, hrest⟩ := hcut.reads hw hleft.legal
        exact continuation_completes h hc hleft hsettled hp hbinds hrest he hstumbles
      · obtain ⟨w, outer, hw, hphrase, _, hsettled⟩ :=
          continuation_sound h.sound hc hw hleft hsettled hp hbinds hlarger
        have hadvance := Nat.le_trans c.onward_advance.size_le hc
        have hm := ((continuation_orderly h.orderly left _ hadvance).onward_of_yields
          hlarger).size_le
        exact ih (Nat.le_trans hm hadvance) hw hphrase hsettled hstumbles

/-- **Expressions can be completed.** -/
theorem expression_resumes (loose : Loose) (n : Nat) : Resumes loose n (expression (n + 1)) := by
  induction n with
  | zero =>
      refine ⟨expression_orderly 0, expression_sound 0, ?_⟩
      intro p c u e _ hc hcut _ _
      -- No token is left, so a literal is all it takes.
      have hnil : u = [] := by
        have hahead := hcut.ahead
        rw [List.length_eq_zero_iff.1 (Nat.le_zero.1 hc)] at hahead
        exact (List.append_eq_nil_iff.1 hahead.symm).1
      subst hnil
      exact completable_operand loose _
  | succ n ih =>
      refine ⟨expression_orderly (n + 1), expression_sound (n + 1), ?_⟩
      intro p c u e hp hc hcut he hstumbles
      have hread : Resumes loose (n + 1 - 1) (expression (n + 1)) := ih
      rcases expressionWith_stumbles.1 hstumbles with hstumbles | ⟨left, m, hleft, hstumbles⟩
      · have hoperand := operand_completes hread hc hcut he hstumbles
        exact hoperand.loosen (Level.power_above_le_sign p)
      · obtain ⟨w, level, hw, hphrase, _, hsettled⟩ :=
          operand_sound hread.orderly hread.sound hc hleft
        have hm := Nat.le_trans hw.size_le hc
        exact climb_completes hread hp hm hcut hw hphrase hsettled he hstumbles

/-- **Programs can be completed.**  Where the first error is mendable, the tokens before
the cut and tokens of some kinds behind them derive a program. -/
theorem program_completes (hcut : c.Cut loose u) (he : e.Mendable loose)
    (hstumbles : program.Stumbles c e) :
    Completable loose u fun w => ∃ p : Program, p.Derives w := by
  have hend : ¬ Kind.eof.continues := by decide
  refine (statements_completes (expression_resumes loose c.size) hend (Nat.le_refl _) hcut he
    (program_stumbles.1 hstumbles)).mono ?_
  rintro w ⟨list, hlist⟩
  exact ⟨⟨list⟩, hlist⟩

end Grammar
end MonkeyLang
