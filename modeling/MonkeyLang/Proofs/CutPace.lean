import MonkeyLang.Proofs.GrammarOrder

/-!
# Two readings side by side

A source that was cut is read beside the whole source.  Every rule goes by the
current token or the one after it, so the two readings stay level for as long as
these two stand before the cut.  When the cut reading sees behind it, the token it
sees ends the source: no rule accepts such a token, and a rule that complains
blames it.  From then on the cut reading trails, and all it records is incomplete.

`Rule.Paces` says that two rules, run on twin cursors, stay level or leave the cut
one trailing, and `Rule.Trails` that a rule run at the cut stays there.  Both are
shown here for the steps that rules are made of.
-/

namespace MonkeyLang

/-- What a cut source has where the whole source goes on: tokens that end a
source. -/
structure Loose where
  tokens : List Token
  ends : ∀ t ∈ tokens, t.endsSource = true

/-- A token that ends a source is an end or no token of the grammar. -/
theorem Token.kind_of_endsSource {t : Token} (h : t.endsSource = true) :
    t.kind = .eof ∨ t.kind = .illegal := by
  simp only [endsSource, isUnterminated, Bool.or_eq_true, Bool.and_eq_true,
    decide_eq_true_eq] at h
  exact h.imp_right And.left

/-- No rule requires a token of a kind that ends a source. -/
def Kind.isMark (kind : Kind) : Bool :=
  kind ≠ .eof && kind ≠ .illegal

/-- A token that ends a source is none that a rule requires. -/
theorem Token.kind_ne_of_endsSource {t : Token} {kind : Kind} (h : t.endsSource = true)
    (hkind : kind.isMark = true) : t.kind ≠ kind := by
  rintro rfl
  rcases kind_of_endsSource h with hend | hend <;> simp [Kind.isMark, hend] at hkind

namespace Cursor

variable {loose : Loose} {c d : Cursor}

/-- All tokens after the current one stand behind the cut. -/
def AtCut (loose : Loose) (c : Cursor) : Prop := c.ahead.tail <:+ loose.tokens

/-- All tokens stand behind the cut. -/
def PastCut (loose : Loose) (c : Cursor) : Prop := c.ahead <:+ loose.tokens

theorem PastCut.atCut (h : c.PastCut loose) : c.AtCut loose :=
  (List.tail_suffix _).trans h

theorem PastCut.onward (h : c.PastCut loose) (hd : c.Onward d) : d.PastCut loose :=
  hd.ahead.trans h

theorem PastCut.size_le (h : c.PastCut loose) : c.size ≤ loose.tokens.length :=
  h.length_le

/-- Behind the cut every token ends the source. -/
theorem PastCut.ends (h : c.PastCut loose) {t : Token} (ht : t ∈ c.ahead ∨ t = c.finish) :
    t.endsSource = true := by
  rcases ht with hmem | rfl
  · exact loose.ends t (h.subset hmem)
  · simp [Token.endsSource, c.isEnd]

theorem AtCut.advance (h : c.AtCut loose) : c.advance.PastCut loose := h

/-- At the cut the token after the current one ends the source. -/
theorem AtCut.upcoming_ends (h : c.AtCut loose) : c.upcoming.endsSource = true :=
  h.advance.ends c.advance.current_mem

/-- The same tokens up to the cut: in one source only loose ones follow, in the
other one any. -/
structure Twins (loose : Loose) (more shared : List Token) (c d : Cursor) : Prop where
  cut : c.ahead = shared ++ loose.tokens
  whole : d.ahead = shared ++ more

namespace Twins

variable {more shared : List Token} {t u : Token}

theorem current_cut (h : Twins loose more (t :: shared) c d) : c.current = t := by
  simp [current, h.cut]

theorem current_whole (h : Twins loose more (t :: shared) c d) : d.current = t := by
  simp [current, h.whole]

theorem upcoming_cut (h : Twins loose more (t :: u :: shared) c d) : c.upcoming = u := by
  simp [upcoming, h.cut]

theorem upcoming_whole (h : Twins loose more (t :: u :: shared) c d) : d.upcoming = u := by
  simp [upcoming, h.whole]

/-- Twin cursors move on together. -/
theorem advance (h : Twins loose more (t :: shared) c d) :
    Twins loose more shared c.advance d.advance :=
  ⟨by simp [Cursor.advance, h.cut], by simp [Cursor.advance, h.whole]⟩

/-- Where nothing is shared any more the cut is behind. -/
theorem pastCut (h : Twins loose more [] c d) : c.PastCut loose := by
  simp [PastCut, h.cut]

/-- On the last shared token the cursor is at the cut. -/
theorem atCut (h : Twins loose more [t] c d) : c.AtCut loose := h.advance.pastCut

end Twins
end Cursor

/-! ## Rules at the cut -/

/-- What a trailing rule leaves behind: incomplete errors only, and a cursor at
the cut. -/
structure Outcome.Trailing {α : Type} (loose : Loose) (o : Outcome α) : Prop where
  incomplete : ∀ e ∈ o.errors, e.isIncomplete = true
  atCut : o.cursor.AtCut loose

namespace Rule

variable {α β : Type} {loose : Loose} {c : Cursor}

/-- Started at the cut, the rule stays there. -/
def Trails (loose : Loose) (r : Rule α) : Prop :=
  ∀ c, c.AtCut loose → (r c).Trailing loose

/-- Behind the cut every orderly rule trails. -/
theorem trailing_of_orderly {r : Rule α} (hc : c.PastCut loose) (h : (r c).Orderly c) :
    (r c).Trailing loose :=
  ⟨fun e he => hc.ends (h.blamed e he), (hc.onward h.onward).atCut⟩

/-- What follows a trailing rule trails too. -/
theorem trailing_bind {r : Rule α} {f : α → Rule β} (hr : (r c).Trailing loose)
    (hf : ∀ a, (f a).Trails loose) : ((r >>= f) c).Trailing loose := by
  rcases hrun : r c with ⟨_ | a, d, errors⟩
  · rw [bind_run_of_none hrun]
    rw [hrun] at hr
    exact ⟨hr.incomplete, hr.atCut⟩
  · rw [bind_run_of_some hrun]
    rw [hrun] at hr
    have hnext := hf a d hr.atCut
    refine ⟨?_, hnext.atCut⟩
    intro e he
    rcases List.mem_append.1 he with he | he
    · exact hr.incomplete e he
    · exact hnext.incomplete e he

namespace Trails

theorem pure (a : α) : Trails loose (Pure.pure a : Rule α) :=
  fun _ hc => ⟨by simp, hc⟩

/-- One trailing rule after another. -/
theorem bind {r : Rule α} {f : α → Rule β} (hr : r.Trails loose)
    (hf : ∀ a, (f a).Trails loose) : Trails loose (r >>= f) :=
  fun c hc => trailing_bind (hr c hc) hf

theorem upcoming_bind {f : Token → Rule β}
    (hf : ∀ t, t.endsSource = true → (f t).Trails loose) :
    Trails loose (upcoming >>= f) :=
  fun c hc => hf c.upcoming hc.upcoming_ends c hc

/-- Moving on from the cut gets behind it. -/
theorem advance_bind {f : Unit → Rule β}
    (hf : ∀ c, c.PastCut loose → (f () c).Trailing loose) :
    Trails loose (advance >>= f) :=
  fun _ hc => hf _ hc.advance

/-- A required token is missed, and the token found instead is blamed. -/
theorem expectNext_bind {kind : Kind} (hkind : kind.isMark = true) (f : Unit → Rule β) :
    Trails loose (expectNext kind >>= f) := by
  intro c hc
  have hne : c.upcoming.kind ≠ kind := Token.kind_ne_of_endsSource hc.upcoming_ends hkind
  rw [bind_run_of_none (expectNext_run kind c ▸ if_neg hne)]
  exact ⟨by simpa [SyntaxError.isIncomplete] using hc.upcoming_ends, hc⟩

/-- An optional token is not there. -/
theorem skipNext_bind {kind : Kind} (hkind : kind.isMark = true) {f : Unit → Rule β}
    (hf : (f ()).Trails loose) : Trails loose (skipNext kind >>= f) := by
  intro c hc
  have hne : c.upcoming.kind ≠ kind := Token.kind_ne_of_endsSource hc.upcoming_ends hkind
  have hskip : skipNext kind c = ⟨some (), c, []⟩ := by
    rw [skipNext_run, Cursor.skip, if_neg hne]
  refine trailing_bind ?_ fun _ => hf
  rw [hskip]
  exact ⟨by simp, hc⟩

theorem looped {loop : Nat → Rule α} (h : ∀ turns, (loop turns).Trails loose) :
    Trails loose (Rule.looped loop) :=
  fun c hc => h c.size c hc

/-- No comma comes, and no closing delimiter either. -/
theorem moreItems {item : Rule α} {close : Kind} (hclose : close.isMark = true) (turns : Nat) :
    Trails loose (Rule.moreItems item close turns) := by
  cases turns with
  | zero => exact expectNext_bind hclose _
  | succ turns =>
      refine upcoming_bind fun t ht => ?_
      have hcomma : t.kind ≠ .comma := Token.kind_ne_of_endsSource ht rfl
      rw [if_neg hcomma]
      exact expectNext_bind hclose _

end Trails

/-! ## Rules on twin cursors -/

/-- How a rule fares on a cut source, when on the whole one it stops at `d`: it
stops level with it, or it trails. -/
inductive InPace (loose : Loose) (more shared : List Token) (r : Rule α) (c d : Cursor) : Prop
  | level {a : α} {e : Cursor} {t : Token} {rest : List Token} (hr : r.Yields c a e)
      (hrest : t :: rest <:+ shared) (htwins : Cursor.Twins loose more (t :: rest) e d)
  | trailing (h : (r c).Trailing loose)

/-- What runs alike fares alike. -/
theorem InPace.of_run {more shared rest : List Token} {r q : Rule α} {c d e : Cursor}
    (hrun : r c = q e) (hrest : rest <:+ shared) (h : InPace loose more rest q e d) :
    InPace loose more shared r c d := by
  cases h with
  | level hq hsuffix htwins => exact InPace.level (hrun.trans hq) (hsuffix.trans hrest) htwins
  | trailing htrailing =>
      refine InPace.trailing ?_
      rw [hrun]
      exact htrailing

/-- Where at most `n` tokens are left before the cut, the first rule on the cut
source keeps pace with the second one on the whole source. -/
def Paces (loose : Loose) (more : List Token) (n : Nat) (r r' : Rule α) : Prop :=
  ∀ ⦃t shared c c'⦄, (t :: shared).length ≤ n → Cursor.Twins loose more (t :: shared) c c' →
    ∀ ⦃a d⦄, r'.Yields c' a d → InPace loose more (t :: shared) r c d

namespace Paces

variable {more : List Token} {n : Nat} {r r' : Rule α}

/-- With fewer tokens left before the cut a rule keeps pace all the more. -/
theorem mono {k : Nat} (h : Paces loose more n r r') (hk : k ≤ n) : Paces loose more k r r' := by
  intro t shared c c' hlength htwins a d hr'
  exact h (Nat.le_trans hlength hk) htwins hr'

/-- There is always a token before the cut. -/
theorem zero : Paces loose more 0 r r' := by
  intro t shared c c' hlength
  simp at hlength

/-- A rule that never succeeds need not be kept pace with. -/
theorem of_never (h : ∀ c a d, ¬ r'.Yields c a d) : Paces loose more n r r' := by
  intro t shared c c' _ _ a d hr'
  exact absurd hr' (h c' a d)

theorem pure (a b : α) : Paces loose more n (Pure.pure a : Rule α) (Pure.pure b) := by
  intro t shared c c' _ htwins b' d hd
  obtain ⟨-, rfl⟩ := yields_pure.1 hd
  exact InPace.level rfl (List.suffix_refl _) htwins

/-- One rule after another. -/
theorem bind {f f' : α → Rule β} (hr : Paces loose more n r r')
    (hf : ∀ a a', Paces loose more n (f a) (f' a')) (htrails : ∀ a, (f a).Trails loose) :
    Paces loose more n (r >>= f) (r' >>= f') := by
  intro t shared c c' hlength htwins b d hd
  obtain ⟨a', m', hr', hf'⟩ := yields_bind.1 hd
  cases hr hlength htwins hr' with
  | @level a m u rest hyields hrest htwins' =>
      have hlength' : (u :: rest).length ≤ n := Nat.le_trans hrest.length_le hlength
      have hrun : (r >>= f) c = f a m := by
        rw [bind_run_of_some hyields]
        rfl
      exact (hf a a' hlength' htwins' hf').of_run hrun hrest
  | trailing htrailing => exact InPace.trailing (trailing_bind htrailing htrails)

/-- The current token is the same in both sources. -/
theorem current_bind {f f' : Token → Rule β} (h : ∀ t, Paces loose more n (f t) (f' t)) :
    Paces loose more n (current >>= f) (current >>= f') := by
  intro t shared c c' hlength htwins b d hd
  rw [yields_current_bind, htwins.current_whole] at hd
  have hrun : (current >>= f) c = f t c := by
    rw [current_bind_run, htwins.current_cut]
  exact (h t hlength htwins hd).of_run hrun (List.suffix_refl _)

/-- The token after the current one is the same, or the rule is at the cut. -/
theorem upcoming_bind {f f' : Token → Rule β} (h : ∀ t, Paces loose more n (f t) (f' t))
    (htrails : Trails loose (upcoming >>= f)) :
    Paces loose more n (upcoming >>= f) (upcoming >>= f') := by
  intro t shared c c' hlength htwins b d hd
  cases shared with
  | nil => exact InPace.trailing (htrails c htwins.atCut)
  | cons u shared =>
      rw [yields_upcoming_bind, htwins.upcoming_whole] at hd
      have hrun : (upcoming >>= f) c = f u c := by
        rw [upcoming_bind_run, htwins.upcoming_cut]
      exact (h u hlength htwins hd).of_run hrun (List.suffix_refl _)

/-- Moving on leaves one token less before the cut, or gets behind it. -/
theorem advance_bind {f f' : Unit → Rule β} (h : Paces loose more (n - 1) (f ()) (f' ()))
    (hpast : ∀ c, c.PastCut loose → (f () c).Trailing loose) :
    Paces loose more n (advance >>= f) (advance >>= f') := by
  intro t shared c c' hlength htwins b d hd
  cases shared with
  | nil => exact InPace.trailing (hpast c.advance htwins.advance.pastCut)
  | cons u shared =>
      have hlength' : (u :: shared).length ≤ n - 1 := Nat.le_sub_one_of_lt hlength
      exact (h hlength' htwins.advance hd).of_run (advance_bind_run f c) (List.suffix_cons _ _)

/-- A required token is found in both sources, or the rule is at the cut. -/
theorem expectNext_bind {kind : Kind} (hkind : kind.isMark = true) {f f' : Unit → Rule β}
    (h : Paces loose more (n - 1) (f ()) (f' ())) :
    Paces loose more n (expectNext kind >>= f) (expectNext kind >>= f') := by
  intro t shared c c' hlength htwins b d hd
  cases shared with
  | nil => exact InPace.trailing (Trails.expectNext_bind hkind f c htwins.atCut)
  | cons u shared =>
      obtain ⟨hu, hf'⟩ := yields_expectNext_bind.1 hd
      have hfound : c.upcoming.kind = kind := by
        rw [htwins.upcoming_cut, ← htwins.upcoming_whole, hu]
      have hrun : (expectNext kind >>= f) c = f () c.advance := by
        rw [bind_run_of_some (expectNext_run kind c ▸ if_pos hfound)]
        rfl
      have hlength' : (u :: shared).length ≤ n - 1 := Nat.le_sub_one_of_lt hlength
      exact (h hlength' htwins.advance hf').of_run hrun (List.suffix_cons _ _)

/-- An optional token is passed over in both sources or in none, or the rule is at
the cut. -/
theorem skipNext_bind {kind : Kind} (hkind : kind.isMark = true) {f f' : Unit → Rule β}
    (h : Paces loose more n (f ()) (f' ())) (htrails : (f ()).Trails loose) :
    Paces loose more n (skipNext kind >>= f) (skipNext kind >>= f') := by
  intro t shared c c' hlength htwins b d hd
  cases shared with
  | nil => exact InPace.trailing (Trails.skipNext_bind hkind htrails c htwins.atCut)
  | cons u shared =>
      rw [yields_skipNext_bind] at hd
      have hrun : (skipNext kind >>= f) c = f () (c.skip kind) := by
        rw [bind_run_of_some (skipNext_run kind c)]
        rfl
      unfold Cursor.skip at hd hrun
      rw [htwins.upcoming_whole] at hd
      rw [htwins.upcoming_cut] at hrun
      by_cases hu : u.kind = kind
      · rw [if_pos hu] at hd hrun
        have hlength' : (u :: shared).length ≤ n := Nat.le_of_succ_le hlength
        exact (h hlength' htwins.advance hd).of_run hrun (List.suffix_cons _ _)
      · rw [if_neg hu] at hd hrun
        exact (h hlength htwins hd).of_run hrun (List.suffix_refl _)

/-- Loops have a turn for each token before the cut and behind it. -/
theorem looped {loop loop' : Nat → Rule α}
    (h : ∀ k ≤ n, Paces loose more k (loop (loose.tokens.length + k)) (loop' (more.length + k))) :
    Paces loose more n (Rule.looped loop) (Rule.looped loop') := by
  intro t shared c c' hlength htwins a d hd
  have hcut : c.size = loose.tokens.length + (t :: shared).length := by
    rw [Cursor.size, htwins.cut, List.length_append, Nat.add_comm]
  have hwhole : c'.size = more.length + (t :: shared).length := by
    rw [Cursor.size, htwins.whole, List.length_append, Nat.add_comm]
  have hrun : Rule.looped loop c = loop (loose.tokens.length + (t :: shared).length) c := by
    rw [← hcut]
    rfl
  rw [yields_looped, hwhole] at hd
  exact (h _ hlength (Nat.le_refl _) htwins hd).of_run hrun (List.suffix_refl _)

/-- Going on after a failure: on the whole source there is none. -/
theorem attempt (h : Paces loose more n r r') (hwhole : r'.OrderlyTo (more.length + n)) :
    Paces loose more n (Rule.attempt r) (Rule.attempt r') := by
  intro t shared c c' hlength htwins found d hd
  have hsize : c'.size ≤ more.length + n := by
    simp only [Cursor.size, htwins.whole, List.length_append]
    omega
  obtain ⟨a, rfl, hr'⟩ := (hwhole c' hsize).of_attempt_yields hd
  cases h hlength htwins hr' with
  | level hyields hrest htwins' => exact InPace.level (attempt_yields hyields) hrest htwins'
  | trailing htrailing => exact InPace.trailing ⟨htrailing.incomplete, htrailing.atCut⟩

/-- Both sources show the same kind of token, so both go the same way. -/
theorem ite {p : Prop} [Decidable p] {q q' : Rule α} (hr : p → Paces loose more n r r')
    (hq : ¬ p → Paces loose more n q q') :
    Paces loose more n (if p then r else q) (if p then r' else q') := by
  split
  · next h => exact hr h
  · next h => exact hq h

section Items

variable {item item' : Rule α} {close : Kind}

/-- The items after the first one. -/
theorem moreItems (hclose : close.isMark = true) (hitem : Paces loose more n item item')
    (hpast : ∀ c, c.PastCut loose → (item c).Trailing loose) (k : Nat) (hk : k ≤ n) :
    Paces loose more k (Rule.moreItems item close (loose.tokens.length + k))
      (Rule.moreItems item' close (more.length + k)) := by
  induction k with
  | zero => exact zero
  | succ k ih =>
      have htrails (a : α) : Trails loose (do
          let rest ← Rule.moreItems item close (loose.tokens.length + k)
          Pure.pure (a :: rest)) :=
        (Trails.moreItems hclose _).bind fun _ => Trails.pure _
      have hlater (c : Cursor) (hc : c.PastCut loose) : ((do
          let a ← item
          let rest ← Rule.moreItems item close (loose.tokens.length + k)
          Pure.pure (a :: rest) : Rule (List α)) c).Trailing loose :=
        trailing_bind (hpast c hc) htrails
      have hcut : Trails loose (Rule.moreItems item close (loose.tokens.length + k + 1)) :=
        Trails.moreItems hclose _
      refine upcoming_bind (fun t => ite (fun _ => ?_) fun _ => ?_) hcut
      · refine advance_bind (advance_bind ?_ hlater) fun c hc => hlater _ hc.atCut.advance
        have hk' : k ≤ n := Nat.le_of_succ_le hk
        refine Paces.mono ((hitem.mono hk').bind (fun a a' => ?_) htrails) (Nat.sub_le k 1)
        exact (ih hk').bind (fun _ _ => pure _ _) fun _ => Trails.pure _
      · exact expectNext_bind hclose (pure _ _)

/-- A list of items; the first one stands at least one token further on. -/
theorem items (hclose : close.isMark = true) (hitem : Paces loose more (n - 1) item item')
    (hpast : ∀ c, c.PastCut loose → (item c).Trailing loose) :
    Paces loose more n (Rule.items item close) (Rule.items item' close) := by
  have htrails (a : α) : Trails loose (do
      let rest ← Rule.looped (Rule.moreItems item close)
      Pure.pure (a :: rest)) :=
    (Trails.looped (Trails.moreItems hclose)).bind fun _ => Trails.pure _
  refine upcoming_bind (fun t => ite (fun _ => ?_) fun _ => ?_) ?_
  · exact advance_bind (pure _ _) fun c hc => Trails.pure _ c hc.atCut
  · refine advance_bind ?_ fun c hc => trailing_bind (hpast c hc) htrails
    refine hitem.bind (fun a a' => ?_) htrails
    exact (looped (moreItems hclose hitem hpast)).bind (fun _ _ => pure _ _) fun _ => Trails.pure _
  · refine Trails.upcoming_bind fun t ht => ?_
    have hne : t.kind ≠ close := Token.kind_ne_of_endsSource ht hclose
    rw [if_neg hne]
    exact Trails.advance_bind fun c hc => trailing_bind (hpast c hc) htrails

end Items

end Paces
end Rule
end MonkeyLang
