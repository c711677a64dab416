import MonkeyLang.Proofs.FirstError

/-!
# Two readings around an open string literal

A string literal that is open where the source ends is an illegal token.  When the
source goes on, a string literal stands in its place.  A rule that only looks ahead
sees no difference between the two: neither is a token it may require, and neither goes
on with an expression.  So the cut source and the whole one are read alike up to that
place, the seam, and a rule that starts on it finds the open literal illegal.

`Rule.Follows` says this of two rules before the seam and `Rule.Meets` of two rules at
it.  Both are shown here for the steps that rules are made of.
-/

namespace MonkeyLang

/-- A token is a string literal, open or closed, or some other illegal piece. -/
def Token.IsText (t : Token) : Prop := t.kind = .string ∨ t.kind = .illegal

/-- A kind that some rule requires is not that of a text. -/
theorem Token.IsText.kind_ne {t : Token} {kind : Kind} (h : t.IsText)
    (hkind : kind ≠ .string ∧ kind ≠ .illegal) : t.kind ≠ kind := by
  rintro rfl
  exact h.elim hkind.1 hkind.2

/-- A string literal that is open where a source is cut, and what the whole source has in
its place and behind it. -/
structure Seam where
  opened : Token
  quoted : Token
  rest : List Token
  isOpen : opened.isUnterminated = true
  isText : quoted.IsText

namespace Seam

variable {seam : Seam} {c d : Cursor} {t : Token} {shared : List Token}

theorem kind_opened (seam : Seam) : seam.opened.kind = .illegal := by
  have hopen := seam.isOpen
  simp only [Token.isUnterminated, Bool.and_eq_true, decide_eq_true_eq] at hopen
  exact hopen.1

/-- What the cut source has from the seam on. -/
def loose (seam : Seam) : Loose :=
  ⟨[seam.opened], by simp [Token.endsSource, seam.isOpen]⟩

/-- What the whole source has from the seam on. -/
def more (seam : Seam) : List Token := seam.quoted :: seam.rest

/-- Cursors on the same token, before the seam. -/
def Twins (seam : Seam) (shared : List Token) (c d : Cursor) : Prop :=
  Cursor.Twins seam.loose seam.more shared c d

/-- At the seam the cut source has the open literal. -/
theorem Twins.current_opened (h : seam.Twins [] c d) : c.current = seam.opened := by
  simp [Cursor.current, h.cut, loose]

theorem Twins.current_quoted (h : seam.Twins [] c d) : d.current = seam.quoted := by
  simp [Cursor.current, h.whole, more]

theorem Twins.size_cut (h : seam.Twins shared c d) : c.size = shared.length + 1 := by
  simp [Cursor.size, h.cut, loose]

theorem Twins.size_whole (h : seam.Twins shared c d) :
    d.size = seam.more.length + shared.length := by
  simp [Cursor.size, h.whole, Nat.add_comm]

/-- What does not tell texts apart is true of both tokens ahead or of none. -/
theorem Twins.upcoming_iff (h : seam.Twins (t :: shared) c d) {P : Token → Prop}
    (hP : ∀ u v, u.IsText → v.IsText → (P u ↔ P v)) : P c.upcoming ↔ P d.upcoming := by
  cases shared with
  | nil =>
      have hcut : c.upcoming = seam.opened := Twins.current_opened (c := c.advance) h.advance
      have hwhole : d.upcoming = seam.quoted := Twins.current_quoted (d := d.advance) h.advance
      rw [hcut, hwhole]
      exact hP _ _ (Or.inr seam.kind_opened) seam.isText
  | cons u shared => rw [h.upcoming_cut, h.upcoming_whole]

/-- Where the token ahead is no text there is one more before the seam. -/
theorem Twins.exists_cons (h : seam.Twins (t :: shared) c d) (hupcoming : ¬ c.upcoming.IsText) :
    ∃ u rest, shared = u :: rest := by
  cases shared with
  | nil =>
      have hcut : c.upcoming = seam.opened := Twins.current_opened (c := c.advance) h.advance
      rw [hcut] at hupcoming
      exact absurd (Or.inr seam.kind_opened) hupcoming
  | cons u rest => exact ⟨u, rest, rfl⟩

end Seam

namespace Rule

variable {α β : Type} {seam : Seam} {c : Cursor}

/-- The first thing the rule records is an illegal token. -/
def Balks (r : Rule α) (c : Cursor) : Prop :=
  ∃ e literal, r.Stumbles c e ∧ e.fault = .illegal literal

/-- What follows does not matter then. -/
theorem Balks.bind {r : Rule α} (h : r.Balks c) (f : α → Rule β) : (r >>= f).Balks c := by
  obtain ⟨e, literal, hstumbles, hfault⟩ := h
  exact ⟨e, literal, stumbles_bind.2 (Or.inl hstumbles), hfault⟩

/-- How a rule fares on a cut source when on the whole one it stops at `d`: it stops on
the same token, or it finds an illegal one. -/
inductive Following (seam : Seam) (shared : List Token) (r : Rule α) (c d : Cursor) : Prop
  | level {a : α} {e : Cursor} {t : Token} {rest : List Token} (hr : r.Yields c a e)
      (hrest : t :: rest <:+ shared) (htwins : seam.Twins (t :: rest) e d)
  | balking (h : r.Balks c)

theorem Following.of_run {shared rest : List Token} {r q : Rule α} {c d e : Cursor}
    (hrun : r c = q e) (hrest : rest <:+ shared) (h : Following seam rest q e d) :
    Following seam shared r c d := by
  cases h with
  | level hq hsuffix htwins => exact Following.level (hrun.trans hq) (hsuffix.trans hrest) htwins
  | balking h =>
      obtain ⟨e, literal, hstumbles, hfault⟩ := h
      refine Following.balking ⟨e, literal, ?_, hfault⟩
      rw [Stumbles, hrun]
      exact hstumbles

/-- At the seam the rule finds an illegal token where on the whole source it succeeds. -/
def Meets (seam : Seam) (r r' : Rule α) : Prop :=
  ∀ ⦃c c'⦄, seam.Twins [] c c' → ∀ ⦃a d⦄, r'.Yields c' a d → r.Balks c

theorem Meets.bind {r r' : Rule α} (h : Meets seam r r') (f f' : α → Rule β) :
    Meets seam (r >>= f) (r' >>= f') := by
  intro c c' htwins b d hd
  obtain ⟨a, m, ha, _⟩ := yields_bind.1 hd
  exact (h htwins ha).bind f

/-- Where at most `n` tokens are left before the seam, the first rule on the cut source
follows the second one on the whole source. -/
def Follows (seam : Seam) (n : Nat) (r r' : Rule α) : Prop :=
  ∀ ⦃t shared c c'⦄, (t :: shared).length ≤ n → seam.Twins (t :: shared) c c' →
    ∀ ⦃a d⦄, r'.Yields c' a d → Following seam (t :: shared) r c d

namespace Follows

variable {n : Nat} {r r' : Rule α}

theorem mono {k : Nat} (h : Follows seam n r r') (hk : k ≤ n) : Follows seam k r r' := by
  intro t shared c c' hlength htwins a d hr'
  exact h (Nat.le_trans hlength hk) htwins hr'

/-- There is always a token before the seam. -/
theorem zero : Follows seam 0 r r' := by
  intro t shared c c' hlength
  simp at hlength

/-- A rule that never succeeds need not be followed. -/
theorem of_never (h : ∀ c a d, ¬ r'.Yields c a d) : Follows seam n r r' := by
  intro t shared c c' _ _ a d hr'
  exact absurd hr' (h c' a d)

theorem pure (a b : α) : Follows seam n (Pure.pure a : Rule α) (Pure.pure b) := by
  intro t shared c c' _ htwins b' d hd
  obtain ⟨-, rfl⟩ := yields_pure.1 hd
  exact Following.level rfl (List.suffix_refl _) htwins

/-- One rule after another. -/
theorem bind {f f' : α → Rule β} (hr : Follows seam n r r')
    (hf : ∀ a a', Follows seam n (f a) (f' a')) : Follows seam n (r >>= f) (r' >>= f') := by
  intro t shared c c' hlength htwins b d hd
  obtain ⟨a', m', hr', hf'⟩ := yields_bind.1 hd
  cases hr hlength htwins hr' with
  | @level a m u rest hyields hrest htwins' =>
      have hrun : (r >>= f) c = f a m := by
        rw [bind_run_of_some hyields]
        rfl
      exact (hf a a' (Nat.le_trans hrest.length_le hlength) htwins' hf').of_run hrun hrest
  | balking h => exact Following.balking (h.bind f)

/-- The current token is the same in both sources. -/
theorem current_bind {f f' : Token → Rule β} (h : ∀ t, Follows seam n (f t) (f' t)) :
    Follows seam n (current >>= f) (current >>= f') := by
  intro t shared c c' hlength htwins b d hd
  rw [yields_current_bind, htwins.current_whole] at hd
  have hrun : (current >>= f) c = f t c := by rw [current_bind_run, htwins.current_cut]
  exact (h t hlength htwins hd).of_run hrun (List.suffix_refl _)

/-- Moving on leaves one token less before the seam, or gets there. -/
theorem advance_bind {f f' : Unit → Rule β} (h : Follows seam (n - 1) (f ()) (f' ()))
    (hmeets : Meets seam (f ()) (f' ())) :
    Follows seam n (advance >>= f) (advance >>= f') := by
  intro t shared c c' hlength htwins b d hd
  cases shared with
  | nil => exact Following.balking (hmeets (c := c.advance) htwins.advance hd)
  | cons u shared =>
      have hlength' : (u :: shared).length ≤ n - 1 := Nat.le_sub_one_of_lt hlength
      exact (h hlength' htwins.advance hd).of_run (advance_bind_run f c) (List.suffix_cons _ _)

/-- A choice by the token ahead that does not tell texts apart. -/
theorem upcoming_ite {P : Token → Prop} [DecidablePred P]
    (hP : ∀ u v, u.IsText → v.IsText → (P u ↔ P v))
    {f f' q q' : Token → Rule β} (hf : ∀ t t', Follows seam n (f t) (f' t'))
    (hq : ∀ t t', Follows seam n (q t) (q' t')) :
    Follows seam n (upcoming >>= fun t => if P t then f t else q t)
      (upcoming >>= fun t => if P t then f' t else q' t) := by
  intro t shared c c' hlength htwins b d hd
  have hiff := htwins.upcoming_iff hP
  rw [yields_upcoming_bind] at hd
  by_cases hupcoming : P c.upcoming
  · rw [if_pos (hiff.1 hupcoming)] at hd
    refine (hf c.upcoming c'.upcoming hlength htwins hd).of_run ?_ (List.suffix_refl _)
    rw [upcoming_bind_run, if_pos hupcoming]
  · rw [if_neg (mt hiff.2 hupcoming)] at hd
    refine (hq c.upcoming c'.upcoming hlength htwins hd).of_run ?_ (List.suffix_refl _)
    rw [upcoming_bind_run, if_neg hupcoming]

/-- A choice for which a token that is no text is passed over. -/
theorem upcoming_take {P : Token → Prop} [DecidablePred P] (hP : ∀ t, t.IsText → ¬ P t)
    {f f' : Token → Unit → Rule β} {q q' : Token → Rule β}
    (hf : ∀ t t', Follows seam (n - 1) (f t ()) (f' t' ()))
    (hq : ∀ t t', Follows seam n (q t) (q' t')) :
    Follows seam n (upcoming >>= fun t => if P t then advance >>= f t else q t)
      (upcoming >>= fun t => if P t then advance >>= f' t else q' t) := by
  intro t shared c c' hlength htwins b d hd
  have hiff := htwins.upcoming_iff fun u v hu hv => iff_of_false (hP u hu) (hP v hv)
  rw [yields_upcoming_bind] at hd
  by_cases hupcoming : P c.upcoming
  · rw [if_pos (hiff.1 hupcoming), yields_advance_bind] at hd
    obtain ⟨u, rest, rfl⟩ := htwins.exists_cons fun htext => hP _ htext hupcoming
    have hlength' : (u :: rest).length ≤ n - 1 := Nat.le_sub_one_of_lt hlength
    refine (hf c.upcoming c'.upcoming hlength' htwins.advance hd).of_run ?_ (List.suffix_cons _ _)
    rw [upcoming_bind_run, if_pos hupcoming, advance_bind_run]
  · rw [if_neg (mt hiff.2 hupcoming)] at hd
    refine (hq c.upcoming c'.upcoming hlength htwins hd).of_run ?_ (List.suffix_refl _)
    rw [upcoming_bind_run, if_neg hupcoming]

/-- A required token is found in both sources. -/
theorem expectNext_bind {kind : Kind} (hkind : kind ≠ .string ∧ kind ≠ .illegal)
    {f f' : Unit → Rule β} (h : Follows seam (n - 1) (f ()) (f' ())) :
    Follows seam n (expectNext kind >>= f) (expectNext kind >>= f') := by
  intro t shared c c' hlength htwins b d hd
  have hP (u : Token) (hu : u.IsText) : u.kind ≠ kind := hu.kind_ne hkind
  obtain ⟨hwhole, hf'⟩ := yields_expectNext_bind.1 hd
  have hiff := htwins.upcoming_iff fun u v hu hv => iff_of_false (hP u hu) (hP v hv)
  have hcut : c.upcoming.kind = kind := hiff.2 hwhole
  obtain ⟨u, rest, rfl⟩ := htwins.exists_cons fun htext => hP _ htext hcut
  have hrun : (expectNext kind >>= f) c = f () c.advance := by
    rw [bind_run_of_some (expectNext_run kind c ▸ if_pos hcut)]
    rfl
  have hlength' : (u :: rest).length ≤ n - 1 := Nat.le_sub_one_of_lt hlength
  exact (h hlength' htwins.advance hf').of_run hrun (List.suffix_cons _ _)

/-- An optional token is passed over in both sources or in none. -/
theorem skipNext_bind {kind : Kind} (hkind : kind ≠ .string ∧ kind ≠ .illegal)
    {f f' : Unit → Rule β} (h : Follows seam n (f ()) (f' ())) :
    Follows seam n (skipNext kind >>= f) (skipNext kind >>= f') := by
  intro t shared c c' hlength htwins b d hd
  have hP (u : Token) (hu : u.IsText) : u.kind ≠ kind := hu.kind_ne hkind
  have hiff := htwins.upcoming_iff fun u v hu hv => iff_of_false (hP u hu) (hP v hv)
  rw [yields_skipNext_bind] at hd
  have hrun : (skipNext kind >>= f) c = f () (c.skip kind) := by
    rw [bind_run_of_some (skipNext_run kind c)]
    rfl
  unfold Cursor.skip at hd hrun
  by_cases hcut : c.upcoming.kind = kind
  · rw [if_pos (hiff.1 hcut)] at hd
    rw [if_pos hcut] at hrun
    obtain ⟨u, rest, rfl⟩ := htwins.exists_cons fun htext => hP _ htext hcut
    have hlength' : (u :: rest).length ≤ n := Nat.le_of_succ_le hlength
    exact (h hlength' htwins.advance hd).of_run hrun (List.suffix_cons _ _)
  · rw [if_neg (mt hiff.2 hcut)] at hd
    rw [if_neg hcut] at hrun
    exact (h hlength htwins hd).of_run hrun (List.suffix_refl _)

/-- Loops have a turn for each token before the seam and behind it. -/
theorem looped {loop loop' : Nat → Rule α}
    (h : ∀ k ≤ n, Follows seam k (loop (k + 1)) (loop' (seam.more.length + k))) :
    Follows seam n (Rule.looped loop) (Rule.looped loop') := by
  intro t shared c c' hlength htwins a d hd
  rw [yields_looped, htwins.size_whole] at hd
  refine (h _ hlength (Nat.le_refl _) htwins hd).of_run ?_ (List.suffix_refl _)
  rw [← htwins.size_cut]
  rfl

/-- Going on after a failure: on the whole source there is none. -/
theorem attempt (h : Follows seam n r r') (hwhole : r'.OrderlyTo (seam.more.length + n)) :
    Follows seam n (Rule.attempt r) (Rule.attempt r') := by
  intro t shared c c' hlength htwins found d hd
  have hsize : c'.size ≤ seam.more.length + n := by
    rw [htwins.size_whole]
    omega
  obtain ⟨a, rfl, hr'⟩ := (hwhole c' hsize).of_attempt_yields hd
  cases h hlength htwins hr' with
  | level hyields hrest htwins' => exact Following.level (attempt_yields hyields) hrest htwins'
  | balking h => exact Following.balking h

section Items

variable {item item' : Rule α} {close : Kind}

/-- The items after the first one. -/
theorem moreItems (hclose : close ≠ .string ∧ close ≠ .illegal) (hitem : Follows seam n item item')
    (hmeets : Meets seam item item') (k : Nat) (hk : k ≤ n) :
    Follows seam k (Rule.moreItems item close (k + 1))
      (Rule.moreItems item' close (seam.more.length + k)) := by
  induction k with
  | zero => exact zero
  | succ k ih =>
      have hk' : k ≤ n := Nat.le_of_succ_le hk
      refine upcoming_take (fun t ht => ht.kind_ne (by decide)) (fun t t' => ?_) fun t t' => ?_
      · refine advance_bind ?_ (hmeets.bind _ _)
        refine mono ((hitem.mono hk').bind fun a a' => ?_) (by omega)
        exact (ih hk').bind fun _ _ => pure _ _
      · exact expectNext_bind hclose (pure _ _)

/-- A list of items; the first one stands at least one token further on. -/
theorem items (hclose : close ≠ .string ∧ close ≠ .illegal)
    (hitem : Follows seam (n - 1) item item') (hmeets : Meets seam item item') :
    Follows seam n (Rule.items item close) (Rule.items item' close) := by
  refine upcoming_take (fun t ht => ht.kind_ne hclose) (fun t t' => pure _ _) fun t t' => ?_
  · refine advance_bind (hitem.bind fun a a' => ?_) (hmeets.bind _ _)
    exact (looped (moreItems hclose hitem hmeets)).bind fun _ _ => pure _ _

end Items

end Follows
end Rule

end MonkeyLang
