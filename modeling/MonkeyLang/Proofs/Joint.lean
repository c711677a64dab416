import MonkeyLang.Proofs.CutPace
import MonkeyLang.Proofs.Reading

/-!
# Reading on behind a semicolon

A source is read by itself, and again with a semicolon and more behind it.  Neither
the end of a source nor a semicolon can be required or goes on with an expression, so
the rules tell the two apart in few places: a semicolon may end a statement, it is
passed over between statements, and it does not end a block.  Where reading the short
source runs into its end in any other way, what it records is incomplete.

So if nothing that is recorded about the short source is incomplete, both readings
reach the semicolon with the same statements and the same errors, between two
statements, whatever went wrong on the way; and there the longer one goes on as if it
began.  `Rule.Joins` follows the two readings along the rules, failures included.
-/

namespace MonkeyLang

/-- Among the errors is one that more input might mend. -/
def Outcome.CutShort {α : Type} (o : Outcome α) : Prop :=
  ∃ e ∈ o.errors, e.isIncomplete = true

/-- What stands behind a source: in the short one tokens that end it, in the longer one
a semicolon and all that is read behind it. -/
structure Joint where
  loose : Loose
  mark : Token
  isMark : mark.kind = .semicolon
  onward : Cursor

namespace Joint

variable {joint : Joint} {c d : Cursor} {t : Token} {shared : List Token}

/-- What the longer source has behind the shared tokens. -/
def more (joint : Joint) : List Token := joint.mark :: joint.onward.ahead

/-- Cursors on the same token, before the joint. -/
structure Twins (joint : Joint) (shared : List Token) (c d : Cursor) : Prop
    extends Cursor.Twins joint.loose joint.more shared c d where
  finish : d.finish = joint.onward.finish

theorem Twins.onward (h : joint.Twins (t :: shared) c d) :
    joint.Twins shared c.advance d.advance :=
  ⟨h.toTwins.advance, h.finish⟩

/-- At the joint the longer source has the semicolon. -/
theorem Twins.current_mark (h : joint.Twins [] c d) : d.current = joint.mark := by
  simp [Cursor.current, h.whole, more]

theorem Twins.upcoming_mark (h : joint.Twins [t] c d) : d.upcoming = joint.mark :=
  h.onward.current_mark

/-- Behind the semicolon the longer source goes on. -/
theorem Twins.advance_mark (h : joint.Twins [] c d) : d.advance = joint.onward := by
  have hahead : d.advance.ahead = joint.onward.ahead := by
    simp [Cursor.advance, h.whole, more]
  exact Cursor.ext_ahead hahead h.finish

theorem Twins.size_cut (h : joint.Twins shared c d) :
    c.size = joint.loose.tokens.length + shared.length := by
  simp [Cursor.size, h.cut, Nat.add_comm]

theorem Twins.size_whole (h : joint.Twins shared c d) :
    d.size = joint.more.length + shared.length := by
  simp [Cursor.size, h.whole, Nat.add_comm]

end Joint

/-! ## Rules that run into the end -/

namespace Rule

variable {α β : Type} {loose : Loose} {c : Cursor}

/-- What follows does not mend what was recorded. -/
theorem cutShort_bind {r : Rule α} (h : (r c).CutShort) (f : α → Rule β) :
    ((r >>= f) c).CutShort := by
  obtain ⟨e, he, hincomplete⟩ := h
  refine ⟨e, ?_, hincomplete⟩
  rcases ho : r c with ⟨_ | a, d, errors⟩
  · rw [bind_run_of_none ho]
    simpa [ho] using he
  · rw [bind_run_of_some ho]
    refine List.mem_append_left _ ?_
    simpa [ho] using he

/-- Started behind the cut, the rule misses what it is to read. -/
def Starves (loose : Loose) (r : Rule α) : Prop :=
  ∀ c, c.PastCut loose → (r c).CutShort

/-- Started on the last token before the cut, the rule misses what is to follow. -/
def Founders (loose : Loose) (r : Rule α) : Prop :=
  ∀ c, c.AtCut loose → (r c).CutShort

theorem Starves.bind {r : Rule α} (h : r.Starves loose) (f : α → Rule β) :
    (r >>= f).Starves loose :=
  fun c hc => cutShort_bind (h c hc) f

namespace Founders

theorem bind {r : Rule α} (h : r.Founders loose) (f : α → Rule β) :
    (r >>= f).Founders loose :=
  fun c hc => cutShort_bind (h c hc) f

/-- Moving on from the cut leaves nothing to read. -/
theorem advance_bind {f : Unit → Rule β} (h : (f ()).Starves loose) :
    Founders loose (advance >>= f) :=
  fun c hc => h c.advance hc.advance

/-- What is required is missing. -/
theorem expectNext {kind : Kind} (hkind : kind.isMark = true) :
    Founders loose (expectNext kind) := by
  intro c hc
  have hne : c.upcoming.kind ≠ kind := Token.kind_ne_of_endsSource hc.upcoming_ends hkind
  rw [expectNext_run, if_neg hne]
  exact ⟨_, List.mem_singleton.2 rfl, hc.upcoming_ends⟩

end Founders

/-! ## Rules before the joint -/

/-- How the outcomes on the two sources compare: they are the same, and the cursors stand
on the same token; or a statement has ended, with the semicolon in the longer source; or
the short source came to its end too early. -/
inductive Abreast (joint : Joint) (ends : Bool) (shared : List Token) (o o' : Outcome α) : Prop
  | level {t : Token} {rest : List Token}
      (hnode : o'.node? = o.node?)
      (herrors : o'.errors = o.errors)
      (hrest : t :: rest <:+ shared)
      (htwins : joint.Twins (t :: rest) o.cursor o'.cursor)
  | ended
      (hends : ends = true)
      (hnode : o'.node? = o.node?)
      (herrors : o'.errors = o.errors)
      (htwins : joint.Twins [] o.cursor.advance o'.cursor)
  | short (h : o.CutShort)

/-- From a later token on is from an earlier one on. -/
theorem Abreast.from_behind {joint : Joint} {ends : Bool} {shared rest : List Token}
    {o o' : Outcome α} (h : Abreast joint ends rest o o') (hrest : rest <:+ shared) :
    Abreast joint ends shared o o' := by
  cases h with
  | level hnode herrors hsuffix htwins =>
      exact Abreast.level hnode herrors (hsuffix.trans hrest) htwins
  | ended hends hnode herrors htwins => exact Abreast.ended hends hnode herrors htwins
  | short h => exact Abreast.short h

/-- Where at most `n` tokens are left before the joint, the second rule on the longer
source does what the first one does on the short one, unless that is cut short. -/
def Joins (joint : Joint) (ends : Bool) (n : Nat) (r r' : Rule α) : Prop :=
  ∀ ⦃t shared c c'⦄, (t :: shared).length ≤ n → joint.Twins (t :: shared) c c' →
    Abreast joint ends (t :: shared) (r c) (r' c')

namespace Joins

variable {joint : Joint} {ends : Bool} {n : Nat} {r r' : Rule α}

theorem mono {k : Nat} (h : Joins joint ends n r r') (hk : k ≤ n) : Joins joint ends k r r' := by
  intro t shared c c' hlength htwins
  exact h (Nat.le_trans hlength hk) htwins

/-- There is always a token before the joint. -/
theorem zero : Joins joint ends 0 r r' := by
  intro t shared c c' hlength
  simp at hlength

theorem pure (a : α) : Joins joint ends n (Pure.pure a : Rule α) (Pure.pure a) := by
  intro t shared c c' _ htwins
  exact Abreast.level rfl rfl (List.suffix_refl _) htwins

/-- The same fault is found at the same token. -/
theorem fail (fault : Fault) (u : Token) :
    Joins joint ends n (Rule.fail fault u : Rule α) (Rule.fail fault u) := by
  intro t shared c c' _ htwins
  exact Abreast.level rfl rfl (List.suffix_refl _) htwins

/-- One rule after another.  Only the last one may end a statement. -/
theorem bind {f f' : α → Rule β} (hr : Joins joint false n r r')
    (hf : ∀ a, Joins joint ends n (f a) (f' a)) : Joins joint ends n (r >>= f) (r' >>= f') := by
  intro t shared c c' hlength htwins
  have hfirst := hr hlength htwins
  rcases ho : r c with ⟨node, e, errors⟩
  rcases ho' : r' c' with ⟨node', e', errors'⟩
  rw [ho, ho'] at hfirst
  cases hfirst with
  | level hnode herrors hrest htwins' =>
      cases hnode
      cases herrors
      cases node with
      | none =>
          rw [bind_run_of_none ho, bind_run_of_none ho']
          exact Abreast.level rfl rfl hrest htwins'
      | some a =>
          rw [bind_run_of_some ho, bind_run_of_some ho']
          have hlength' := Nat.le_trans hrest.length_le hlength
          cases hf a hlength' htwins' with
          | level hnode herrors hrest' htwins'' =>
              refine Abreast.level hnode ?_ (hrest'.trans hrest) htwins''
              exact congrArg (errors ++ ·) herrors
          | ended hends hnode herrors htwins'' =>
              exact Abreast.ended hends hnode (congrArg (errors ++ ·) herrors) htwins''
          | short h =>
              obtain ⟨x, hx, hincomplete⟩ := h
              exact Abreast.short ⟨x, List.mem_append_right _ hx, hincomplete⟩
  | ended hends _ _ _ => cases hends
  | short h =>
      refine Abreast.short (cutShort_bind ?_ f)
      rwa [ho]

/-- The current token is the same in both sources. -/
theorem current_bind {f f' : Token → Rule β} (h : ∀ t, Joins joint ends n (f t) (f' t)) :
    Joins joint ends n (current >>= f) (current >>= f') := by
  intro t shared c c' hlength htwins
  rw [current_bind_run, current_bind_run, htwins.current_cut, htwins.current_whole]
  exact h t hlength htwins

/-- The token after the current one is the same, or it is what ends the short source here
and the semicolon there. -/
theorem upcoming_bind {f f' : Token → Rule β} (h : ∀ t, Joins joint ends n (f t) (f' t))
    (hcut : ∀ t c c', joint.Twins [t] c c' →
      Abreast joint ends [t] (f c.upcoming c) (f' joint.mark c')) :
    Joins joint ends n (upcoming >>= f) (upcoming >>= f') := by
  intro t shared c c' hlength htwins
  rw [upcoming_bind_run, upcoming_bind_run]
  cases shared with
  | nil =>
      rw [htwins.upcoming_mark]
      exact hcut t c c' htwins
  | cons u shared =>
      rw [htwins.upcoming_cut, htwins.upcoming_whole]
      exact h u hlength htwins

/-- Moving on leaves one token less before the joint, or nothing to read. -/
theorem advance_bind {f f' : Unit → Rule β} (h : Joins joint ends (n - 1) (f ()) (f' ()))
    (hstarves : (f ()).Starves joint.loose) :
    Joins joint ends n (advance >>= f) (advance >>= f') := by
  intro t shared c c' hlength htwins
  rw [advance_bind_run, advance_bind_run]
  cases shared with
  | nil => exact Abreast.short (hstarves c.advance htwins.onward.pastCut)
  | cons u shared =>
      have hlength' : (u :: shared).length ≤ n - 1 := Nat.le_sub_one_of_lt hlength
      exact (h hlength' htwins.onward).from_behind (List.suffix_cons _ _)

/-- A required token is found in both sources, or missed at the same token. -/
theorem expectNext_bind {kind : Kind} (hkind : kind.isMark = true) {f f' : Unit → Rule β}
    (h : Joins joint ends (n - 1) (f ()) (f' ())) :
    Joins joint ends n (Rule.expectNext kind >>= f) (Rule.expectNext kind >>= f') := by
  intro t shared c c' hlength htwins
  cases shared with
  | nil => exact Abreast.short ((Founders.expectNext hkind).bind f c htwins.atCut)
  | cons u shared =>
      by_cases hu : u.kind = kind
      · have hcut : c.upcoming.kind = kind := by rwa [htwins.upcoming_cut]
        have hwhole : c'.upcoming.kind = kind := by rwa [htwins.upcoming_whole]
        have hrun : (Rule.expectNext kind >>= f) c = f () c.advance := by
          rw [bind_run_of_some (expectNext_run kind c ▸ if_pos hcut)]
          rfl
        have hrun' : (Rule.expectNext kind >>= f') c' = f' () c'.advance := by
          rw [bind_run_of_some (expectNext_run kind c' ▸ if_pos hwhole)]
          rfl
        rw [hrun, hrun']
        have hlength' : (u :: shared).length ≤ n - 1 := Nat.le_sub_one_of_lt hlength
        exact (h hlength' htwins.onward).from_behind (List.suffix_cons _ _)
      · have hcut : c.upcoming.kind ≠ kind := by rwa [htwins.upcoming_cut]
        have hwhole : c'.upcoming.kind ≠ kind := by rwa [htwins.upcoming_whole]
        have hrun := bind_run_of_none (expectNext_run kind c ▸ if_neg hcut) f
        have hrun' := bind_run_of_none (expectNext_run kind c' ▸ if_neg hwhole) f'
        rw [hrun, hrun', htwins.upcoming_cut, htwins.upcoming_whole]
        exact Abreast.level rfl rfl (List.suffix_refl _) htwins

/-- The semicolon that may end a statement: behind the short source there is none, in the
longer one there is. -/
theorem ending (a : α) :
    Joins joint true n (do skipNext .semicolon; Pure.pure a)
      (do skipNext .semicolon; Pure.pure a) := by
  intro t shared c c' _ htwins
  have hrun (d : Cursor) : (do skipNext .semicolon; Pure.pure a : Rule α) d =
      ⟨some a, d.skip .semicolon, []⟩ := by
    rw [bind_run_of_some (skipNext_run .semicolon d)]
    rfl
  rw [hrun, hrun]
  unfold Cursor.skip
  cases shared with
  | nil =>
      have hcut : c.upcoming.kind ≠ .semicolon :=
        Token.kind_ne_of_endsSource htwins.atCut.upcoming_ends rfl
      have hwhole : c'.upcoming.kind = .semicolon := by rw [htwins.upcoming_mark, joint.isMark]
      rw [if_neg hcut, if_pos hwhole]
      exact Abreast.ended rfl rfl rfl htwins.onward
  | cons u shared =>
      rw [htwins.upcoming_cut, htwins.upcoming_whole]
      by_cases hu : u.kind = .semicolon
      · rw [if_pos hu, if_pos hu]
        exact Abreast.level rfl rfl (List.suffix_cons _ _) htwins.onward
      · rw [if_neg hu, if_neg hu]
        exact Abreast.level rfl rfl (List.suffix_refl _) htwins

/-- Both sources show the same token, so both go the same way. -/
theorem ite {p : Prop} [Decidable p] {q q' : Rule α} (hr : p → Joins joint ends n r r')
    (hq : ¬ p → Joins joint ends n q q') :
    Joins joint ends n (if p then r else q) (if p then r' else q') := by
  by_cases hp : p
  · rw [if_pos hp, if_pos hp]
    exact hr hp
  · rw [if_neg hp, if_neg hp]
    exact hq hp

/-- A token of the grammar is passed over in both sources, or it is in none; then neither
what ends the short source nor the semicolon is such a token. -/
theorem upcoming_take {kind : Kind} (hkind : kind.isMark = true) (hne : kind ≠ .semicolon)
    {f f' : Token → Unit → Rule β} {g g' : Token → Rule β}
    (hf : ∀ t, Joins joint ends (n - 1) (f t ()) (f' t ()))
    (hg : ∀ t, Joins joint ends n (g t) (g' t))
    (hcut : ∀ t c c', joint.Twins [t] c c' →
      Abreast joint ends [t] (g c.upcoming c) (g' joint.mark c')) :
    Joins joint ends n (upcoming >>= fun t => if t.kind = kind then Rule.advance >>= f t else g t)
      (upcoming >>= fun t => if t.kind = kind then Rule.advance >>= f' t else g' t) := by
  intro t shared c c' hlength htwins
  rw [upcoming_bind_run, upcoming_bind_run]
  cases shared with
  | nil =>
      have hne' : joint.mark.kind ≠ kind := by rwa [joint.isMark, ne_comm]
      have hends : c.upcoming.kind ≠ kind :=
        Token.kind_ne_of_endsSource htwins.atCut.upcoming_ends hkind
      rw [htwins.upcoming_mark, if_neg hends, if_neg hne']
      exact hcut t c c' htwins
  | cons u shared =>
      rw [htwins.upcoming_cut, htwins.upcoming_whole]
      by_cases hu : u.kind = kind
      · rw [if_pos hu, if_pos hu, advance_bind_run, advance_bind_run]
        have hlength' : (u :: shared).length ≤ n - 1 := Nat.le_sub_one_of_lt hlength
        exact (hf u hlength' htwins.onward).from_behind (List.suffix_cons _ _)
      · rw [if_neg hu, if_neg hu]
        exact hg u hlength htwins

/-- Loops have a turn for each token before the joint and behind it. -/
theorem looped {loop loop' : Nat → Rule α}
    (h : ∀ k ≤ n, Joins joint ends k (loop (joint.loose.tokens.length + k))
      (loop' (joint.more.length + k))) :
    Joins joint ends n (Rule.looped loop) (Rule.looped loop') := by
  intro t shared c c' hlength htwins
  have hturns := h _ hlength (Nat.le_refl _) htwins
  rwa [← htwins.size_cut, ← htwins.size_whole] at hturns

section Items

variable {item item' : Rule α} {close : Kind}

/-- The items after the first one. -/
theorem moreItems (hclose : close.isMark = true) (hitem : Joins joint false n item item')
    (hstarves : item.Starves joint.loose) (k : Nat) (hk : k ≤ n) :
    Joins joint false k (Rule.moreItems item close (joint.loose.tokens.length + k))
      (Rule.moreItems item' close (joint.more.length + k)) := by
  induction k with
  | zero => exact zero
  | succ k ih =>
      have hk' : k ≤ n := Nat.le_of_succ_le hk
      have hclosing : Joins joint false (k + 1)
          (do Rule.expectNext close; Pure.pure ([] : List α))
          (do Rule.expectNext close; Pure.pure ([] : List α)) :=
        expectNext_bind hclose (pure [])
      refine upcoming_take rfl (by decide) (fun t => ?_) (fun t => hclosing) fun t c c' htwins => ?_
      · refine advance_bind (mono (n := k) ?_ (by omega)) (hstarves.bind _)
        exact (hitem.mono hk').bind fun a => (ih hk').bind fun rest => pure (a :: rest)
      · exact hclosing (by simp) htwins

/-- A list of items; the first one stands at least one token further on. -/
theorem items (hclose : close.isMark = true) (hne : close ≠ .semicolon)
    (hitem : Joins joint false (n - 1) item item') (hstarves : item.Starves joint.loose) :
    Joins joint false n (Rule.items item close) (Rule.items item' close) := by
  refine upcoming_take hclose hne (fun t => pure []) (fun t => ?_) fun t c c' htwins => ?_
  · refine advance_bind (hitem.bind fun a => ?_) (hstarves.bind _)
    exact (looped (moreItems hclose hitem hstarves)).bind fun rest => pure (a :: rest)
  · exact Abreast.short (Founders.advance_bind (hstarves.bind _) c htwins.atCut)

end Items

end Joins
end Rule
end MonkeyLang
