import MonkeyLang.Proofs.Completion
import MonkeyLang.Proofs.Imprint
import MonkeyLang.Proofs.ParseExact

/-!
# What may be left out behind a program

Semicolons behind the last statement of a program say nothing, and they are the only
tokens of which this is true: if a program is read from some tokens, then it is read from
an initial part of them exactly when only semicolons are left out (`Body.kept_iff`).

That semicolons may be left out is seen from the last statement, which ends as well
without one.  For the other direction the two readings are compared statement by
statement.  As long as both begin with the same tokens they agree (`Body.cancel`), up to
the last statement of the shorter reading.  There the longer one could only go on with
something that continues the statement, and that would leave its imprint in the tree.
-/

namespace MonkeyLang

/-! ## Semicolons left out -/

/-- Where no statement is read there are only semicolons. -/
theorem Body.forall_semicolon {behind : Kind} {w : List Token} {list : List Stmt}
    (h : Body behind w list) (hlist : list = []) : ∀ t ∈ w, t.kind = .semicolon := by
  match h with
  | .done => simp
  | .semicolon h rest => simpa [h] using rest.forall_semicolon hlist
  | .statement _ _ => cases hlist

/-- A semicolon behind an expression is the ending of its statement. -/
theorem Ending.eq_before {behind before : Kind} {u w z : List Token} {t : Token}
    (h : Ending behind z) (hends : (lastKind before u).ends) (heq : u ++ z = w ++ [t])
    (ht : t.kind = .semicolon) : u = w := by
  cases h with
  | omitted _ =>
      rw [List.append_nil] at heq
      simp [heq, ht, Kind.ends] at hends
  | semicolon _ => exact (List.append_inj' heq rfl).1

/-- At the end of a source a statement ends as well without its semicolon. -/
theorem Sentence.of_concat_semicolon {v w : List Token} {t : Token} {s : Stmt}
    (h : Sentence .eof v s) (hv : v = w ++ [t]) (ht : t.kind = .semicolon) : Sentence .eof w s := by
  have homitted : Ending .eof [] := .omitted (by decide)
  cases h with
  | @bind _ t' name sign x z e h hname hsign value ending =>
      have hends : (lastKind .eof (t' :: name :: sign :: x)).ends := value.lastKind_ends _
      obtain rfl := ending.eq_before hends hv ht
      simpa using Sentence.bind h hname hsign value homitted
  | leave h _ =>
      have hlast := congrArg (lastKind .eof) hv
      simp [h, ht] at hlast
  | @leaveMarked _ t' mark h _ =>
      have heq : [t'] ++ [mark] = w ++ [t] := hv
      obtain ⟨rfl, _⟩ := List.append_inj' heq rfl
      exact .leave h (.inr (.inr rfl))
  | @leaveWith _ t' x z e h value ending =>
      have hends : (lastKind .eof (t' :: x)).ends := value.lastKind_ends _
      obtain rfl := ending.eq_before hends hv ht
      simpa using Sentence.leaveWith h value homitted
  | @expr _ t' x z e value ending =>
      obtain rfl := ending.eq_before (value.lastKind_ends .eof) hv ht
      simpa using Sentence.expr value homitted

/-- The last semicolon of a source may be left out. -/
theorem Body.of_concat_semicolon {behind : Kind} {v w : List Token} {t : Token} {list : List Stmt}
    (h : Body behind v list) (hbehind : behind = .eof) (hv : v = w ++ [t])
    (ht : t.kind = .semicolon) : Body behind w list := by
  match h with
  | .done => simp at hv
  | .semicolon (t := t') (w := x) hmark rest =>
      rcases List.cons_eq_append_iff.1 hv with ⟨rfl, hx⟩ | ⟨y, rfl, hx⟩
      · cases hx
        exact rest
      · exact .semicolon hmark (rest.of_concat_semicolon hbehind hx ht)
  | .statement (u := u) (w := x) first rest =>
      subst hbehind
      rcases x.eq_nil_or_concat with rfl | ⟨y, b, rfl⟩
      · rw [List.append_nil] at hv
        have hlast := first.of_concat_semicolon hv ht
        rw [← List.append_nil w]
        exact .statement hlast rest
      · have heq : u ++ y ++ [b] = w ++ [t] := by simpa using hv
        obtain ⟨rfl, hb⟩ := List.append_inj' heq rfl
        obtain rfl : b = t := by simpa using hb
        refine .statement ?_ (rest.of_concat_semicolon rfl List.concat_eq_append ht)
        cases y with
        | nil => exact first.before (by decide) fun _ => .inr (.inr rfl)
        | cons r y => exact first

/-- Semicolons behind a program may be left out. -/
theorem Body.of_append_semicolons {w z : List Token} {list : List Stmt}
    (h : Body .eof (w ++ z) list) (hz : ∀ t ∈ z, t.kind = .semicolon) : Body .eof w list := by
  induction z generalizing w with
  | nil => simpa using h
  | cons t z ih =>
      have hmore : ∀ r ∈ z, r.kind = .semicolon := fun r hr => hz r (List.mem_cons_of_mem t hr)
      have hrest : Body .eof (w ++ [t]) list := ih (by simpa using h) hmore
      exact hrest.of_concat_semicolon rfl rfl (hz t List.mem_cons_self)

/-! ## Readings that begin alike -/

/-- Tokens that clear the same way are the same. -/
theorem Cursor.Clears.unique {c d : Cursor} {u w : List Token} (hu : c.Clears u d)
    (hw : c.Clears w d) : u = w :=
  List.append_cancel_right (hu.ahead.symm.trans hw.ahead)

open Grammar Rule in
/-- Behind a statement that two readings share they go on with the same tokens. -/
theorem Body.cancel {u w : List Token} {s : Stmt} {list : List Stmt}
    (hreal : ∀ t ∈ u ++ w, t.kind ≠ .eof) (h : Body .eof (u ++ w) list)
    (first : Sentence (leadingKind w .eof) u s) (helse : leadingKind w .eof ≠ .elseWord) :
    ∃ rest, list = s :: rest ∧ Body .eof w rest := by
  -- The reader goes through all the statements, and through the first one by itself.
  obtain ⟨c, d, hclears, hend⟩ : ∃ c d : Cursor, c.Clears (u ++ w) d ∧ d.current.kind = .eof := by
    obtain ⟨d, hclears, hend⟩ := (Cursor.ofTokens (u ++ w)).exists_clears
    rw [Cursor.beforeEnd_ofTokens, ← List.append_nil (u ++ w), beforeEnd_append_of_real _ hreal]
      at hclears
    exact ⟨_, d, by simpa [beforeEnd] using hclears, hend⟩
  have hfull : (statements (expression (c.size + 1)) false (c.size + 1)).Yields c list d :=
    statements_complete (expression_complete c.size) (Nat.le_refl _) (Nat.le_succ _) (hend ▸ h)
      hclears (by simp [stops, hend])
  obtain ⟨m, hm, hrest⟩ := hclears.split first.ne_nil
  have hleading : leadingKind w .eof = m.upcoming.kind := hend ▸ hrest.leadingKind_eq
  obtain ⟨stop, hstatement, hstop⟩ := statement_complete (expression_complete c.size)
    (Nat.le_refl _) (hleading ▸ first) hm (hleading ▸ helse)
  obtain ⟨t, v, rfl, _⟩ := first.exists_start
  obtain ⟨hunmarked, hbrace, _, hgo⟩ := first.head_kind
  rw [← hm.current_eq] at hunmarked hbrace hgo
  rw [statements_yields_succ, if_neg (by simp [stops, hgo]), if_neg hunmarked] at hfull
  obtain ⟨found, m', hfound, rest, hmore, hlist⟩ := hfull
  obtain ⟨rfl, rfl⟩ : found = some s ∧ m' = stop := by
    have hsame := hfound.symm.trans (attempt_yields hstatement)
    simpa using hsame
  refine ⟨rest, hlist, ?_⟩
  have hsize : m'.advance.size ≤ c.size := by
    have hread := hm.size_le
    have hstep := m.onward_advance.size_le
    have hnext := m'.onward_advance.size_le
    rcases hstop with rfl | ⟨_, rfl⟩ <;> omega
  obtain ⟨x, hx, hbody, _⟩ := statements_sound (expression_orderly c.size)
    (expression_sound c.size) hsize hsize hmore
  rw [hend] at hbody
  rcases hstop with rfl | ⟨hkind, rfl⟩
  · rwa [hx.unique hrest] at hbody
  -- The reader takes a semicolon along, which stands alone in a derivation.
  · cases w with
    | nil => simp [← hleading, leadingKind] at hkind
    | cons mark w =>
        rw [hx.unique hrest.tail] at hbody
        exact .semicolon (hleading.trans hkind) hbody

/-! ## Nothing else may be left out -/

/-- What leaves nothing starts with no `else`, and behind an expression with nothing that
continues it. -/
theorem leadingKind_of_imprint {before : Kind} {w : List Token} (h : imprint before w = []) :
    leadingKind w .eof ≠ .elseWord ∧ (before.ends → ¬ (leadingKind w .eof).continues) := by
  cases w with
  | nil => exact ⟨by decide, fun _ => by decide⟩
  | cons t w =>
      have hquiet : ¬ before.prints t.kind := by
        intro hprints
        simp [imprint, hprints] at h
      have hleading : leadingKind (t :: w) .eof = t.kind := rfl
      rw [hleading]
      constructor
      · intro helse
        exact hquiet (.inl (by simp [helse]))
      · intro hends hcontinues
        exact hquiet (.inr ⟨hcontinues, fun _ => hends⟩)

/-- The last statement of a source is one before any token that does not continue it, but for
a `return` without a value. -/
theorem Sentence.before_tail {before other : Kind} {w : List Token} {s : Stmt}
    (h : Sentence .eof w s) (hcontinues : (lastKind before w).ends → ¬ other.continues) :
    Sentence other w s ∨ ∃ t : Token, t.kind = .returnWord ∧ w = [t] ∧ s = .leave t none := by
  have hending {kind : Kind} {x z : List Token} {e : Expr} (value : Phrase .equality x e)
      (hz : Ending .eof z) (hlast : (lastKind kind (x ++ z)).ends → ¬ other.continues) :
      Ending other z := by
    cases hz with
    | omitted _ =>
        rw [List.append_nil] at hlast
        exact .omitted (hlast (value.lastKind_ends kind))
    | semicolon hmark => exact .semicolon hmark
  cases h with
  | bind h hname hsign value ending =>
      exact .inl (.bind h hname hsign value (hending value ending hcontinues))
  | @leave _ t h _ => exact .inr ⟨t, h, rfl, rfl⟩
  | leaveMarked h hmark => exact .inl (.leaveMarked h hmark)
  | leaveWith h value ending =>
      exact .inl (.leaveWith h value (hending value ending hcontinues))
  | expr value ending =>
      exact .inl (.expr value (hending value ending hcontinues))

/-- Behind a `return` without a value that is all there is only semicolons stand. -/
theorem Body.forall_semicolon_of_return {t : Token} {w : List Token}
    (h : Body .eof (t :: w) [.leave t none]) (ht : t.kind = .returnWord) :
    ∀ r ∈ w, r.kind = .semicolon := by
  generalize hv : t :: w = v at h
  generalize hlist : [Stmt.leave t none] = list at h
  cases h with
  | done => cases hlist
  | semicolon hmark _ =>
      cases hv
      simp [ht] at hmark
  | statement first rest =>
      cases hlist
      cases first with
      | leave _ _ =>
          cases hv
          exact rest.forall_semicolon rfl
      | leaveMarked _ hmark =>
          cases hv
          simpa [hmark] using rest.forall_semicolon rfl

/-- If an initial part of the tokens is read as the same program, and the rest leaves nothing
behind it, then the rest is semicolons. -/
theorem Body.forall_semicolon_of_kept {behind before : Kind} {kept cut : List Token}
    {list : List Stmt} (h : Body behind kept list) (hbehind : behind = .eof)
    (hreal : ∀ t ∈ kept ++ cut, t.kind ≠ .eof) (hfull : Body .eof (kept ++ cut) list)
    (hcut : imprint (lastKind before kept) cut = []) : ∀ t ∈ cut, t.kind = .semicolon := by
  match h with
  | .done => exact hfull.forall_semicolon rfl
  | .semicolon hmark rest =>
      exact rest.forall_semicolon_of_kept hbehind
        (fun t ht => hreal t (List.mem_cons_of_mem _ ht)) (hfull.of_semicolon hmark) hcut
  | .statement (u := u) (w := w) first rest =>
      subst hbehind
      rw [List.append_assoc] at hreal hfull
      rw [lastKind_append] at hcut
      cases w with
      | nil =>
          obtain rfl := rest.eq_nil
          obtain ⟨helse, hcontinues⟩ := leadingKind_of_imprint hcut
          rcases first.before_tail hcontinues with hfirst | ⟨t, ht, rfl, rfl⟩
          · obtain ⟨more, hmore, hbody⟩ := Body.cancel hreal hfull hfirst helse
            cases hmore
            exact hbody.forall_semicolon rfl
          · exact hfull.forall_semicolon_of_return ht
      | cons r w =>
          have helse := rest.leadingKind_ne_else (by decide)
          obtain ⟨more, hmore, hbody⟩ := Body.cancel hreal hfull first helse
          cases hmore
          exact rest.forall_semicolon_of_kept rfl
            (fun t ht => hreal t (List.mem_append_right u ht)) hbody hcut

/-- **Only semicolons may be left out.**  The program of some tokens is read from an initial
part of them exactly if the others are semicolons. -/
theorem Body.kept_iff {kept cut : List Token} {list : List Stmt}
    (hreal : ∀ t ∈ kept ++ cut, t.kind ≠ .eof) (h : Body .eof (kept ++ cut) list) :
    Body .eof kept list ↔ ∀ t ∈ cut, t.kind = .semicolon := by
  constructor
  · intro hkept
    have hcut := h.imprint_program
    rw [imprint_append, hkept.imprint_program, List.append_right_eq_self] at hcut
    exact hkept.forall_semicolon_of_kept rfl hreal h hcut
  · exact h.of_append_semicolons

end MonkeyLang
