import MonkeyLang.Proofs.RuleOutcome
import MonkeyLang.Proofs.Walk

/-!
# Walks that go the way of the rules

`Retraces` follows a walk and a rule side by side: the walk comes to an end, and it has done
what the rule does.  `Steady` is what is known of the footsteps on the way.  Both compose, so
there is one lemma for each way in which rules are put together, and a rule is retraced along
its definition.

Moving on gets on only before the last token.  That a walk stands there is known from the kind
of a token: what is required, or what a rule starts with, is no end token.
-/

namespace MonkeyLang

/-! ## Footsteps in their order -/

/-- A call is made later than all calls it is made within, but for the list that an
expression starts with; so a rule that is called again is called later.  A turn is over later
than it began. -/
def Footstep.Justified : Footstep → Prop
  | .moved _ => True
  | .called call sites place =>
    ∀ site ∈ sites, site.place < place ∨ call = .items ∧ site = ⟨.expression, place⟩
  | .turned _ start place => start < place

/-- A trail from a position to one that is not before it nor beyond the last: it lies between
them and never goes back, and every footstep is justified. -/
structure Steady (last i j : Nat) (trail : List Footstep) : Prop where
  onward : i ≤ j
  bounded : j ≤ last
  ordered : (trail.map Footstep.place).Pairwise (· ≤ ·)
  between : ∀ e ∈ trail, i ≤ e.place ∧ e.place ≤ j
  justified : ∀ e ∈ trail, e.Justified

namespace Steady

variable {last i j k : Nat} {trail later : List Footstep}

theorem stay (h : i ≤ last) : Steady last i i [] :=
  ⟨Nat.le_refl i, h, by simp, by simp, by simp⟩

theorem single {e : Footstep} (hplace : e.place = j) (honward : i ≤ j) (hlast : j ≤ last)
    (hjustified : e.Justified) : Steady last i j [e] where
  onward := honward
  bounded := hlast
  ordered := List.pairwise_singleton _ _
  between := by simp [hplace, honward]
  justified := by simpa using hjustified

theorem append (h : Steady last i j trail) (h' : Steady last j k later) :
    Steady last i k (trail ++ later) where
  onward := Nat.le_trans h.onward h'.onward
  bounded := h'.bounded
  ordered := by
    rw [List.map_append]
    refine List.pairwise_append.2 ⟨h.ordered, h'.ordered, ?_⟩
    intro p hp q hq
    obtain ⟨e, he, rfl⟩ := List.mem_map.1 hp
    obtain ⟨e', he', rfl⟩ := List.mem_map.1 hq
    exact Nat.le_trans (h.between e he).2 (h'.between e' he').1
  between := by
    intro e he
    rcases List.mem_append.1 he with he | he
    · exact ⟨(h.between e he).1, Nat.le_trans (h.between e he).2 h'.onward⟩
    · exact ⟨Nat.le_trans h.onward (h'.between e he).1, (h'.between e he).2⟩
  justified := by
    intro e he
    rcases List.mem_append.1 he with he | he
    · exact h.justified e he
    · exact h'.justified e he

end Steady

/-! ## Walks beside rules -/

/-- What a walk from the position `i` leaves behind is what a rule does, in good order. -/
structure Walked.Matches {α : Type} (start : Cursor) (i : Nat) (walked : Walked α)
    (o : Outcome α) : Prop where
  node : walked.node? = o.node?
  errors : walked.errors = o.errors
  cursor : o.cursor = start.seek walked.place
  steady : Steady start.size i walked.place walked.trail

/-- From the position `i` the walk comes to an end, and it does what the rule does. -/
def Retraces {α : Type} (start : Cursor) (sites : List Site) (i : Nat) (walk : Walk α)
    (rule : Rule α) : Prop :=
  ∃ walked, walk start sites i = some walked ∧ walked.Matches start i (rule (start.seek i))

namespace Retraces

variable {α β : Type} {start : Cursor} {sites : List Site} {i : Nat}

section

variable {walk walk' : Walk α} {rule rule' : Rule α} {f : α → Walk β} {g : α → Rule β}

/-- Only what is done from the position counts. -/
theorem congr (hwalk : walk start sites i = walk' start sites i)
    (hrule : rule (start.seek i) = rule' (start.seek i))
    (h : Retraces start sites i walk' rule') : Retraces start sites i walk rule := by
  unfold Retraces
  rw [hwalk, hrule]
  exact h

theorem pure (hi : i ≤ start.size) (a : α) :
    Retraces start sites i (Pure.pure a : Walk α) (Pure.pure a) :=
  ⟨_, rfl, rfl, rfl, rfl, Steady.stay hi⟩

theorem fail (hi : i ≤ start.size) (fault : Fault) (t : Token) :
    Retraces start sites i (Walk.fail fault t : Walk α) (Rule.fail fault t) :=
  ⟨_, rfl, rfl, rfl, rfl, Steady.stay hi⟩

/-- One after the other, when it is known what the first walk leaves behind. -/
theorem sequence {walked : Walked α} (hwalk : walk start sites i = some walked)
    (hmatches : walked.Matches start i (rule (start.seek i)))
    (hf : ∀ a, walked.node? = some a → Retraces start sites walked.place (f a) (g a)) :
    Retraces start sites i (walk >>= f) (rule >>= g) := by
  obtain ⟨node?, j, errors, trail⟩ := walked
  obtain ⟨hnode, herrors, hcursor, hsteady⟩ := hmatches
  rcases hrule : rule (start.seek i) with ⟨node?', c, errors'⟩
  rw [hrule] at hnode herrors hcursor
  dsimp only at hnode herrors hcursor hsteady hf
  subst hnode herrors hcursor
  cases node? with
  | none =>
      -- Neither the walk nor the rule goes on behind a failure.
      refine ⟨⟨none, j, errors, trail⟩, ?_, ?_⟩
      · change Walk.andThen walk f start sites i = _
        simp only [Walk.andThen, hwalk]
      · rw [Rule.bind_run_of_none hrule]
        exact ⟨rfl, rfl, rfl, hsteady⟩
  | some a =>
      obtain ⟨⟨node?, k, more, later⟩, hnext, hmatches⟩ := hf a rfl
      refine ⟨⟨node?, k, errors ++ more, trail ++ later⟩, ?_, ?_⟩
      · change Walk.andThen walk f start sites i = _
        simp only [Walk.andThen, hwalk, hnext]
      · rw [Rule.bind_run_of_some hrule]
        exact ⟨hmatches.node, congrArg (errors ++ ·) hmatches.errors, hmatches.cursor,
          hsteady.append hmatches.steady⟩

/-- One after the other, wherever the first one stops. -/
theorem bind (h : Retraces start sites i walk rule)
    (hf : ∀ a j, i ≤ j → j ≤ start.size → Retraces start sites j (f a) (g a)) :
    Retraces start sites i (walk >>= f) (rule >>= g) := by
  obtain ⟨walked, hwalk, hmatches⟩ := h
  exact sequence hwalk hmatches fun a _ =>
    hf a walked.place hmatches.steady.onward hmatches.steady.bounded

theorem ite {p : Prop} [Decidable p] (hpos : p → Retraces start sites i walk rule)
    (hneg : ¬ p → Retraces start sites i walk' rule') :
    Retraces start sites i (if p then walk else walk') (if p then rule else rule') := by
  by_cases hp : p
  · rw [if_pos hp, if_pos hp]
    exact hpos hp
  · rw [if_neg hp, if_neg hp]
    exact hneg hp

/-- A statement is dropped by both or by none. -/
theorem attempt (h : Retraces start sites i walk rule) :
    Retraces start sites i (Walk.attempt walk) (Rule.attempt rule) := by
  obtain ⟨walked, hwalk, hnode, herrors, hcursor, hsteady⟩ := h
  refine ⟨⟨some walked.node?, walked.place, walked.errors, walked.trail⟩, ?_, ?_⟩
  · simp only [Walk.attempt, hwalk]
  · exact ⟨congrArg some hnode, herrors, hcursor, hsteady⟩

/-- The rule has as many turns as tokens are left. -/
theorem looped {loop : Nat → Rule α} (h : Retraces start sites i walk (loop (start.size - i))) :
    Retraces start sites i walk (Rule.looped loop) := by
  unfold Retraces Rule.looped
  rw [Cursor.size_seek]
  exact h

/-- A call is noted before all that is done within it. -/
theorem within {call : Nesting} (hcall : (Footstep.called call sites i).Justified)
    (hi : i ≤ start.size) (h : Retraces start (⟨call, i⟩ :: sites) i walk rule) :
    Retraces start sites i (Walk.within call walk) rule := by
  obtain ⟨walked, hwalk, hnode, herrors, hcursor, hsteady⟩ := h
  refine ⟨⟨walked.node?, walked.place, walked.errors, .called call sites i :: walked.trail⟩,
    ?_, hnode, herrors, hcursor, ?_⟩
  · simp only [Walk.within, hwalk]
  · exact (Steady.single rfl (Nat.le_refl i) hi hcall).append hsteady

end

section

variable {rule : Rule β} {kind : Kind}

theorem current_bind {f : Token → Walk β} {g : Token → Rule β}
    (h : Retraces start sites i (f (start.seek i).current) (g (start.seek i).current)) :
    Retraces start sites i (Walk.current >>= f) (Rule.current >>= g) :=
  congr (Walk.current_bind_run f start sites i) (Rule.current_bind_run g _) h

theorem upcoming_bind {f : Token → Walk β} {g : Token → Rule β}
    (h : Retraces start sites i (f (start.seek i).upcoming) (g (start.seek i).upcoming)) :
    Retraces start sites i (Walk.upcoming >>= f) (Rule.upcoming >>= g) :=
  congr (Walk.upcoming_bind_run f start sites i) (Rule.upcoming_bind_run g _) h

theorem place_bind {f : Nat → Walk β} (h : Retraces start sites i (f i) rule) :
    Retraces start sites i (Walk.place >>= f) rule :=
  congr (Walk.place_bind_run f start sites i) rfl h

/-- A turn that got on is noted before all that is done after it. -/
theorem turned_bind {loop : Loop} {turn : Nat} (hturn : turn < i) (hi : i ≤ start.size)
    {f : Unit → Walk β} (h : Retraces start sites i (f ()) rule) :
    Retraces start sites i (Walk.turned loop turn >>= f) rule := by
  obtain ⟨walked, hwalk, hnode, herrors, hcursor, hsteady⟩ := h
  have hjustified : (Footstep.turned loop turn i).Justified := hturn
  refine ⟨⟨walked.node?, walked.place, walked.errors, .turned loop turn i :: walked.trail⟩,
    ?_, hnode, herrors, hcursor, ?_⟩
  · change Walk.andThen (Walk.turned loop turn) f start sites i = _
    simp only [Walk.andThen, Walk.turned, hwalk, List.nil_append, List.cons_append]
  · exact (Steady.single rfl (Nat.le_refl i) hi hjustified).append hsteady

variable {f : Unit → Walk β} {g : Unit → Rule β}

theorem advance_matches (hi : i ≤ start.size) :
    Walked.Matches start i ⟨some (), start.onwardFrom i, [], [.moved (start.onwardFrom i)]⟩
      (Rule.advance (start.seek i)) where
  node := rfl
  errors := rfl
  cursor := (start.seek_onwardFrom i).symm
  steady := Steady.single rfl (start.le_onwardFrom i) (Cursor.onwardFrom_le hi) trivial

theorem advance_bind (hi : i ≤ start.size)
    (h : Retraces start sites (start.onwardFrom i) (f ()) (g ())) :
    Retraces start sites i (Walk.advance >>= f) (Rule.advance >>= g) :=
  sequence rfl (advance_matches hi) fun _ _ => h

/-- Before the last token moving on gets on. -/
theorem advance_bind_of_lt (hi : i < start.size)
    (h : Retraces start sites (i + 1) (f ()) (g ())) :
    Retraces start sites i (Walk.advance >>= f) (Rule.advance >>= g) := by
  refine advance_bind (Nat.le_of_lt hi) ?_
  rwa [Cursor.onwardFrom_of_lt hi]

/-- A required token that is there is not the last. -/
theorem expectNext_bind (hkind : kind ≠ .eof) (hi : i ≤ start.size)
    (h : i + 1 < start.size → Retraces start sites (i + 1) (f ()) (g ())) :
    Retraces start sites i (Walk.expectNext kind >>= f) (Rule.expectNext kind >>= g) := by
  have hwalk := Walk.expectNext_run kind start sites i
  have hrule := Rule.expectNext_run kind (start.seek i)
  by_cases hnext : (start.seek i).upcoming.kind = kind
  · have hlt : i + 1 < start.size := Cursor.lt_of_upcoming (hnext ▸ hkind)
    rw [if_pos hnext] at hwalk hrule
    refine sequence hwalk (hrule ▸ advance_matches hi) fun _ _ => ?_
    rw [Cursor.onwardFrom_of_lt (by omega)]
    exact h hlt
  · rw [if_neg hnext] at hwalk hrule
    refine sequence hwalk ?_ fun _ hnone => ?_
    · rw [hrule]
      exact ⟨rfl, rfl, rfl, Steady.stay hi⟩
    · cases hnone

theorem skipNext (hi : i ≤ start.size) :
    Retraces start sites i (Walk.skipNext kind) (Rule.skipNext kind) := by
  refine upcoming_bind (ite (fun _ => ?_) fun _ => pure hi ())
  exact ⟨_, rfl, advance_matches hi⟩

end

end Retraces

end MonkeyLang
