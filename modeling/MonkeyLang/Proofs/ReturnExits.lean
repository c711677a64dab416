import MonkeyLang.Proofs.Exits
import MonkeyLang.Proofs.FrameEffect
import MonkeyLang.Proofs.LikeTrials
import MonkeyLang.Proofs.Watching

/-!
# A return statement is an exit

Return statements are evaluated to values that are marked as leaving a function, and
every block looks out for them.  In tidy programs this comes to the same as an exit that
is caught by the nearest call or by the program, and the marks are never seen: no marked
value is bound, passed, put into an array or a hash, used as an operand or a condition, or
given back.

Evaluation under watch and the course of a tidy tree are kept level, from states whose
values are settled: no mark stands in them, at any depth, and their functions have tidy
bodies.  Where evaluation comes to a marked value the course has been left with the value
under the mark; this happens only where an expression is the whole of a statement, and
there the statements that follow are left out on both sides.
-/

namespace MonkeyLang

/-! ## Settled values -/

/-- No marks and no errors, functions with tidy bodies, and only the built-in functions
every interpreter has. -/
def settledManner : Manner where
  closure c c' := c' = c ∧ c.body.tidy true = true
  returned := False
  error _ := False
  builtin code := ∃ f, code = .core f

/-- No mark stands in the value, and its functions are tidy. -/
def Value.Settled (v : Value) : Prop := v.Like settledManner v

/-- All values bound in the frames are settled. -/
def State.Settled (s : State) : Prop :=
  ∀ (id : FrameId) (frame : Frame), s.frames[id]? = some frame →
    BindingsLike settledManner frame.bindings frame.bindings

theorem settledManner_shows : settledManner.Shows := by
  rintro c _ ⟨rfl, _⟩
  exact ⟨rfl, rfl⟩

theorem Value.Settled.leaves_eq {v : Value} (h : v.Settled) : v.leaves = false := by
  cases v with
  | returned stamp v => cases h with | returned hfalse _ => exact hfalse.elim
  | _ => rfl

theorem Value.Settled.isError_eq {v : Value} (h : v.Settled) : v.isError = false := by
  cases v with
  | error cause => cases h with | error hfalse => exact hfalse.elim
  | _ => rfl

theorem Value.Settled.landed_eq {v : Value} (h : v.Settled) : v.landed = v := by
  have hleaves := h.leaves_eq
  cases v with
  | returned stamp v => simp [Value.leaves] at hleaves
  | _ => rfl

theorem Value.Settled.give_eq {v : Value} (h : v.Settled) : Course.give v = pure v := by
  have herror := h.isError_eq
  cases v with
  | error cause => simp [Value.isError] at herror
  | _ => rfl

theorem AllLike.leaves_eq {values values' : List Value}
    (h : AllLike settledManner values values') : ∀ v ∈ values, v.leaves = false := by
  match h with
  | .nil => simp
  | .cons h hrest =>
      rw [List.forall_mem_cons]
      refine ⟨?_, hrest.leaves_eq⟩
      cases h with
      | returned hfalse _ => exact hfalse.elim
      | _ => rfl

/-- Parameters bound to settled arguments. -/
theorem AllLike.setAll {arguments : List Value} (h : AllLike settledManner arguments arguments)
    (frame : FrameId) (parameters : List Token) :
    BindingsLike settledManner ((Frame.empty frame).setAll parameters arguments).bindings
      ((Frame.empty frame).setAll parameters arguments).bindings :=
  (copyNames_refl parameters).setAll (fun ht => congrArg Token.literal (Eq.symm ht)) h _ _ .nil

/-- What operators and built-in functions give is settled, or an error. -/
theorem Value.Given.settled_or_error {v : Value} (h : v.Given settledManner v) :
    v.Settled ∨ ∃ cause, v = .error cause := by
  rcases h with h | ⟨cause, h, _⟩
  · exact Or.inl h
  · exact Or.inr ⟨cause, h⟩

theorem Value.Given.leaves_eq {v : Value} (h : v.Given settledManner v) : v.leaves = false := by
  rcases h.settled_or_error with hv | ⟨cause, rfl⟩
  · exact hv.leaves_eq
  · rfl

namespace State.Settled

variable {s : State}

/-- The value of a name is settled. -/
theorem lookupWithin (h : s.Settled) (name : Text) (n : Nat) (id : FrameId) :
    Option.Rel (Value.Like settledManner) (s.frames.lookupWithin name n id)
      (s.frames.lookupWithin name n id) := by
  induction n generalizing id with
  | zero => exact .none
  | succ n ih =>
      rw [Frames.lookupWithin]
      cases hframe : s.frames[id]? with
      | none => exact .none
      | some frame =>
          dsimp only
          have hown := (h id frame hframe).lookup name
          unfold Frame.get?
          cases hvalue : frame.bindings.lookup name with
          | some value =>
              rw [hvalue] at hown
              exact hown
          | none =>
              dsimp only
              cases frame.outer with
              | none => exact .none
              | some outer => exact ih outer

/-- Looking a name up gives a settled value or the error that it is not bound. -/
theorem lookup (h : s.Settled) (frame : FrameId) (name : Text) :
    ∃ v, Run.lookup frame name s = some (v, s) ∧ v.Given settledManner v := by
  refine ⟨_, rfl, ?_⟩
  have hchain := h.lookupWithin name (frame + 1) frame
  have hcore := h.lookupWithin name (Frames.core + 1) Frames.core
  unfold Frames.lookup
  generalize s.frames.lookupWithin name (frame + 1) frame = x at hchain ⊢
  generalize s.frames.lookupWithin name (Frames.core + 1) Frames.core = y at hcore ⊢
  cases x with
  | some v => cases hchain with | some hv => exact hv.given
  | none =>
      cases y with
      | some v => cases hcore with | some hv => exact hv.given
      | none => exact Value.Given.error _

theorem bind (h : s.Settled) (frame : FrameId) (name : Text) {v : Value} (hv : v.Settled) :
    State.Settled { s with frames := s.frames.bind frame name v } := by
  intro id g hg
  simp only [Frames.bind, Array.getElem?_modify] at hg
  split at hg
  · obtain ⟨g', hg', rfl⟩ := Option.map_eq_some_iff.1 hg
    exact (h id g' hg').rebind name hv
  · exact h id g hg

theorem push (h : s.Settled) {own : Frame}
    (hown : BindingsLike settledManner own.bindings own.bindings) :
    State.Settled { s with frames := s.frames.push own } := by
  intro id g hg
  simp only [Array.getElem?_push] at hg
  split at hg
  · cases hg
    exact hown
  · exact h id g hg

end State.Settled

/-! ## Staying level -/

/-- No value put to use is marked. -/
def Watched.Clean (w : Watched) : Prop := ∀ use ∈ w.uses, use.value.leaves = false

structure Watched.Settled (w : Watched) : Prop where
  state : w.state.Settled
  uses : w.Clean

/-- How a watched computation and a course have ended from the same settled state: both in
nothing, both in the same error, both in the same value, or the course was left with a
value where the watched computation has come to that value marked. -/
inductive Levelled {α : Type} (P : α → Prop) (Q : α → Value → Prop) :
    Except Halt α × Watched → Option (Except Exit α × State) → Prop
  | unfinished {w : Watched} (hw : w.Clean) : Levelled P Q (.error .unfinished, w) none
  | failed {w : Watched} (cause : RuntimeError) (hw : w.Settled) :
      Levelled P Q (.error (.raised cause), w) (some (.error (.failed cause), w.state))
  | given {w : Watched} {a : α} (h : P a) (hw : w.Settled) :
      Levelled P Q (.ok a, w) (some (.ok a, w.state))
  | left {w : Watched} {a : α} {v : Value} (h : Q a v) (hw : w.Settled) :
      Levelled P Q (.ok a, w) (some (.error (.left v), w.state))

/-- The computation and the course stay level from every settled state. -/
def Levels {α : Type} (P : α → Prop) (Q : α → Value → Prop) (m : Watch α) (c : Course α) : Prop :=
  ∀ w : Watched, w.Settled → Levelled P Q (m.run w) (c.run w.state)

/-- The course is not left. -/
def Never {α : Type} (_ : α) (_ : Value) : Prop := False

/-- The course is left, which the flag allows, with the value under the mark. -/
def Marked (whole : Bool) (a v : Value) : Prop :=
  whole = true ∧ v.Settled ∧ ∃ stamp, a = .returned stamp v

namespace Levels

variable {α β : Type} {P : α → Prop} {Q : α → Value → Prop} {P' : β → Prop} {Q' : β → Value → Prop}
  {m : Watch α} {c : Course α}

theorem pure {a : α} (h : P a) : Levels P Q (Pure.pure a) (Pure.pure a) := fun _ hw => .given h hw

theorem raise (cause : RuntimeError) :
    Levels P Q (Watch.raise cause) (throw (.failed cause)) := fun _ hw => .failed cause hw

/-- One computation after another.  Where the course is left, what follows in the watched
computation only hands on what the course was left with. -/
theorem andThen {f : α → Watch β} {g : α → Course β} (h : Levels P Q m c)
    (hf : ∀ a, P a → Levels P' Q' (f a) (g a))
    (hleft : ∀ a v, Q a v → ∀ w, ∃ b, (f a).run w = (.ok b, w) ∧ Q' b v) :
    Levels P' Q' (m >>= f) (c >>= g) := by
  intro w hw
  have hends := h w hw
  generalize hm : m.run w = x at hends
  generalize hc : c.run w.state = y at hends
  cases hends with
  | unfinished hw' =>
      rw [Watch.bind_run_of_error hm, Course.bind_run_of_none hc]
      exact .unfinished hw'
  | failed cause hw' =>
      rw [Watch.bind_run_of_error hm, Course.bind_run_of_error hc]
      exact .failed cause hw'
  | given ha hw' =>
      rw [Watch.bind_run_of_ok hm, Course.bind_run_of_ok hc]
      exact hf _ ha _ hw'
  | @left w' a v ha hw' =>
      obtain ⟨b, hb, hv⟩ := hleft a v ha w'
      rw [Watch.bind_run_of_ok hm, Course.bind_run_of_error hc, hb]
      exact .left hv hw'

theorem bind {f : α → Watch β} {g : α → Course β} (h : Levels P Never m c)
    (hf : ∀ a, P a → Levels P' Q' (f a) (g a)) : Levels P' Q' (m >>= f) (c >>= g) :=
  h.andThen hf fun _ _ hnever => hnever.elim

/-- A record is no step of the course. -/
theorem noteAll (h : Levels P Q m c) (role : Role) {values : List Value}
    (hvalues : ∀ v ∈ values, v.leaves = false) :
    Levels P Q (Watch.noteAll role values >>= fun _ => m) c := by
  intro w hw
  refine h { w with uses := values.map (Use.mk role) ++ w.uses } ⟨hw.state, ?_⟩
  intro use huse
  rcases List.mem_append.1 huse with hnew | hold
  · obtain ⟨v, hv, rfl⟩ := List.mem_map.1 hnew
    exact hvalues v hv
  · exact hw.uses use hold

theorem note (h : Levels P Q m c) (role : Role) {value : Value} (hvalue : value.leaves = false) :
    Levels P Q (Watch.note role value >>= fun _ => m) c :=
  h.noteAll role (List.forall_mem_singleton.2 hvalue)

/-- A run that ends from every settled state in a settled state. -/
theorem ofRun {r : Run α}
    (h : ∀ s : State, s.Settled → ∃ a s', r s = some (a, s') ∧ P a ∧ s'.Settled) :
    Levels P Q (Watch.ofRun r) (Course.ofRun r) := by
  intro w hw
  obtain ⟨a, s', hr, ha, hs'⟩ := h w.state hw.state
  rw [Watch.ofRun_run_of_some hr, Course.ofRun_run_of_some hr]
  exact .given ha ⟨hs', hw.uses⟩

theorem lift {x : Effect α} (h : ∀ e, P (x e).1) :
    Levels P Q (Watch.lift x) (Course.lift x) :=
  ofRun fun s hs => ⟨(x s.effects).1, { s with effects := (x s.effects).2 }, rfl, h _, hs⟩

theorem give {Q : Value → Value → Prop} {v : Value} (h : v.Given settledManner v) :
    Levels Value.Settled Q (Watch.give v) (Course.give v) := by
  rcases h.settled_or_error with hv | ⟨cause, rfl⟩
  · have herror := hv.isError_eq
    cases v with
    | error cause => simp [Value.isError] at herror
    | _ => exact pure hv
  · exact raise cause

theorem mono {R : α → Value → Prop} (hR : ∀ a v, Q a v → R a v) (h : Levels P Q m c) :
    Levels P R m c := by
  intro w hw
  have hends := h w hw
  generalize m.run w = x at hends ⊢
  generalize c.run w.state = y at hends ⊢
  cases hends with
  | unfinished hw' => exact .unfinished hw'
  | failed cause hw' => exact .failed cause hw'
  | given ha hw' => exact .given ha hw'
  | left ha hw' => exact .left (hR _ _ ha) hw'

/-- Where no exit is allowed the course is not left. -/
theorem strict {m : Watch Value} {c : Course Value}
    (h : Levels Value.Settled (Marked false) m c) : Levels Value.Settled Never m c :=
  h.mono fun _ _ hmarked => Bool.noConfusion hmarked.1

/-- A value is marked where the course is left with it. -/
theorem leave {whole : Bool} (hwhole : whole = true) {v : Value} (hv : v.Settled) :
    Levels Value.Settled (Marked whole) (Watch.lift (Effect.newReturned v)) (Course.leave v) := by
  intro w hw
  let effects : Effects :=
    { w.state.effects with nextStamp := w.state.effects.nextStamp + 1 }
  exact Levelled.left (w := { w with state := { w.state with effects } })
    ⟨hwhole, hv, w.state.effects.nextStamp, rfl⟩ ⟨hw.state, hw.uses⟩

/-- Statements in a row: the rest is left out on both sides, or on none. -/
theorem statement {whole : Bool} {m : Watch Value} {c : Course Value} {f : Value → Watch Value}
    {g : Value → Course Value} (h : Levels Value.Settled (Marked whole) m c)
    (hf : ∀ v, v.Settled → Levels Value.Settled (Marked whole) (f v) (g v)) :
    Levels Value.Settled (Marked whole) (m >>= fun v => if v.leaves then Pure.pure v else f v)
      (c >>= g) := by
  refine h.andThen (fun v hv => ?_) fun a v hmarked w => ?_
  · rw [hv.leaves_eq]
    exact hf v hv
  · obtain ⟨hwhole, hsettled, stamp, rfl⟩ := hmarked
    exact ⟨.returned stamp v, rfl, hwhole, hsettled, stamp, rfl⟩

/-- What a program or a call lands with: the value under the mark is what the exit has
handed over. -/
theorem land {whole : Bool} {m : Watch Value} {c : Course Value}
    (h : Levels Value.Settled (Marked whole) m c) :
    Levels Value.Settled Never m.land (Course.ofTrial c.caught) := by
  have hgive : ∀ {v : Value}, v.Settled → Levels Value.Settled Never
      (Watch.note .result v >>= fun _ => Watch.give v) (Pure.pure v) := by
    intro v hv
    rw [← hv.give_eq]
    exact (give (Value.Like.given hv)).note _ hv.leaves_eq
  intro w hw
  have hends := h w hw
  rw [Course.ofTrial_run]
  unfold Watch.land
  generalize hm : m.run w = x at hends
  generalize hc : c.run w.state = y at hends
  cases hends with
  | unfinished hw' =>
      rw [Watch.bind_run_of_error hm, Course.caught_run_of_none hc]
      exact .unfinished hw'
  | failed cause hw' =>
      rw [Watch.bind_run_of_error hm, Course.caught_run_of_failed hc]
      exact .failed cause hw'
  | given hv hw' =>
      rw [Watch.bind_run_of_ok hm, Course.caught_run_of_ok hc, hv.landed_eq]
      exact hgive hv _ hw'
  | left hv hw' =>
      obtain ⟨_, hsettled, stamp, rfl⟩ := hv
      rw [Watch.bind_run_of_ok hm, Course.caught_run_of_left hc]
      exact hgive hsettled _ hw'

/-- A call deeper. -/
theorem deeper {t : Trial α} (h : Levels P Never m (Course.ofTrial t)) :
    Levels P Never (Watch.deeper m) (Course.ofTrial (Trial.deeper t)) := by
  intro w hw
  have hends := h { w with state := { w.state with depth := w.state.depth + 1 } }
    ⟨hw.state, hw.uses⟩
  have hrun : (Trial.deeper t).run w.state = Run.deeper t.run w.state := rfl
  rw [Course.ofTrial_run] at hends
  rw [Course.ofTrial_run, hrun]
  generalize hm : m.run { w with state := { w.state with depth := w.state.depth + 1 } } = x at hends
  rw [Watch.deeper_run (Prod.eta x ▸ hm)]
  rcases ht : t.run { w.state with depth := w.state.depth + 1 } with _ | ⟨cause | a, s'⟩
  · rw [ht] at hends
    rw [Run.deeper_run_of_none ht]
    cases hends with
    | unfinished hw' => exact .unfinished hw'
  · rw [ht] at hends
    rw [Run.deeper_run_of_some ht]
    cases hends with
    | failed cause hw' => exact .failed cause ⟨hw'.state, hw'.uses⟩
  · rw [ht] at hends
    rw [Run.deeper_run_of_some ht]
    cases hends with
    | given ha hw' => exact .given ha ⟨hw'.state, hw'.uses⟩

end Levels

/-- Calls of settled values with settled arguments stay level. -/
def CallsLevel (watch : WatchCall) (call : TrialCall) : Prop :=
  ∀ f arguments, f.Settled → AllLike settledManner arguments arguments →
    Levels Value.Settled Never (watch f arguments) (Course.ofTrial (call f arguments))

/-! ## Tidy trees -/

section Tree

variable {watch : WatchCall} {call : TrialCall}

mutual

/-- Tidy expressions.  They are left only where they are the whole of a statement. -/
theorem Expr.levels (h : CallsLevel watch call) (frame : FrameId) {whole : Bool} (e : Expr)
    (he : e.tidy whole = true) :
    Levels Value.Settled (Marked whole) (e.watch watch frame) (e.course call frame) := by
  match e with
  | .ident t =>
      rw [Expr.watch, Expr.course]
      refine Levels.bind (P := fun v => v.Given settledManner v) ?_ fun v hv => Levels.give hv
      refine Levels.ofRun fun s hs => ?_
      obtain ⟨v, hlookup, hv⟩ := hs.lookup frame t.literal
      exact ⟨v, s, hlookup, hv, hs⟩
  | .int _ value =>
      rw [Expr.watch, Expr.course]
      exact Levels.pure (.integer value)
  | .string t =>
      rw [Expr.watch, Expr.course]
      exact Levels.pure (.string t.literal)
  | .bool _ value =>
      rw [Expr.watch, Expr.course]
      exact Levels.pure (.boolean value)
  | .unary t operand =>
      rw [Expr.tidy] at he
      rw [Expr.watch, Expr.course]
      refine (operand.levels h frame he).strict.bind fun v hv => ?_
      exact (Levels.give (Value.Like.unary _ hv)).note _ hv.leaves_eq
  | .binary t left right =>
      rw [Expr.tidy, Bool.and_eq_true] at he
      rw [Expr.watch, Expr.course]
      refine (left.levels h frame he.1).strict.bind fun a ha => ?_
      refine (right.levels h frame he.2).strict.bind fun b hb => ?_
      exact (Levels.give (Value.Like.binary _ ha hb)).noteAll _
        (AllLike.leaves_eq (.cons ha (.cons hb .nil)))
  | .cond _ test yes none =>
      rw [Expr.tidy, Bool.and_eq_true, Bool.and_eq_true] at he
      obtain ⟨⟨hleave, htest⟩, hyes⟩ := he
      rw [Expr.watch, Expr.course]
      refine (test.levels h frame htest).strict.bind fun v hv => ?_
      refine Levels.note ?_ _ hv.leaves_eq
      cases v.isTruthy with
      | true => exact yes.levels h frame hyes (by simpa using hleave)
      | false => exact Levels.pure .null
  | .cond _ test yes (some no) =>
      rw [Expr.tidy, Bool.and_eq_true, Bool.and_eq_true, Bool.and_eq_true] at he
      obtain ⟨⟨⟨hleave, htest⟩, hyes⟩, hno⟩ := he
      rw [Expr.watch, Expr.course]
      refine (test.levels h frame htest).strict.bind fun v hv => ?_
      refine Levels.note ?_ _ hv.leaves_eq
      cases v.isTruthy with
      | true => exact yes.levels h frame hyes (by grind)
      | false => exact no.levels h frame hno (by grind)
  | .function _ parameters body =>
      rw [Expr.tidy] at he
      rw [Expr.watch, Expr.course]
      exact Levels.lift fun _ => .function ⟨rfl, he⟩
  | .call _ callee arguments =>
      rw [Expr.tidy, Bool.and_eq_true] at he
      rw [Expr.watch, Expr.course]
      refine (callee.levels h frame he.1).strict.bind fun f hf => ?_
      refine Levels.note ?_ _ hf.leaves_eq
      refine (watchAll_levels h frame arguments he.2).bind fun values hvalues => ?_
      refine Levels.noteAll ?_ _ hvalues.leaves_eq
      exact (h f values hf hvalues).mono fun _ _ hnever => hnever.elim
  | .array _ elements =>
      rw [Expr.tidy] at he
      rw [Expr.watch, Expr.course]
      refine (watchAll_levels h frame elements he).bind fun values hvalues => ?_
      exact (Levels.lift fun _ => .array hvalues).noteAll _ hvalues.leaves_eq
  | .index _ collection key =>
      rw [Expr.tidy, Bool.and_eq_true] at he
      rw [Expr.watch, Expr.course]
      refine (collection.levels h frame he.1).strict.bind fun a ha => ?_
      refine (key.levels h frame he.2).strict.bind fun b hb => ?_
      exact (Levels.give (Value.Like.index ha hb)).noteAll _
        (AllLike.leaves_eq (.cons ha (.cons hb .nil)))
  | .hash _ pairs =>
      rw [Expr.tidy] at he
      rw [Expr.watch, Expr.course]
      exact watchPairs_levels h frame pairs he .nil

/-- Arguments and elements. -/
theorem watchAll_levels (h : CallsLevel watch call) (frame : FrameId) (es : List Expr)
    (hes : allTidy es = true) :
    Levels (fun values => AllLike settledManner values values) Never (watchAll watch frame es)
      (courseAll call frame es) := by
  match es with
  | [] =>
      rw [watchAll, courseAll]
      exact Levels.pure .nil
  | e :: rest =>
      rw [allTidy, Bool.and_eq_true] at hes
      rw [watchAll, courseAll]
      refine (e.levels h frame hes.1).strict.bind fun v hv => ?_
      exact (watchAll_levels h frame rest hes.2).bind fun values hvalues =>
        Levels.pure (.cons hv hvalues)

/-- The entries of a hash literal, after the ones that were made. -/
theorem watchPairs_levels (h : CallsLevel watch call) (frame : FrameId) {whole : Bool}
    (pairs : List (Expr × Expr)) (hpairs : pairsTidy pairs = true) {entries : Table Value}
    (hentries : EntriesLike settledManner entries entries) :
    Levels Value.Settled (Marked whole) (watchPairs watch frame pairs entries)
      (coursePairs call frame pairs entries) := by
  match pairs with
  | [] =>
      rw [watchPairs, coursePairs]
      exact Levels.lift fun _ => .hash hentries
  | (key, value) :: rest =>
      rw [pairsTidy, Bool.and_eq_true, Bool.and_eq_true] at hpairs
      obtain ⟨⟨hkey, hvalue⟩, hrest⟩ := hpairs
      rw [watchPairs, coursePairs]
      refine (key.levels h frame hkey).strict.bind fun k hk => ?_
      refine Levels.note ?_ _ hk.leaves_eq
      cases k.key? with
      | none => exact Levels.raise _
      | some found =>
          refine (value.levels h frame hvalue).strict.bind fun v hv => ?_
          refine Levels.note ?_ _ hv.leaves_eq
          exact watchPairs_levels h frame rest hrest (hentries.set found hv)

/-- Tidy statements.  A return statement stands only where it is allowed. -/
theorem Stmt.levels (h : CallsLevel watch call) (frame : FrameId) {whole : Bool} (s : Stmt)
    (hs : s.tidy whole = true) (hleave : whole = true ∨ s.hasLeave = false) :
    Levels Value.Settled (Marked whole) (s.watch watch frame) (s.course call frame) := by
  match s with
  | .bind _ name value =>
      rw [Stmt.tidy] at hs
      rw [Stmt.watch, Stmt.course]
      refine (value.levels h frame hs).strict.bind fun v hv => ?_
      refine Levels.note ?_ _ hv.leaves_eq
      refine Levels.bind (P := fun _ => True) (Levels.ofRun fun s hsettled => ?_)
        fun _ _ => Levels.pure .null
      exact ⟨(), _, rfl, trivial, hsettled.bind frame name.literal hv⟩
  | .leave _ none =>
      rw [Stmt.watch, Stmt.course]
      exact Levels.leave (hleave.resolve_right Bool.noConfusion) .null
  | .leave _ (some value) =>
      rw [Stmt.tidy] at hs
      rw [Stmt.watch, Stmt.course]
      refine (value.levels h frame hs).strict.bind fun v hv => ?_
      exact (Levels.leave (hleave.resolve_right Bool.noConfusion) hv).note _ hv.leaves_eq
  | .expr _ value =>
      rw [Stmt.tidy] at hs
      rw [Stmt.watch, Stmt.course]
      exact value.levels h frame hs

/-- Tidy statements in a row. -/
theorem watchStatements_levels (h : CallsLevel watch call) (frame : FrameId) {whole : Bool}
    (statements : List Stmt) (hs : statementsTidy whole statements = true)
    (hleave : whole = true ∨ statementsHaveLeave statements = false) {last : Value}
    (hlast : last.Settled) :
    Levels Value.Settled (Marked whole) (watchStatements watch frame statements last)
      (courseStatements call frame statements last) := by
  match statements with
  | [] =>
      rw [watchStatements, courseStatements]
      exact Levels.pure hlast
  | s :: rest =>
      rw [statementsTidy, Bool.and_eq_true] at hs
      rw [statementsHaveLeave, Bool.or_eq_false_iff] at hleave
      rw [watchStatements, courseStatements]
      refine (s.levels h frame hs.1 (hleave.imp_right And.left)).statement fun v hv => ?_
      exact watchStatements_levels h frame rest hs.2 (hleave.imp_right And.right) hv

/-- Tidy blocks. -/
theorem Block.levels (h : CallsLevel watch call) (frame : FrameId) {whole : Bool} (block : Block)
    (hblock : block.tidy whole = true) (hleave : whole = true ∨ block.hasLeave = false) :
    Levels Value.Settled (Marked whole) (block.watch watch frame) (block.course call frame) := by
  match block with
  | .mk _ statements =>
      rw [Block.tidy] at hblock
      rw [Block.hasLeave] at hleave
      rw [Block.watch, Block.course]
      exact watchStatements_levels h frame statements hblock hleave .null

end

/-- Tidy programs. -/
theorem Program.levels (h : CallsLevel watch call) (frame : FrameId) (program : Program)
    (hprogram : program.tidy = true) :
    Levels Value.Settled Never (program.watch watch frame)
      (Course.ofTrial (program.course call frame)) :=
  (watchStatements_levels h frame program.statements hprogram (Or.inl rfl) .null).land

end Tree

namespace Host

/-- One call stays level if the calls inside it do.  The bodies of settled functions are
tidy, and a return statement may stand in them. -/
theorem watchWith_levels (host : Host) {watch : Option WatchCall} {call : Option TrialCall}
    (h : Option.Rel CallsLevel watch call) :
    CallsLevel (host.watchWith watch) (host.courseWith call) := by
  intro callee arguments hcallee harguments
  unfold watchWith courseWith
  cases callee with
  | function stamp parameters body frame =>
      obtain ⟨_, hbody⟩ : settledManner.closure ⟨parameters, body, frame⟩
          ⟨parameters, body, frame⟩ := by
        cases hcallee with
        | function hclosure => exact hclosure
      dsimp only
      split
      · exact Levels.raise _
      · rw [Course.ofTrial_bind, Course.ofTrial_ofRun]
        refine Levels.bind (P := fun _ => True) (Levels.ofRun fun s hs => ?_) fun depth _ => ?_
        · exact ⟨s.depth, s, rfl, trivial, hs⟩
        split
        · exact Levels.raise _
        · cases h with
          | none => exact fun w hw => .unfinished hw.uses
          | some hcalls =>
              refine Levels.deeper (Levels.noteAll ?_ _ harguments.leaves_eq)
              rw [Course.ofTrial_bind, Course.ofTrial_ofRun]
              refine Levels.bind (P := fun _ => True) (Levels.ofRun fun s hs => ?_) fun own _ => ?_
              · exact ⟨s.frames.size, _, rfl, trivial, hs.push (harguments.setAll frame parameters)⟩
              · exact (body.levels hcalls own hbody (Or.inl rfl)).land
  | builtin name code =>
      obtain ⟨f, rfl⟩ : settledManner.builtin code := by
        cases hcallee with
        | builtin hbuiltin => exact hbuiltin
      dsimp only
      unfold Trial.lift
      rw [Course.ofTrial_bind, Course.ofTrial_ofRun]
      refine Levels.bind (P := fun v => v.Given settledManner v) ?_ fun v hv => ?_
      · exact Levels.lift fun e => (f.run_alike settledManner_shows harguments e).1
      · rw [Course.ofTrial_give]
        exact (Levels.give hv).note _ hv.leaves_eq
  | _ => exact Levels.raise _

theorem watch_levels (host : Host) (n : Nat) : CallsLevel (host.watch n) (host.course n) := by
  induction n with
  | zero => exact host.watchWith_levels .none
  | succ n ih => exact host.watchWith_levels (.some ih)

end Host

/-! ## Whole evaluations -/

/-- From a state, a run goes as the reference says, and the record kept of it has no
marked value put to use. -/
structure Run.GoesAs (r : Run Value) (reference : Trial Value) (watched : Watch Value)
    (s : State) : Prop where
  /-- The same value or error, the same frames and the same lines printed. -/
  agrees : Matches (r s) (reference.run s)
  /-- The record is that of this run. -/
  recorded : Matches (r s) (Watch.outcome (watched.run ⟨s, []⟩))
  uses : ∀ use ∈ (watched.run ⟨s, []⟩).2.uses, use.value.leaves = false

namespace Levelled

variable {α : Type} {P : α → Prop} {x : Except Halt α × Watched} {t : Trial α} {s : State}

/-- What is level with a trial comes to what the trial does. -/
theorem outcome_eq (h : Levelled P Never x ((Course.ofTrial t).run s)) :
    Watch.outcome x = t.run s := by
  rw [Course.ofTrial_run] at h
  rcases ht : t.run s with _ | ⟨cause | a, s'⟩ <;> rw [ht] at h
  · cases h with | unfinished => rfl
  · cases h with | failed => rfl
  · cases h with | given => rfl

theorem clean {y : Option (Except Exit α × State)} {Q : α → Value → Prop}
    (h : Levelled P Q x y) : x.2.Clean := by
  cases h with
  | unfinished hw => exact hw
  | failed _ hw | given _ hw | left _ hw => exact hw.uses

/-- What has come to a value has come to a settled one, in a settled state. -/
theorem settled {Q : α → Value → Prop} {a : α} {s' : State}
    (h : Levelled P Q x (some (.ok a, s'))) : P a ∧ s'.Settled := by
  cases h with
  | given ha hw => exact ⟨ha, hw.state⟩

theorem settled_of_failed {Q : α → Value → Prop} {cause : RuntimeError} {s' : State}
    (h : Levelled P Q x (some (.error (.failed cause), s'))) : s'.Settled := by
  cases h with
  | failed _ hw => exact hw.state

end Levelled

section Runs

variable {r : Run Value} {attempt reference : Trial Value} {m : Watch Value} {s : State}

theorem Levels.goesAs (h : Levels Value.Settled Never m (Course.ofTrial reference))
    (herases : m.Erases attempt) (hagrees : Agrees r attempt) (hs : s.Settled) :
    r.GoesAs reference m s := by
  have hends := h ⟨s, []⟩ ⟨hs, by simp [Watched.Clean]⟩
  have houtcome : Watch.outcome (m.run ⟨s, []⟩) = reference.run s := hends.outcome_eq
  have hsame : attempt.run s = reference.run s := (herases ⟨s, []⟩).symm.trans houtcome
  have hmatches : Matches (r s) (reference.run s) := hsame ▸ hagrees s
  exact ⟨hmatches, houtcome ▸ hmatches, hends.clean⟩

/-- What the run ends in is a settled value or an error, and the state is settled. -/
theorem Levels.ends_settled (h : Levels Value.Settled Never m (Course.ofTrial reference))
    (hgoes : r.GoesAs reference m s) (hs : s.Settled) {value : Value} {s' : State}
    (hr : r s = some (value, s')) : value.Given settledManner value ∧ s'.Settled := by
  have hends := h ⟨s, []⟩ ⟨hs, by simp [Watched.Clean]⟩
  have hmatches := hgoes.agrees
  rw [hr] at hmatches
  rw [Course.ofTrial_run] at hends
  generalize reference.run s = y at hmatches hends
  cases hmatches with
  | raised cause _ => exact ⟨Value.Given.error cause, hends.settled_of_failed⟩
  | given _ _ =>
      obtain ⟨hvalue, hs'⟩ := hends.settled
      exact ⟨Value.Like.given hvalue, hs'⟩

end Runs

theorem Interpreter.settled_new (limit : Nat) : (Interpreter.new limit).state.Settled := by
  have hcore : ∀ list : List CoreFunction, BindingsLike settledManner
      (list.map fun f => (f.name, f.value)) (list.map fun f => (f.name, f.value)) := by
    intro list
    induction list with
    | nil => exact .nil
    | cons f _ ih => exact .cons (.builtin ⟨f, rfl⟩) ih
  intro id frame hframe
  match id with
  | 0 =>
      cases hframe
      exact hcore CoreFunction.all
  | 1 =>
      cases hframe
      exact .nil
  | _ + 2 => cases hframe

theorem allLike_of_settled {values : List Value} (h : ∀ v ∈ values, v.Settled) :
    AllLike settledManner values values := by
  induction values with
  | nil => exact .nil
  | cons v rest ih =>
      rw [List.forall_mem_cons] at h
      exact .cons h.1 (ih h.2)

/-- If a value is given back it is not marked, it is settled unless it is an error, and so
are all values bound. -/
def Interpreter.AnswerSettled (answer : Option (Value × Interpreter)) : Prop :=
  ∀ value ip, answer = some (value, ip) →
    value.leaves = false ∧ (value.isError = true ∨ value.Settled) ∧ ip.state.Settled

theorem Levels.answerSettled {ip : Interpreter} {r : Run Value} {reference : Trial Value}
    {m : Watch Value} (h : Levels Value.Settled Never m (Course.ofTrial reference))
    (hgoes : r.GoesAs reference m ip.state) (hs : ip.state.Settled) :
    Interpreter.AnswerSettled (ip.runWith r) := by
  intro value ip' hr
  obtain ⟨hvalue, hs'⟩ := h.ends_settled hgoes hs (Interpreter.runWith_eq_some hr)
  refine ⟨hvalue.leaves_eq, ?_, hs'⟩
  rcases hvalue.settled_or_error with hsettled | ⟨cause, rfl⟩
  · exact Or.inr hsettled
  · exact Or.inl rfl

/-- **A return statement of a tidy program is an exit.**  Take a new interpreter, or any
interpreter whose frames bind settled values only.  A tidy program, evaluated in any
frame, goes as the evaluator with exits says: it ends in the same value or error and leaves
the same frames and the same lines printed, or neither of the two ends.  No value marked as
leaving a function is bound on the way, passed as an argument, put into an array or a hash,
or used as an operand, a condition or a callee, and none is given back in the end.  The
same holds of the application of a settled value to settled arguments.  All values are
settled again afterwards, so whatever is evaluated or applied next is covered as well. -/
theorem return_is_an_exit :
    (∀ limit, (Interpreter.new limit).state.Settled) ∧
    (∀ (ip : Interpreter) (outer : Option FrameId), ip.state.Settled →
      (ip.addFrame outer).2.state.Settled) ∧
    ∀ (ip : Interpreter) (budget : Nat), ip.state.Settled →
      (∀ (program : Program) (frame : FrameId), program.tidy = true →
        (program.eval (ip.call budget) frame).GoesAs
          (program.course (ip.host.course (ip.reach budget)) frame)
          (program.watch (ip.host.watch (ip.reach budget)) frame) ip.state ∧
        Interpreter.AnswerSettled (ip.evalIn budget program frame)) ∧
      ∀ (f : Value) (arguments : List Value), f.Settled → (∀ v ∈ arguments, v.Settled) →
        (ip.call budget f arguments).GoesAs (ip.host.course (ip.reach budget) f arguments)
          (ip.host.watch (ip.reach budget) f arguments) ip.state ∧
        Interpreter.AnswerSettled (ip.apply budget (some f) arguments) := by
  refine ⟨Interpreter.settled_new, fun ip outer hs => hs.push .nil, fun ip budget hs => ⟨?_, ?_⟩⟩
  · intro program frame hprogram
    have hlevels := program.levels (ip.host.watch_levels (ip.reach budget)) frame hprogram
    have hgoes := hlevels.goesAs (program.watch_erases (ip.host.watch_erases _) frame)
      (program.agrees (ip.host.call_agrees _) frame) hs
    exact ⟨hgoes, hlevels.answerSettled hgoes hs⟩
  · intro f arguments hf harguments
    have hlevels := ip.host.watch_levels (ip.reach budget) f arguments hf
      (allLike_of_settled harguments)
    have hgoes := hlevels.goesAs (ip.host.watch_erases _ f arguments)
      (ip.host.call_agrees _ f arguments) hs
    exact ⟨hgoes, hlevels.answerSettled hgoes hs⟩

/-- A source with return statements in nested branches of a function and in a branch of
the program. -/
def earlyReturns : Text :=
  Text.ofString "let f = fn(n) \x7b if (n < 1) \x7b if (n) \x7b return [n] \x7d \x7d" ++
    Text.ofString " f(n - 1) \x7d; if (f(1)) \x7b return f(2) \x7d 3"

theorem return_is_an_exit_of_early_returns :
    let ip := Interpreter.new 9
    ∃ program, parse? earlyReturns = .ok program ∧ program.tidy = true ∧
      (program.eval (ip.call 0) Frames.global).GoesAs
        (program.course (ip.host.course (ip.reach 0)) Frames.global)
        (program.watch (ip.host.watch (ip.reach 0)) Frames.global) ip.state ∧
      ∃ value ip', ip.evalIn 0 program Frames.global = some (value, ip') ∧
        value.kind = .array ∧ value.Settled ∧
        Interpreter.AnswerSettled (ip'.apply 0 (some CoreFunction.len.value) [value]) := by
  intro ip
  obtain ⟨hnew, _, hgeneral⟩ := return_is_an_exit
  have hany : ((parse? earlyReturns).toOption.any fun program => program.tidy &&
      (ip.evalIn 0 program Frames.global).any fun out => out.1.kind == .array) = true := by
    decide +kernel
  cases hparse : parse? earlyReturns with
  | error errors => simp [hparse, Except.toOption] at hany
  | ok program =>
      rw [hparse] at hany
      obtain ⟨htidy, hends⟩ := Bool.and_eq_true_iff.1 hany
      obtain ⟨⟨value, ip'⟩, hrun, hkind⟩ := (Option.any_eq_true _ _).1 hends
      obtain ⟨hgoes, hanswer⟩ := (hgeneral ip 0 (hnew 9)).1 program Frames.global htidy
      obtain ⟨_, hvalue, hsettled⟩ := hanswer value ip' hrun
      have harray : value.kind = .array := of_decide_eq_true hkind
      have hvalue : value.Settled := by
        refine hvalue.resolve_left fun herror => ?_
        cases value <;> simp_all [Value.kind, Value.isError]
      refine ⟨program, rfl, htidy, hgoes, value, ip', hrun, harray, hvalue, ?_⟩
      exact ((hgeneral ip' 0 hsettled).2 CoreFunction.len.value [value] (.builtin ⟨.len, rfl⟩)
        (List.forall_mem_singleton.2 hvalue)).2

/-- Where an if-expression with a return statement is only a part of a statement, a marked
value is bound. -/
example :
    let ip := Interpreter.new 9
    ((parse? "let x = if (true) \x7b return 1 \x7d;").toOption.any fun program =>
      ((program.watch (ip.host.watch (ip.reach 0)) Frames.global).run ⟨ip.state, []⟩).2.uses.any
        fun use => use.role == .binding && use.value.leaves) = true := by
  decide +kernel

end MonkeyLang
