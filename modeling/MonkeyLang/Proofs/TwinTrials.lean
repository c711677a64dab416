import MonkeyLang.Proofs.ErrorPropagation

/-!
# Two evaluations of one tree

Two evaluations of the same tree can differ only in how they make calls.  So a
relation between trials that every single step has with itself, and that is kept
when one trial follows another, holds of the two evaluations as soon as it holds
of their calls.  The induction over the tree is done once here, by
`Node.attempt_twin`.

The relation wanted most says that one run ends like another wherever it ends at
all, certain errors excepted: `Run.EndsLike`.  As errors are handed on exactly as
if they were raised, it passes from calls to every evaluation and, through the
bodies of functions, from the calls inside a call to that call.
-/

namespace MonkeyLang

/-- A relation between trials that single steps have with themselves and that is
kept along a sequence. -/
structure Twinned (P : ∀ ⦃α : Type⦄, Trial α → Trial α → Prop) : Prop where
  pure : ∀ {α : Type} (a : α), P (Pure.pure a) (Pure.pure a)
  throw : ∀ {α : Type} (cause : RuntimeError), P (throw cause : Trial α) (throw cause)
  bind : ∀ {α β : Type} {m m' : Trial α} {f f' : α → Trial β},
    P m m' → (∀ a, P (f a) (f' a)) → P (m >>= f) (m' >>= f')
  lift : ∀ {α : Type} (m : Effect α), P (Trial.lift m) (Trial.lift m)
  lookup : ∀ frame name,
    P (Trial.ofRun (Run.lookup frame name)) (Trial.ofRun (Run.lookup frame name))
  bindName : ∀ frame name value,
    P (Trial.ofRun (Run.bindName frame name value)) (Trial.ofRun (Run.bindName frame name value))

/-- Two ways to make calls that are related by such a relation. -/
structure TwinCalls (P : ∀ ⦃α : Type⦄, Trial α → Trial α → Prop) (call call' : TrialCall) : Prop
    extends Twinned P where
  calls : ∀ f arguments, P (call f arguments) (call' f arguments)

/-- Handing a value on is a single step, whether or not it is an error. -/
theorem Twinned.give {P : ∀ ⦃α : Type⦄, Trial α → Trial α → Prop} (hP : Twinned P)
    (value : Value) : P (Trial.give value) (Trial.give value) := by
  cases value with
  | error cause => exact hP.throw cause
  | _ => exact hP.pure _

section Tree

variable {P : ∀ ⦃α : Type⦄, Trial α → Trial α → Prop} {call call' : TrialCall}

mutual

/-- Every expression. -/
theorem Expr.attempt_twin (h : TwinCalls P call call') (frame : FrameId)
    (e : Expr) : P (e.attempt call frame) (e.attempt call' frame) := by
  match e with
  | .ident t =>
      rw [Expr.attempt, Expr.attempt]
      exact h.bind (h.lookup frame t.literal) h.give
  | .int _ value =>
      rw [Expr.attempt, Expr.attempt]
      exact h.pure _
  | .string t =>
      rw [Expr.attempt, Expr.attempt]
      exact h.pure _
  | .bool _ value =>
      rw [Expr.attempt, Expr.attempt]
      exact h.pure _
  | .unary t operand =>
      rw [Expr.attempt, Expr.attempt]
      exact h.bind (operand.attempt_twin h frame) fun _ => h.give _
  | .binary t left right =>
      rw [Expr.attempt, Expr.attempt]
      refine h.bind (left.attempt_twin h frame) fun a => ?_
      exact h.bind (right.attempt_twin h frame) fun b => h.give _
  | .cond _ test consequence none =>
      rw [Expr.attempt, Expr.attempt]
      refine h.bind (test.attempt_twin h frame) fun value => ?_
      cases value.isTruthy with
      | true => exact consequence.attempt_twin h frame
      | false => exact h.pure _
  | .cond _ test consequence (some alternative) =>
      rw [Expr.attempt, Expr.attempt]
      refine h.bind (test.attempt_twin h frame) fun value => ?_
      cases value.isTruthy with
      | true => exact consequence.attempt_twin h frame
      | false => exact alternative.attempt_twin h frame
  | .function _ parameters body =>
      rw [Expr.attempt, Expr.attempt]
      exact h.lift _
  | .call _ callee arguments =>
      rw [Expr.attempt, Expr.attempt]
      refine h.bind (callee.attempt_twin h frame) fun f => ?_
      exact h.bind (attemptAll_twin h frame arguments) fun values => h.calls f values
  | .array _ elements =>
      rw [Expr.attempt, Expr.attempt]
      exact h.bind (attemptAll_twin h frame elements) fun _ => h.lift _
  | .index _ collection key =>
      rw [Expr.attempt, Expr.attempt]
      refine h.bind (collection.attempt_twin h frame) fun a => ?_
      exact h.bind (key.attempt_twin h frame) fun b => h.give _
  | .hash _ pairs =>
      rw [Expr.attempt, Expr.attempt]
      exact attemptPairs_twin h frame pairs []

/-- Arguments and elements. -/
theorem attemptAll_twin (h : TwinCalls P call call') (frame : FrameId)
    (es : List Expr) : P (attemptAll call frame es) (attemptAll call' frame es) := by
  match es with
  | [] =>
      rw [attemptAll, attemptAll]
      exact h.pure _
  | e :: rest =>
      rw [attemptAll, attemptAll]
      refine h.bind (e.attempt_twin h frame) fun value => ?_
      exact h.bind (attemptAll_twin h frame rest) fun values => h.pure _

/-- The entries of a hash literal. -/
theorem attemptPairs_twin (h : TwinCalls P call call') (frame : FrameId)
    (pairs : List (Expr × Expr)) (entries : Table Value) :
    P (attemptPairs call frame pairs entries) (attemptPairs call' frame pairs entries) := by
  match pairs with
  | [] =>
      rw [attemptPairs, attemptPairs]
      exact h.lift _
  | (key, value) :: rest =>
      rw [attemptPairs, attemptPairs]
      refine h.bind (key.attempt_twin h frame) fun k => ?_
      cases k.key? with
      | none => exact h.throw _
      | some found =>
          refine h.bind (value.attempt_twin h frame) fun v => ?_
          exact attemptPairs_twin h frame rest _

/-- Every statement. -/
theorem Stmt.attempt_twin (h : TwinCalls P call call') (frame : FrameId)
    (statement : Stmt) : P (statement.attempt call frame) (statement.attempt call' frame) := by
  match statement with
  | .bind _ name value =>
      rw [Stmt.attempt, Stmt.attempt]
      refine h.bind (value.attempt_twin h frame) fun v => ?_
      exact h.bind (h.bindName frame name.literal v) fun _ => h.pure _
  | .leave _ none =>
      rw [Stmt.attempt, Stmt.attempt]
      exact h.lift _
  | .leave _ (some value) =>
      rw [Stmt.attempt, Stmt.attempt]
      exact h.bind (value.attempt_twin h frame) fun _ => h.lift _
  | .expr _ value =>
      rw [Stmt.attempt, Stmt.attempt]
      exact value.attempt_twin h frame

/-- Statements in a row. -/
theorem attemptStatements_twin (h : TwinCalls P call call') (frame : FrameId)
    (statements : List Stmt) (last : Value) :
    P (attemptStatements call frame statements last)
      (attemptStatements call' frame statements last) := by
  match statements with
  | [] =>
      rw [attemptStatements, attemptStatements]
      exact h.pure _
  | statement :: rest =>
      rw [attemptStatements, attemptStatements]
      refine h.bind (statement.attempt_twin h frame) fun value => ?_
      cases value.leaves with
      | true => exact h.pure _
      | false => exact attemptStatements_twin h frame rest value

/-- Blocks. -/
theorem Block.attempt_twin (h : TwinCalls P call call') (frame : FrameId)
    (block : Block) : P (block.attempt call frame) (block.attempt call' frame) := by
  match block with
  | .mk _ statements =>
      rw [Block.attempt, Block.attempt]
      exact attemptStatements_twin h frame statements .null

end

/-- **Evaluations whose calls are related are related.** -/
theorem Node.attempt_twin (h : TwinCalls P call call') (frame : FrameId)
    (node : Node) : P (node.attempt call frame) (node.attempt call' frame) := by
  cases node with
  | program p =>
      refine h.bind (attemptStatements_twin h frame p.statements .null) fun value => ?_
      exact h.give value.landed
  | statement s => exact s.attempt_twin h frame
  | block b => exact b.attempt_twin h frame
  | expression e => exact e.attempt_twin h frame

end Tree

/-! ## Ending alike -/

/-- Wherever the first trial ends, the second one ends alike, unless the first was
cut short by an excused error. -/
def Trial.EndsLike {α : Type} (excused : RuntimeError → Prop) (m m' : Trial α) : Prop :=
  ∀ s r s', m.run s = some (r, s') →
    m'.run s = some (r, s') ∨ ∃ cause, r = .error cause ∧ excused cause

/-- Wherever the first run ends, the second one ends alike, unless the first ended
in an excused error. -/
def Run.EndsLike (excused : RuntimeError → Prop) (r r' : Run Value) : Prop :=
  ∀ s value s', r s = some (value, s') →
    r' s = some (value, s') ∨ ∃ cause, value = .error cause ∧ excused cause

section EndsLike

variable {excused : RuntimeError → Prop}

namespace Trial.EndsLike

variable {α β : Type}

theorem refl (m : Trial α) : EndsLike excused m m := fun _ _ _ h => Or.inl h

/-- One trial after another.  After an error there is nothing left to compare. -/
theorem bind {m m' : Trial α} {f f' : α → Trial β} (hm : EndsLike excused m m')
    (hf : ∀ a, EndsLike excused (f a) (f' a)) : EndsLike excused (m >>= f) (m' >>= f') := by
  intro s r s' h
  rcases hrun : m.run s with _ | ⟨cause | a, t⟩
  · rw [bind_run_of_none hrun] at h
    cases h
  · rw [bind_run_of_error hrun] at h
    cases h
    rcases hm s _ _ hrun with hsame | ⟨_, hcause, hexcused⟩
    · exact Or.inl (bind_run_of_error hsame f')
    · cases hcause
      exact Or.inr ⟨cause, rfl, hexcused⟩
  · rw [bind_run_of_ok hrun] at h
    rcases hm s _ _ hrun with hsame | ⟨_, hcause, _⟩
    · rw [bind_run_of_ok hsame]
      exact hf a t r s' h
    · cases hcause

/-- Ending alike is a relation between trials as they are looked for here. -/
theorem twinned (excused : RuntimeError → Prop) :
    Twinned fun _ m m' => EndsLike excused m m' where
  pure _ := refl _
  throw _ := refl _
  bind := bind
  lift _ := refl _
  lookup _ _ := refl _
  bindName _ _ _ := refl _

end Trial.EndsLike

/-- Runs end alike when the trials they agree with do, and conversely. -/
theorem Agrees.endsLike_iff {r r' : Run Value} {m m' : Trial Value} (h : Agrees r m)
    (h' : Agrees r' m') : Run.EndsLike excused r r' ↔ Trial.EndsLike excused m m' := by
  constructor
  · intro hends s x s' hm
    rcases x with cause | value
    · rcases hends s _ _ (((h s).error_iff cause s').2 hm) with hsame | ⟨_, hcause, hexcused⟩
      · exact Or.inl (((h' s).error_iff cause s').1 hsame)
      · cases hcause
        exact Or.inr ⟨cause, rfl, hexcused⟩
    · obtain ⟨hr, hvalue⟩ := ((h s).value_iff value s').2 hm
      rcases hends s _ _ hr with hsame | ⟨cause, rfl, _⟩
      · exact Or.inl (((h' s).value_iff value s').1 ⟨hsame, hvalue⟩)
      · simp [Value.isError] at hvalue
  · intro hends s value s' hr
    by_cases hvalue : value.isError = false
    · have hm := ((h s).value_iff value s').1 ⟨hr, hvalue⟩
      rcases hends s _ _ hm with hsame | ⟨_, hcause, _⟩
      · exact Or.inl (((h' s).value_iff value s').2 hsame).1
      · cases hcause
    · obtain ⟨cause, rfl⟩ : ∃ cause, value = .error cause := by
        cases value <;> simp_all [Value.isError]
      have hm := ((h s).error_iff cause s').1 hr
      rcases hends s _ _ hm with hsame | ⟨_, hcause, hexcused⟩
      · exact Or.inl (((h' s).error_iff cause s').2 hsame)
      · cases hcause
        exact Or.inr ⟨cause, rfl, hexcused⟩

/-- A way to make calls, with the errors among its values raised. -/
def Call.trial (call : Call) : TrialCall := fun f arguments =>
  Trial.ofRun (call f arguments) >>= Trial.give

/-- Calls and their trials agree. -/
theorem Call.agrees_trial (call : Call) : CallsAgree call call.trial :=
  fun f arguments => Agrees.given (call f arguments)

/-- **Evaluations end alike if their calls do.** -/
theorem Node.eval_endsLike {call call' : Call}
    (h : ∀ f arguments, Run.EndsLike excused (call f arguments) (call' f arguments))
    (frame : FrameId) (node : Node) :
    Run.EndsLike excused (node.eval call frame) (node.eval call' frame) := by
  have hcalls : TwinCalls (fun _ m m' => Trial.EndsLike excused m m') call.trial call'.trial := by
    refine ⟨Trial.EndsLike.twinned excused, fun f arguments => ?_⟩
    exact ((call.agrees_trial f arguments).endsLike_iff (call'.agrees_trial f arguments)).1
      (h f arguments)
  have hnode := node.attempt_twin hcalls frame
  have hagrees := node.agrees call.agrees_trial frame
  exact (hagrees.endsLike_iff (node.agrees call'.agrees_trial frame)).2 hnode

namespace Run.EndsLike

variable {α : Type} {r r' : Run Value}

theorem refl (r : Run Value) : EndsLike excused r r := fun _ _ _ h => Or.inl h

/-- When no error is excused the second run ends like the first wherever that ends. -/
theorem eq_some {s s' : State} {value : Value} (h : EndsLike (fun _ => False) r r')
    (hr : r s = some (value, s')) : r' s = some (value, s') := by
  rcases h s value s' hr with hsame | ⟨_, _, hfalse⟩
  · exact hsame
  · exact hfalse.elim

/-- A step that both runs take, then runs that end alike. -/
theorem step {x : Run α} {f f' : α → Run Value} (hf : ∀ a, EndsLike excused (f a) (f' a)) :
    EndsLike excused (x >>= f) (x >>= f') := by
  intro s value s' h
  obtain ⟨a, t, hx, hrest⟩ := bind_eq_some h
  rw [bind_run_of_some hx]
  exact hf a t value s' hrest

/-- An error lands as the error it is. -/
theorem landed (h : EndsLike excused r r') :
    EndsLike excused (r >>= fun value => pure value.landed)
      (r' >>= fun value => pure value.landed) := by
  intro s value s' hrun
  obtain ⟨result, t, hr, hlanded⟩ := bind_eq_some hrun
  rcases h s result t hr with hsame | ⟨cause, rfl, hexcused⟩
  · rw [bind_run_of_some hsame]
    exact Or.inl hlanded
  · cases hlanded
    exact Or.inr ⟨cause, rfl, hexcused⟩

/-- Runs one call deeper. -/
theorem deeper (h : EndsLike excused r r') :
    EndsLike excused (Run.deeper r) (Run.deeper r') := by
  intro s value s' hrun
  obtain ⟨t, hr, rfl⟩ := deeper_eq_some hrun
  rcases h _ value t hr with hsame | hexcused
  · exact Or.inl (deeper_run_of_some hsame)
  · exact Or.inr hexcused

end Run.EndsLike

namespace Host

/-- The second host allows all calls the first one does, with the same functions
supplied.  Either the two are the same, or the error by which the first one
refuses a call is excused. -/
structure Grants (excused : RuntimeError → Prop) (host host' : Host) : Prop where
  supplied : host'.supplied = host.supplied
  allowed : ∀ depth, host.forbids depth = false → host'.forbids depth = false
  refused : host' = host ∨ excused (.callDepth host.limit)

theorem Grants.native_eq {host host' : Host} (h : Grants excused host host')
    (code : BuiltinCode) : host'.native code = host.native code := by
  cases code with
  | core f => rfl
  | supplied index => simp [native, h.supplied]

/-- A call ends alike under both hosts if the calls inside it do. -/
theorem callWith_endsLike {host host' : Host} (h : Grants excused host host')
    {inner inner' : Option Call}
    (hinner : ∀ call ∈ inner, ∃ call' ∈ inner', ∀ f arguments,
      Run.EndsLike excused (call f arguments) (call' f arguments))
    (callee : Value) (arguments : List Value) :
    Run.EndsLike excused (host.callWith inner callee arguments)
      (host'.callWith inner' callee arguments) := by
  unfold callWith
  cases callee with
  | function _ parameters body frame =>
      dsimp only
      split
      · exact Run.EndsLike.refl _
      · refine Run.EndsLike.step fun depth => ?_
        cases hforbids : host.forbids depth with
        | true =>
            rcases h.refused with rfl | hexcused
            · rw [hforbids]
              exact Run.EndsLike.refl _
            · intro s value s' hrun
              cases hrun
              exact Or.inr ⟨_, rfl, hexcused⟩
        | false =>
            rw [h.allowed depth hforbids]
            cases inner with
            | none =>
                intro s value s' hrun
                cases hrun
            | some call =>
                obtain ⟨call', hcall', hcalls⟩ := hinner call rfl
                cases hcall'
                refine Run.EndsLike.deeper (Run.EndsLike.step fun own => ?_)
                exact (Node.eval_endsLike hcalls own (.block body)).landed
  | builtin _ code =>
      dsimp only
      rw [h.native_eq code]
      exact Run.EndsLike.refl _
  | _ => exact Run.EndsLike.refl _

/-- **More calls that may nest, and more calls allowed, change no answer.** -/
theorem call_endsLike {host host' : Host} (h : Grants excused host host') {n n' : Nat}
    (hn : n ≤ n') (callee : Value) (arguments : List Value) :
    Run.EndsLike excused (host.call n callee arguments) (host'.call n' callee arguments) := by
  induction n generalizing n' callee arguments with
  | zero =>
      cases n' with
      | zero => exact callWith_endsLike h (by simp) callee arguments
      | succ n' => exact callWith_endsLike h (by simp) callee arguments
  | succ n ih =>
      obtain ⟨n', rfl⟩ : ∃ k, n' = k + 1 := ⟨n' - 1, by omega⟩
      refine callWith_endsLike h (fun call hcall => ?_) callee arguments
      cases hcall
      exact ⟨host'.call n', rfl, fun f arguments => ih (by omega) f arguments⟩

end Host
end EndsLike
end MonkeyLang
