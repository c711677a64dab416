import MonkeyLang.Proofs.Exceptions
import MonkeyLang.Proofs.Hashes
import MonkeyLang.Proofs.RunSteps

/-!
# Errors as values are exceptions

The evaluator passes errors on by hand: wherever a value is put to use it is
first looked at, and an error becomes the result.  The main statement,
`eval_is_exceptional`, says that this comes to the same as raising the error:
on every node, frame and state the two evaluators end alike, in the same value
or in the same error, and leave the same state behind.
-/

namespace MonkeyLang

namespace Trial

variable {α β : Type} {m : Trial α} {s s' : State}

theorem bind_run_of_none (h : m.run s = none) (f : α → Trial β) : (m >>= f).run s = none :=
  Run.bind_run_of_none h _

/-- What follows an error is left out. -/
theorem bind_run_of_error {cause : RuntimeError} (h : m.run s = some (.error cause, s'))
    (f : α → Trial β) : (m >>= f).run s = some (.error cause, s') :=
  Run.bind_run_of_some h _

theorem bind_run_of_ok {a : α} (h : m.run s = some (.ok a, s')) (f : α → Trial β) :
    (m >>= f).run s = (f a).run s' :=
  Run.bind_run_of_some h _

/-- A run within a trial ends in nothing when it does by itself. -/
theorem ofRun_run_of_none {x : Run α} (h : x s = none) : (ofRun x).run s = none := by
  change StateT.map Except.ok x s = none
  simp [StateT.map, h]

/-- A run within a trial is never cut short. -/
theorem ofRun_run_of_some {x : Run α} {a : α} (h : x s = some (a, s')) :
    (ofRun x).run s = some (.ok a, s') := by
  change StateT.map Except.ok x s = some (.ok a, s')
  simp [StateT.map, h]

end Trial

/-- A run and a trial end alike: in nothing, in the same error, or in the same
value, which is then no error; and in the same state. -/
inductive Matches : Option (Value × State) → Option (Except RuntimeError Value × State) → Prop
  | unfinished : Matches none none
  | raised (cause : RuntimeError) (s : State) :
      Matches (some (.error cause, s)) (some (.error cause, s))
  | given {value : Value} (s : State) (h : value.isError = false) :
      Matches (some (value, s)) (some (.ok value, s))

/-- A run that ends like a trial from every state. -/
def Agrees (r : Run Value) (m : Trial Value) : Prop :=
  ∀ s, Matches (r s) (m.run s)

namespace Agrees

variable {α : Type} {r : Run Value} {m : Trial Value}

/-- A value that is no error is handed on. -/
theorem value {v : Value} (h : v.isError = false) : Agrees (pure v) (pure v) :=
  fun s => Matches.given s h

/-- An error value is an error raised. -/
theorem error (cause : RuntimeError) : Agrees (Run.error cause) (throw cause) :=
  fun s => Matches.raised cause s

/-- Any value, an error among them. -/
theorem give (v : Value) : Agrees (pure v) (Trial.give v) := by
  cases v with
  | error cause => exact error cause
  | _ => exact value rfl

/-- Looking at a value before going on is what a trial does by itself. -/
theorem onValue {f : Value → Run Value} {g : Value → Trial Value} (h : Agrees r m)
    (hf : ∀ v, v.isError = false → Agrees (f v) (g v)) :
    Agrees (Run.onValue r f) (m >>= g) := by
  intro s
  have hs := h s
  generalize hr : r s = x at hs
  generalize hm : m.run s = y at hs
  cases hs with
  | unfinished =>
      have hnone : Run.onValue r f s = none := Run.bind_run_of_none hr _
      rw [hnone, Trial.bind_run_of_none hm]
      exact Matches.unfinished
  | raised cause t =>
      rw [Run.onValue_run_of_error hr, Trial.bind_run_of_error hm]
      exact Matches.raised cause t
  | given t hv =>
      rw [Run.onValue_run_of_value hr hv, Trial.bind_run_of_ok hm]
      exact hf _ hv t

/-- A step that cannot fail, then what agrees. -/
theorem step {x : Run α} {f : α → Run Value} {g : α → Trial Value}
    (hf : ∀ a, Agrees (f a) (g a)) : Agrees (x >>= f) (Trial.ofRun x >>= g) := by
  intro s
  cases hx : x s with
  | none =>
      rw [Run.bind_run_of_none hx, Trial.bind_run_of_none (Trial.ofRun_run_of_none hx)]
      exact Matches.unfinished
  | some out =>
      obtain ⟨a, t⟩ := out
      rw [Run.bind_run_of_some hx, Trial.bind_run_of_ok (Trial.ofRun_run_of_some hx)]
      exact hf a t

/-- A list of values or an error, then what agrees. -/
theorem list {x : Run (Except RuntimeError (List Value))} {f : List Value → Run Value}
    {l : Trial (List Value)} {g : List Value → Trial Value} (hx : x = l.run)
    (hf : ∀ values, Agrees (f values) (g values)) :
    Agrees (x >>= fun
      | .error cause => Run.error cause
      | .ok values => f values) (l >>= g) := by
  intro s
  rw [hx]
  rcases hrun : l.run s with _ | ⟨cause | values, s'⟩
  · rw [Run.bind_run_of_none hrun, Trial.bind_run_of_none hrun]
    exact Matches.unfinished
  · rw [Run.bind_run_of_some hrun, Trial.bind_run_of_error hrun]
    exact Matches.raised cause s'
  · rw [Run.bind_run_of_some hrun, Trial.bind_run_of_ok hrun]
    exact hf values s'

/-- A call deeper. -/
theorem deeper (h : Agrees r m) : Agrees (Run.deeper r) (Trial.deeper m) := by
  intro s
  have hs := h { s with depth := s.depth + 1 }
  change Matches _ (Run.deeper m.run s)
  generalize hr : r { s with depth := s.depth + 1 } = x at hs
  generalize hm : m.run { s with depth := s.depth + 1 } = y at hs
  cases hs with
  | unfinished =>
      rw [Run.deeper_run_of_none hr, Run.deeper_run_of_none hm]
      exact Matches.unfinished
  | raised cause t =>
      rw [Run.deeper_run_of_some hr, Run.deeper_run_of_some hm]
      exact Matches.raised cause _
  | given t hv =>
      rw [Run.deeper_run_of_some hr, Run.deeper_run_of_some hm]
      exact Matches.given _ hv

/-- A value made without looking at a frame, if it is never an error. -/
theorem made {x : Effect Value} (h : ∀ e, (x e).1.isError = false) :
    Agrees (Run.lift x) (Trial.lift x) := by
  intro s
  have hrun : Run.lift x s = some ((x s.effects).1, { s with effects := (x s.effects).2 }) := rfl
  change Matches _ ((Trial.ofRun (Run.lift x)).run s)
  rw [hrun, Trial.ofRun_run_of_some hrun]
  exact Matches.given _ (h _)

/-- A value handed on after a step that may have made an error. -/
theorem given (x : Run Value) : Agrees x (Trial.ofRun x >>= Trial.give) := by
  have h : Agrees (x >>= pure) (Trial.ofRun x >>= Trial.give) := step give
  rwa [bind_pure] at h

end Agrees

/-- Calls that agree on every callee and all arguments. -/
def CallsAgree (call : Call) (trial : TrialCall) : Prop :=
  ∀ callee arguments, Agrees (call callee arguments) (trial callee arguments)

section Tree

variable {call : Call} {trial : TrialCall}

/-- What stops the statements is an error or a value that leaves them. -/
theorem evalStatements_cons (frame : FrameId) (statement : Stmt) (rest : List Stmt)
    (last : Value) :
    evalStatements call frame (statement :: rest) last =
      Run.onValue (statement.eval call frame) fun value =>
        if value.leaves then pure value else evalStatements call frame rest value := by
  rw [evalStatements]
  unfold Run.onValue
  congr 1
  funext value
  cases value <;> rfl

/-- One expression more in front of others: what it ends in decides whether those are tried. -/
theorem evalValues_cons_agrees {frame : FrameId} {e : Expr} {rest : List Expr}
    (h : Agrees (e.eval call frame) (e.attempt trial frame))
    (hrest : evalValues call frame rest = (attemptAll trial frame rest).run) :
    evalValues call frame (e :: rest) = (attemptAll trial frame (e :: rest)).run := by
  rw [attemptAll]
  funext s
  have hs := h s
  generalize hr : e.eval call frame s = x at hs
  generalize hm : (e.attempt trial frame).run s = y at hs
  cases hs with
  | unfinished => rw [evalValues_cons_of_none hr, Trial.bind_run_of_none hm]
  | raised cause t => rw [evalValues_cons_of_error hr, Trial.bind_run_of_error hm]
  | given t hvalue =>
      rw [evalValues_cons_of_value hr hvalue, Trial.bind_run_of_ok hm, hrest]
      rcases hrun : (attemptAll trial frame rest).run t with _ | ⟨cause | values, t'⟩
      · rw [Trial.bind_run_of_none hrun]
        rfl
      · rw [Trial.bind_run_of_error hrun]
        rfl
      · rw [Trial.bind_run_of_ok hrun]
        rfl

mutual

/-- Every expression. -/
theorem Expr.agrees (h : CallsAgree call trial) (frame : FrameId) (e : Expr) :
    Agrees (e.eval call frame) (e.attempt trial frame) := by
  match e with
  | .ident t =>
      rw [Expr.eval, Expr.attempt]
      exact Agrees.given _
  | .int _ value =>
      rw [Expr.eval, Expr.attempt]
      exact Agrees.value rfl
  | .string t =>
      rw [Expr.eval, Expr.attempt]
      exact Agrees.value rfl
  | .bool _ value =>
      rw [Expr.eval, Expr.attempt]
      exact Agrees.value rfl
  | .unary t operand =>
      rw [Expr.eval, Expr.attempt]
      exact (operand.agrees h frame).onValue fun _ _ => Agrees.give _
  | .binary t left right =>
      rw [Expr.eval, Expr.attempt]
      exact (left.agrees h frame).onValue fun _ _ =>
        (right.agrees h frame).onValue fun _ _ => Agrees.give _
  | .cond _ test consequence none =>
      rw [Expr.eval, Expr.attempt]
      refine (test.agrees h frame).onValue fun value _ => ?_
      cases value.isTruthy with
      | true => exact consequence.agrees h frame
      | false => exact Agrees.value rfl
  | .cond _ test consequence (some alternative) =>
      rw [Expr.eval, Expr.attempt]
      refine (test.agrees h frame).onValue fun value _ => ?_
      cases value.isTruthy with
      | true => exact consequence.agrees h frame
      | false => exact alternative.agrees h frame
  | .function _ parameters body =>
      rw [Expr.eval, Expr.attempt]
      exact Agrees.made fun _ => rfl
  | .call _ callee arguments =>
      rw [Expr.eval, Expr.attempt]
      refine (callee.agrees h frame).onValue fun f _ => ?_
      rw [onValues_evalAll]
      exact Agrees.list (evalValues_agrees h frame arguments) (h f)
  | .array _ elements =>
      rw [Expr.eval, Expr.attempt, onValues_evalAll]
      exact Agrees.list (evalValues_agrees h frame elements) fun _ => Agrees.made fun _ => rfl
  | .index _ collection key =>
      rw [Expr.eval, Expr.attempt]
      exact (collection.agrees h frame).onValue fun _ _ =>
        (key.agrees h frame).onValue fun _ _ => Agrees.give _
  | .hash _ pairs =>
      rw [Expr.eval, Expr.attempt]
      exact evalPairs_agrees h frame pairs .empty

/-- Arguments and elements: the first error among them is what both end in. -/
theorem evalValues_agrees (h : CallsAgree call trial) (frame : FrameId) (es : List Expr) :
    evalValues call frame es = (attemptAll trial frame es).run := by
  match es with
  | [] => rw [evalValues, attemptAll]; rfl
  | e :: rest => exact evalValues_cons_agrees (e.agrees h frame) (evalValues_agrees h frame rest)

/-- The entries of a hash literal, behind those that the hash and the table hold. -/
theorem evalPairs_agrees (h : CallsAgree call trial) (frame : FrameId)
    (pairs : List (Expr × Expr)) {hash : Hash Value} {entries : Table Value}
    (hshows : hash.Shows entries) :
    Agrees (evalPairs call frame pairs hash) (attemptPairs trial frame pairs entries) := by
  match pairs with
  | [] =>
      rw [evalPairs, attemptPairs, hshows.table_eq]
      exact Agrees.made fun _ => rfl
  | (key, value) :: rest =>
      rw [evalPairs, attemptPairs]
      refine (key.agrees h frame).onValue fun k _ => ?_
      cases k.key? with
      | none => exact Agrees.error _
      | some found =>
          exact (value.agrees h frame).onValue fun v _ =>
            evalPairs_agrees h frame rest (hshows.set found v)

/-- Every statement. -/
theorem Stmt.agrees (h : CallsAgree call trial) (frame : FrameId) (statement : Stmt) :
    Agrees (statement.eval call frame) (statement.attempt trial frame) := by
  match statement with
  | .bind _ name value =>
      rw [Stmt.eval, Stmt.attempt]
      exact (value.agrees h frame).onValue fun _ _ => Agrees.step fun _ => Agrees.value rfl
  | .leave _ none =>
      rw [Stmt.eval, Stmt.attempt]
      exact Agrees.made fun _ => rfl
  | .leave _ (some value) =>
      rw [Stmt.eval, Stmt.attempt]
      exact (value.agrees h frame).onValue fun _ _ => Agrees.made fun _ => rfl
  | .expr _ value =>
      rw [Stmt.eval, Stmt.attempt]
      exact value.agrees h frame

/-- Statements in a row, after a value that is no error. -/
theorem evalStatements_agrees (h : CallsAgree call trial) (frame : FrameId)
    (statements : List Stmt) (last : Value) (hlast : last.isError = false) :
    Agrees (evalStatements call frame statements last)
      (attemptStatements trial frame statements last) := by
  match statements with
  | [] =>
      rw [evalStatements, attemptStatements]
      exact Agrees.value hlast
  | statement :: rest =>
      rw [evalStatements_cons, attemptStatements]
      refine (statement.agrees h frame).onValue fun value hvalue => ?_
      cases value.leaves with
      | true => exact Agrees.value hvalue
      | false => exact evalStatements_agrees h frame rest value hvalue

/-- Blocks. -/
theorem Block.agrees (h : CallsAgree call trial) (frame : FrameId) (block : Block) :
    Agrees (block.eval call frame) (block.attempt trial frame) := by
  match block with
  | .mk _ statements =>
      rw [Block.eval, Block.attempt]
      exact evalStatements_agrees h frame statements .null rfl

end

/-- What a program or a call ends with, once it has landed. -/
theorem Agrees.landed {r : Run Value} {m : Trial Value} (h : Agrees r m) :
    Agrees (r >>= fun value => pure value.landed) (m >>= fun value => Trial.give value.landed) := by
  have hland : (r >>= fun value => pure value.landed) =
      Run.onValue r fun value => pure value.landed := by
    unfold Run.onValue
    congr 1
    funext value
    cases value <;> rfl
  rw [hland]
  exact h.onValue fun value _ => Agrees.give value.landed

/-- Whole programs. -/
theorem Program.agrees (h : CallsAgree call trial) (frame : FrameId) (program : Program) :
    Agrees (program.eval call frame) (program.attempt trial frame) :=
  (evalStatements_agrees h frame program.statements .null rfl).landed

end Tree

namespace Host

/-- One call agrees if the calls inside it do. -/
theorem callWith_agrees (host : Host) {call : Option Call} {trial : Option TrialCall}
    (h : Option.Rel CallsAgree call trial) :
    CallsAgree (host.callWith call) (host.attemptWith trial) := by
  intro callee arguments
  unfold callWith attemptWith
  cases callee with
  | function _ parameters body frame =>
      dsimp only
      split
      · exact Agrees.error _
      · refine Agrees.step fun depth => ?_
        split
        · exact Agrees.error _
        · cases h with
          | none => exact fun s => Matches.unfinished
          | some hcalls =>
              exact Agrees.deeper (Agrees.step fun own => (body.agrees hcalls own).landed)
  | builtin _ code => exact Agrees.given _
  | _ => exact Agrees.error _

/-- However many calls may nest, they agree. -/
theorem call_agrees (host : Host) (n : Nat) : CallsAgree (host.call n) (host.attempt n) := by
  induction n with
  | zero => exact host.callWith_agrees Option.Rel.none
  | succ n ih => exact host.callWith_agrees (Option.Rel.some ih)

end Host

/-- Tries a node in a frame. -/
def Node.attempt (trial : TrialCall) (frame : FrameId) : Node → Trial Value
  | .program p => p.attempt trial frame
  | .statement s => s.attempt trial frame
  | .block b => b.attempt trial frame
  | .expression e => e.attempt trial frame

/-- Every node, if calls agree. -/
theorem Node.agrees {call : Call} {trial : TrialCall} (h : CallsAgree call trial)
    (frame : FrameId) (node : Node) :
    Agrees (node.eval call frame) (node.attempt trial frame) := by
  cases node with
  | program p => exact p.agrees h frame
  | statement s => exact s.agrees h frame
  | block b => exact b.agrees h frame
  | expression e => exact e.agrees h frame

namespace Matches

variable {x : Option (Value × State)} {y : Option (Except RuntimeError Value × State)}

/-- Both end in an error, or neither does. -/
theorem error_iff (h : Matches x y) (cause : RuntimeError) (s : State) :
    x = some (.error cause, s) ↔ y = some (.error cause, s) := by
  cases h with
  | unfinished => simp
  | raised other t => simp
  | given t hvalue => 
      have hne : ∀ value : Value, value.isError = false → value ≠ .error cause := by
        rintro _ hv rfl
        simp [Value.isError] at hv
      simp [hne _ hvalue]

/-- Both end in a value that is no error, or neither does. -/
theorem value_iff (h : Matches x y) (value : Value) (s : State) :
    (x = some (value, s) ∧ value.isError = false) ↔ y = some (.ok value, s) := by
  cases h with
  | unfinished => simp
  | raised cause t =>
      simp only [Option.some.injEq, Prod.mk.injEq, reduceCtorEq, false_and, iff_false, not_and]
      rintro ⟨rfl, rfl⟩
      simp [Value.isError]
  | given t hvalue =>
      simp only [Option.some.injEq, Prod.mk.injEq, Except.ok.injEq, and_iff_left_iff_imp]
      rintro ⟨rfl, rfl⟩
      exact hvalue

theorem none_iff (h : Matches x y) : x = none ↔ y = none := by
  cases h <;> simp

end Matches

/-- **Evaluation hands errors on exactly as if they were raised.**  On every node,
in every frame and state, and however many calls may nest: evaluation ends in an
error and a state exactly if the trial is cut short by that error in that state;
it ends in any other value and a state exactly if the trial does; and one of them
ends in nothing exactly if the other does.  So the frames, what was printed and
the depth of calls are the same afterwards, and nothing happens after an error. -/
theorem eval_is_exceptional (host : Host) (n : Nat) (node : Node) (frame : FrameId)
    (s : State) :
    (∀ cause s', node.eval (host.call n) frame s = some (.error cause, s') ↔
      (node.attempt (host.attempt n) frame).run s = some (.error cause, s')) ∧
    (∀ value s', (node.eval (host.call n) frame s = some (value, s') ∧ value.isError = false) ↔
      (node.attempt (host.attempt n) frame).run s = some (.ok value, s')) ∧
    (node.eval (host.call n) frame s = none ↔
      (node.attempt (host.attempt n) frame).run s = none) := by
  have h : Matches (node.eval (host.call n) frame s)
      ((node.attempt (host.attempt n) frame).run s) :=
    node.agrees (host.call_agrees n) frame s
  exact ⟨h.error_iff, h.value_iff, h.none_iff⟩

end MonkeyLang
