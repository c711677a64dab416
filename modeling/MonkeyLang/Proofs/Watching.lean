import MonkeyLang.Proofs.ErrorPropagation

/-!
# Evaluation under watch

Evaluation with a record of every value that is put to use: bound to a name, passed to a
function, put into an array or a hash, used as an operand, as a condition or as what is
called, handed over by a return statement, or given back by a call or a program.  The
record is kept also when an evaluation is cut short or does not end.

Watching changes nothing: `Host.watch_erases` and `Program.watch_erases` say that, the
record apart, evaluation under watch is evaluation.
-/

namespace MonkeyLang

/-- What a value is used for. -/
inductive Role
  | binding | argument | element | operand | condition | callee | exit | result
  deriving DecidableEq

/-- A value put to use. -/
structure Use where
  role : Role
  value : Value

/-- Why an evaluation under watch has not come to a value. -/
inductive Halt
  | unfinished
  | raised (cause : RuntimeError)

/-- A state and the uses up to it, the latest first. -/
structure Watched where
  state : State
  uses : List Use

/-- A computation over the state that is watched, and may halt. -/
abbrev Watch (α : Type) := ExceptT Halt (StateM Watched) α

namespace Watch

variable {α : Type}

/-- A run that has no uses to watch. -/
def ofRun (m : Run α) : Watch α := ExceptT.mk fun w =>
  match m w.state with
  | none => (.error .unfinished, w)
  | some (a, state) => (.ok a, { w with state })

/-- Runs what sees no frame. -/
def lift (m : Effect α) : Watch α := ofRun (Run.lift m)

/-- Raises an error. -/
def raise (cause : RuntimeError) : Watch α := throw (.raised cause)

/-- Hands a value on; an error is raised instead. -/
def give : Value → Watch Value
  | .error cause => raise cause
  | value => pure value

/-- Records that values are put to use. -/
def noteAll (role : Role) (values : List Value) : Watch Unit := ExceptT.mk fun w =>
  (.ok (), { w with uses := values.map (Use.mk role) ++ w.uses })

/-- Records that a value is put to use. -/
def note (role : Role) (value : Value) : Watch Unit := noteAll role [value]

/-- Watches one call deeper. -/
def deeper (m : Watch α) : Watch α := ExceptT.mk fun w =>
  let (result, after) := m.run { w with state := { w.state with depth := w.state.depth + 1 } }
  (result, { after with state := { after.state with depth := after.state.depth - 1 } })

end Watch

/-- How a value is applied to arguments. -/
abbrev WatchCall := Value → List Value → Watch Value

mutual

/-- Watches an expression in a frame. -/
def Expr.watch (call : WatchCall) (frame : FrameId) : Expr → Watch Value
  | .ident t => do Watch.give (← Watch.ofRun (Run.lookup frame t.literal))
  | .int _ value => pure (.integer value)
  | .string t => pure (.string t.literal)
  | .bool _ value => pure (.boolean value)
  | .unary t operand => do
    let value ← operand.watch call frame
    Watch.note .operand value
    Watch.give (Value.unary t.literal value)
  | .binary t left right => do
    let a ← left.watch call frame
    let b ← right.watch call frame
    Watch.noteAll .operand [a, b]
    Watch.give (Value.binary t.literal a b)
  | .cond _ test consequence alternative => do
    let value ← test.watch call frame
    Watch.note .condition value
    if value.isTruthy then consequence.watch call frame
    else
      match alternative with
      | some block => block.watch call frame
      | none => pure .null
  | .function _ parameters body =>
    Watch.lift do return .function (← Effect.fresh) parameters body frame
  | .call _ callee arguments => do
    let f ← callee.watch call frame
    Watch.note .callee f
    let values ← watchAll call frame arguments
    Watch.noteAll .argument values
    call f values
  | .array _ elements => do
    let values ← watchAll call frame elements
    Watch.noteAll .element values
    Watch.lift (Effect.newArray values)
  | .index _ collection key => do
    let a ← collection.watch call frame
    let b ← key.watch call frame
    Watch.noteAll .operand [a, b]
    Watch.give (Value.index a b)
  | .hash _ pairs => watchPairs call frame pairs []

/-- Watches expressions from left to right. -/
def watchAll (call : WatchCall) (frame : FrameId) : List Expr → Watch (List Value)
  | [] => pure []
  | e :: rest => do
    let value ← e.watch call frame
    let values ← watchAll call frame rest
    pure (value :: values)

/-- Watches the entries of a hash literal. -/
def watchPairs (call : WatchCall) (frame : FrameId) :
    List (Expr × Expr) → Table Value → Watch Value
  | [], entries => Watch.lift (Effect.newHash entries)
  | (key, value) :: rest, entries => do
    let k ← key.watch call frame
    Watch.note .element k
    match k.key? with
    | none => Watch.raise (.unusableKey k.kind)
    | some found =>
      let v ← value.watch call frame
      Watch.note .element v
      watchPairs call frame rest (entries.set found v)

/-- Watches a statement in a frame. -/
def Stmt.watch (call : WatchCall) (frame : FrameId) : Stmt → Watch Value
  | .bind _ name value => do
    let v ← value.watch call frame
    Watch.note .binding v
    Watch.ofRun (Run.bindName frame name.literal v)
    pure .null
  | .leave _ none => Watch.lift (Effect.newReturned .null)
  | .leave _ (some value) => do
    let v ← value.watch call frame
    Watch.note .exit v
    Watch.lift (Effect.newReturned v)
  | .expr _ value => value.watch call frame

/-- Watches statements until one of them leaves the rest. -/
def watchStatements (call : WatchCall) (frame : FrameId) : List Stmt → Value → Watch Value
  | [], last => pure last
  | s :: rest, _ => do
    let value ← s.watch call frame
    if value.leaves then pure value else watchStatements call frame rest value

/-- Watches a block in a frame. -/
def Block.watch (call : WatchCall) (frame : FrameId) : Block → Watch Value
  | .mk _ statements => watchStatements call frame statements .null

end

/-- What a program or a call lands with is given back. -/
def Watch.land (m : Watch Value) : Watch Value := do
  let value ← m
  Watch.note .result value.landed
  Watch.give value.landed

/-- Watches a program in a frame. -/
def Program.watch (call : WatchCall) (frame : FrameId) (program : Program) : Watch Value :=
  (watchStatements call frame program.statements .null).land

namespace Host

/-- Applies a value, given how the calls inside are watched, if any may be made. -/
def watchWith (host : Host) (inner : Option WatchCall) : WatchCall := fun callee arguments =>
  match callee with
  | .function _ parameters body frame =>
    if arguments.length ≠ parameters.length then
      Watch.raise (.argumentCount arguments.length parameters.length)
    else do
      let depth ← Watch.ofRun Run.depth
      if host.forbids depth then
        Watch.raise (.callDepth host.limit)
      else
        match inner with
        | none => Watch.ofRun Run.unfinished
        | some call => Watch.deeper do
          Watch.noteAll .binding arguments
          let own ← Watch.ofRun (Run.addFrame ((Frame.empty frame).setAll parameters arguments))
          (body.watch call own).land
  | .builtin _ code => do
    let value ← Watch.lift (host.native code arguments)
    Watch.note .result value
    Watch.give value
  | other => Watch.raise (.notFunction (some other.kind))

/-- Applies a value when at most the given number of calls nest. -/
def watch (host : Host) : Nat → WatchCall
  | 0 => host.watchWith none
  | n + 1 => host.watchWith (some (host.watch n))

end Host

/-! ## The record taken away -/

/-- What a watched computation has come to, without the record. -/
def Watch.outcome {α : Type} : Except Halt α × Watched → Option (Except RuntimeError α × State)
  | (.ok a, w) => some (.ok a, w.state)
  | (.error (.raised cause), w) => some (.error cause, w.state)
  | (.error .unfinished, _) => none

/-- A watched computation that is a trial, the record apart. -/
def Watch.Erases {α : Type} (m : Watch α) (t : Trial α) : Prop :=
  ∀ w, Watch.outcome (m.run w) = t.run w.state

namespace Watch

variable {α β : Type} {m : Watch α} {w w' : Watched}

theorem bind_run_of_ok {a : α} (h : m.run w = (.ok a, w')) (f : α → Watch β) :
    (m >>= f).run w = (f a).run w' := by
  change (ExceptT.bindCont f (m.run w).1).run (m.run w).2 = _
  rw [h]
  rfl

theorem bind_run_of_error {halt : Halt} (h : m.run w = (.error halt, w')) (f : α → Watch β) :
    (m >>= f).run w = (.error halt, w') := by
  change (ExceptT.bindCont f (m.run w).1).run (m.run w).2 = _
  rw [h]
  rfl

theorem ofRun_run_of_some {r : Run α} {a : α} {state : State}
    (h : r w.state = some (a, state)) : (ofRun r).run w = (.ok a, { w with state }) := by
  simp only [ofRun, ExceptT.run, ExceptT.mk, h]

theorem ofRun_run_of_none {r : Run α} (h : r w.state = none) :
    (ofRun r).run w = (.error .unfinished, w) := by
  simp only [ofRun, ExceptT.run, ExceptT.mk, h]

theorem deeper_run {r : Except Halt α}
    (h : m.run { w with state := { w.state with depth := w.state.depth + 1 } } = (r, w')) :
    (deeper m).run w =
      (r, { w' with state := { w'.state with depth := w'.state.depth - 1 } }) := by
  simp only [deeper, ExceptT.run, ExceptT.mk] at h ⊢
  rw [h]

end Watch

namespace Watch.Erases

variable {α β : Type} {m : Watch α} {t : Trial α}

theorem pure (a : α) : Erases (Pure.pure a) (Pure.pure a) := fun _ => rfl

theorem raise (cause : RuntimeError) : Erases (Watch.raise cause : Watch α) (throw cause) :=
  fun _ => rfl

theorem bind {f : α → Watch β} {g : α → Trial β} (h : Erases m t)
    (hf : ∀ a, Erases (f a) (g a)) : Erases (m >>= f) (t >>= g) := by
  intro w
  have hw := h w
  rcases hm : m.run w with ⟨(_ | cause) | a, after⟩ <;> rw [hm] at hw
  · rw [bind_run_of_error hm, Trial.bind_run_of_none hw.symm]
    rfl
  · rw [bind_run_of_error hm, Trial.bind_run_of_error hw.symm]
    rfl
  · rw [bind_run_of_ok hm, Trial.bind_run_of_ok hw.symm]
    exact hf a after

/-- A record is no step of the trial. -/
theorem noteAll (role : Role) (values : List Value) (h : Erases m t) :
    Erases (Watch.noteAll role values >>= fun _ => m) t :=
  fun w => h { w with uses := values.map (Use.mk role) ++ w.uses }

theorem note (role : Role) (value : Value) (h : Erases m t) :
    Erases (Watch.note role value >>= fun _ => m) t :=
  noteAll role [value] h

theorem ofRun (r : Run α) : Erases (Watch.ofRun r) (Trial.ofRun r) := by
  intro w
  cases hr : r w.state with
  | none =>
      rw [Trial.ofRun_run_of_none hr, ofRun_run_of_none hr]
      rfl
  | some out =>
      obtain ⟨a, state⟩ := out
      rw [Trial.ofRun_run_of_some hr, ofRun_run_of_some hr]
      rfl

theorem give (value : Value) : Erases (Watch.give value) (Trial.give value) := by
  cases value with
  | error cause => exact raise cause
  | _ => exact pure _

theorem deeper (h : Erases m t) : Erases (Watch.deeper m) (Trial.deeper t) := by
  intro w
  have hw := h { w with state := { w.state with depth := w.state.depth + 1 } }
  change _ = Run.deeper t.run w.state
  rcases hm : m.run { w with state := { w.state with depth := w.state.depth + 1 } } with
    ⟨(_ | cause) | a, after⟩ <;> rw [hm] at hw
  · rw [deeper_run hm, Run.deeper_run_of_none hw.symm]
    rfl
  · rw [deeper_run hm, Run.deeper_run_of_some hw.symm]
    rfl
  · rw [deeper_run hm, Run.deeper_run_of_some hw.symm]
    rfl

end Watch.Erases

/-- Calls that are watched and tried alike. -/
def WatchCall.Erases (watch : WatchCall) (call : TrialCall) : Prop :=
  ∀ f arguments, Watch.Erases (watch f arguments) (call f arguments)

section Tree

variable {watch : WatchCall} {call : TrialCall}

mutual

/-- Every expression. -/
theorem Expr.watch_erases (h : watch.Erases call) (frame : FrameId) (e : Expr) :
    Watch.Erases (e.watch watch frame) (e.attempt call frame) := by
  match e with
  | .ident t =>
      rw [Expr.watch, Expr.attempt]
      exact (Watch.Erases.ofRun _).bind Watch.Erases.give
  | .int _ value =>
      rw [Expr.watch, Expr.attempt]
      exact Watch.Erases.pure _
  | .string t =>
      rw [Expr.watch, Expr.attempt]
      exact Watch.Erases.pure _
  | .bool _ value =>
      rw [Expr.watch, Expr.attempt]
      exact Watch.Erases.pure _
  | .unary t operand =>
      rw [Expr.watch, Expr.attempt]
      exact (operand.watch_erases h frame).bind fun value => (Watch.Erases.give _).note _ value
  | .binary t left right =>
      rw [Expr.watch, Expr.attempt]
      refine (left.watch_erases h frame).bind fun a => ?_
      exact (right.watch_erases h frame).bind fun b => (Watch.Erases.give _).noteAll _ [a, b]
  | .cond _ test consequence none =>
      rw [Expr.watch, Expr.attempt]
      refine (test.watch_erases h frame).bind fun value => Watch.Erases.note _ value ?_
      cases value.isTruthy with
      | true => exact consequence.watch_erases h frame
      | false => exact Watch.Erases.pure _
  | .cond _ test consequence (some alternative) =>
      rw [Expr.watch, Expr.attempt]
      refine (test.watch_erases h frame).bind fun value => Watch.Erases.note _ value ?_
      cases value.isTruthy with
      | true => exact consequence.watch_erases h frame
      | false => exact alternative.watch_erases h frame
  | .function _ parameters body =>
      rw [Expr.watch, Expr.attempt]
      exact Watch.Erases.ofRun _
  | .call _ callee arguments =>
      rw [Expr.watch, Expr.attempt]
      refine (callee.watch_erases h frame).bind fun f => Watch.Erases.note _ f ?_
      refine (watchAll_erases h frame arguments).bind fun values => ?_
      exact (h f values).noteAll _ values
  | .array _ elements =>
      rw [Expr.watch, Expr.attempt]
      refine (watchAll_erases h frame elements).bind fun values => ?_
      exact (Watch.Erases.ofRun _).noteAll _ values
  | .index _ collection key =>
      rw [Expr.watch, Expr.attempt]
      refine (collection.watch_erases h frame).bind fun a => ?_
      exact (key.watch_erases h frame).bind fun b => (Watch.Erases.give _).noteAll _ [a, b]
  | .hash _ pairs =>
      rw [Expr.watch, Expr.attempt]
      exact watchPairs_erases h frame pairs []

/-- Arguments and elements. -/
theorem watchAll_erases (h : watch.Erases call) (frame : FrameId) (es : List Expr) :
    Watch.Erases (watchAll watch frame es) (attemptAll call frame es) := by
  match es with
  | [] =>
      rw [watchAll, attemptAll]
      exact Watch.Erases.pure _
  | e :: rest =>
      rw [watchAll, attemptAll]
      refine (e.watch_erases h frame).bind fun value => ?_
      exact (watchAll_erases h frame rest).bind fun values => Watch.Erases.pure _

/-- The entries of a hash literal. -/
theorem watchPairs_erases (h : watch.Erases call) (frame : FrameId)
    (pairs : List (Expr × Expr)) (entries : Table Value) :
    Watch.Erases (watchPairs watch frame pairs entries)
      (attemptPairs call frame pairs entries) := by
  match pairs with
  | [] =>
      rw [watchPairs, attemptPairs]
      exact Watch.Erases.ofRun _
  | (key, value) :: rest =>
      rw [watchPairs, attemptPairs]
      refine (key.watch_erases h frame).bind fun k => Watch.Erases.note _ k ?_
      cases k.key? with
      | none => exact Watch.Erases.raise _
      | some found =>
          refine (value.watch_erases h frame).bind fun v => Watch.Erases.note _ v ?_
          exact watchPairs_erases h frame rest _

/-- Every statement. -/
theorem Stmt.watch_erases (h : watch.Erases call) (frame : FrameId) (statement : Stmt) :
    Watch.Erases (statement.watch watch frame) (statement.attempt call frame) := by
  match statement with
  | .bind _ name value =>
      rw [Stmt.watch, Stmt.attempt]
      refine (value.watch_erases h frame).bind fun v => Watch.Erases.note _ v ?_
      exact (Watch.Erases.ofRun _).bind fun _ => Watch.Erases.pure _
  | .leave _ none =>
      rw [Stmt.watch, Stmt.attempt]
      exact Watch.Erases.ofRun _
  | .leave _ (some value) =>
      rw [Stmt.watch, Stmt.attempt]
      exact (value.watch_erases h frame).bind fun v => (Watch.Erases.ofRun _).note _ v
  | .expr _ value =>
      rw [Stmt.watch, Stmt.attempt]
      exact value.watch_erases h frame

/-- Statements in a row. -/
theorem watchStatements_erases (h : watch.Erases call) (frame : FrameId)
    (statements : List Stmt) (last : Value) :
    Watch.Erases (watchStatements watch frame statements last)
      (attemptStatements call frame statements last) := by
  match statements with
  | [] =>
      rw [watchStatements, attemptStatements]
      exact Watch.Erases.pure _
  | statement :: rest =>
      rw [watchStatements, attemptStatements]
      refine (statement.watch_erases h frame).bind fun value => ?_
      cases value.leaves with
      | true => exact Watch.Erases.pure _
      | false => exact watchStatements_erases h frame rest value

/-- Blocks. -/
theorem Block.watch_erases (h : watch.Erases call) (frame : FrameId) (block : Block) :
    Watch.Erases (block.watch watch frame) (block.attempt call frame) := by
  match block with
  | .mk _ statements =>
      rw [Block.watch, Block.attempt]
      exact watchStatements_erases h frame statements .null

end

/-- What a program or a call lands with. -/
theorem Watch.Erases.land {m : Watch Value} {t : Trial Value} (h : Erases m t) :
    Erases m.land (t >>= fun value => Trial.give value.landed) :=
  h.bind fun value => (give value.landed).note _ value.landed

/-- Whole programs. -/
theorem Program.watch_erases (h : watch.Erases call) (frame : FrameId) (program : Program) :
    Watch.Erases (program.watch watch frame) (program.attempt call frame) :=
  (watchStatements_erases h frame program.statements .null).land

end Tree

namespace Host

/-- One call under watch is the call, if the calls inside it are. -/
theorem watchWith_erases (host : Host) {watch : Option WatchCall} {call : Option TrialCall}
    (h : Option.Rel WatchCall.Erases watch call) :
    (host.watchWith watch).Erases (host.attemptWith call) := by
  intro callee arguments
  unfold watchWith attemptWith
  cases callee with
  | function _ parameters body frame =>
      dsimp only
      split
      · exact Watch.Erases.raise _
      · refine (Watch.Erases.ofRun _).bind fun depth => ?_
        split
        · exact Watch.Erases.raise _
        · cases h with
          | none => exact Watch.Erases.ofRun _
          | some hcalls =>
              refine Watch.Erases.deeper (Watch.Erases.noteAll _ arguments ?_)
              exact (Watch.Erases.ofRun _).bind fun own => (body.watch_erases hcalls own).land
  | builtin _ code =>
      exact (Watch.Erases.ofRun _).bind fun value => (Watch.Erases.give _).note _ value
  | _ => exact Watch.Erases.raise _

/-- **Watching changes nothing**, however many calls may nest. -/
theorem watch_erases (host : Host) (n : Nat) : (host.watch n).Erases (host.attempt n) := by
  induction n with
  | zero => exact host.watchWith_erases .none
  | succ n ih => exact host.watchWith_erases (.some ih)

end Host
end MonkeyLang
