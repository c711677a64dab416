import MonkeyLang.Proofs.ErrorPropagation

/-!
# Evaluation with exits

A third evaluator, in which a return statement is an exit: it breaks off whatever
evaluation it stands in, up to the nearest call around it or to the end of the program,
and the value it hands over is caught there, once.  No value is ever marked as leaving a
function, and no block looks at the values of its statements.

The types say who catches what.  A `Course` may be cut short by an error or by an exit;
a call and a whole program are trials, which know of errors only, and `Course.caught` is
the one way from the first to the second.

This is how return statements are meant to work, and it is how they do work in tidy
programs: where an if-expression with a return in its branches stands as a statement of
its own, not as a part of a larger expression.
-/

namespace MonkeyLang

/-- What cuts a course short. -/
inductive Exit
  | failed (cause : RuntimeError)
  /-- A return statement hands a value over. -/
  | left (value : Value)

/-- A computation over the state that may be cut short by an error or an exit. -/
abbrev Course (α : Type) := ExceptT Exit Run α

namespace Course

variable {α : Type}

/-- A run within a course. -/
def ofRun (m : Run α) : Course α := ExceptT.lift m

/-- Runs what sees no frame. -/
def lift (m : Effect α) : Course α := ofRun (Run.lift m)

/-- A trial within a course. -/
def ofTrial (m : Trial α) : Course α := ExceptT.adapt Exit.failed m

/-- Hands a value on; an error is raised instead. -/
def give : Value → Course Value
  | .error cause => throw (.failed cause)
  | value => pure value

/-- Leaves with a value.  The exit takes a stamp, as every other value made here does. -/
def leave (value : Value) : Course Value := do
  let _ ← lift Effect.fresh
  throw (.left value)

/-- Catches the exit. -/
def caught (m : Course Value) : Trial Value := ExceptT.mk do
  match ← m.run with
  | .ok value => pure (.ok value)
  | .error (.left value) => pure (.ok value)
  | .error (.failed cause) => pure (.error cause)

end Course

/-! ## How courses compose -/

namespace Course

variable {α β : Type} {m : Course α} {s s' : State}

theorem bind_run_of_none (h : m.run s = none) (f : α → Course β) : (m >>= f).run s = none :=
  Run.bind_run_of_none h _

/-- What follows an error or an exit is left out. -/
theorem bind_run_of_error {exit : Exit} (h : m.run s = some (.error exit, s'))
    (f : α → Course β) : (m >>= f).run s = some (.error exit, s') :=
  Run.bind_run_of_some h _

theorem bind_run_of_ok {a : α} (h : m.run s = some (.ok a, s')) (f : α → Course β) :
    (m >>= f).run s = (f a).run s' :=
  Run.bind_run_of_some h _

theorem ofRun_run_of_none {r : Run α} (h : r s = none) : (ofRun r).run s = none := by
  change StateT.map Except.ok r s = none
  simp [StateT.map, h]

theorem ofRun_run_of_some {r : Run α} {a : α} (h : r s = some (a, s')) :
    (ofRun r).run s = some (.ok a, s') := by
  change StateT.map Except.ok r s = some (.ok a, s')
  simp [StateT.map, h]

/-- A trial within a course ends where it does by itself. -/
theorem ofTrial_run (t : Trial α) (s : State) :
    (ofTrial t).run s = (t.run s).map fun out => (out.1.mapError Exit.failed, out.2) := by
  change StateT.map (Except.mapError Exit.failed) t.run s = _
  cases h : t.run s <;> simp [StateT.map, h]

theorem ofTrial_ofRun (r : Run α) : ofTrial (Trial.ofRun r) = ofRun r := by
  funext s
  change (ofTrial (Trial.ofRun r)).run s = (ofRun r).run s
  rw [ofTrial_run]
  cases h : r s with
  | none => rw [Trial.ofRun_run_of_none h, ofRun_run_of_none h]; rfl
  | some out => rw [Trial.ofRun_run_of_some h, ofRun_run_of_some h]; rfl

theorem ofTrial_give (value : Value) : ofTrial (Trial.give value) = give value := by
  cases value <;> rfl

theorem ofTrial_bind (t : Trial α) (g : α → Trial β) :
    ofTrial (t >>= g) = ofTrial t >>= fun a => ofTrial (g a) := by
  funext s
  change (ofTrial (t >>= g)).run s = (ofTrial t >>= fun a => ofTrial (g a)).run s
  have ht := ofTrial_run t s
  rw [ofTrial_run]
  rcases h : t.run s with _ | ⟨cause | a, s'⟩ <;> rw [h] at ht
  · rw [Trial.bind_run_of_none h, bind_run_of_none ht]
    rfl
  · rw [Trial.bind_run_of_error h, bind_run_of_error ht]
    rfl
  · rw [Trial.bind_run_of_ok h, bind_run_of_ok ht, ofTrial_run]

theorem caught_run_of_none {m : Course Value} (h : m.run s = none) : m.caught.run s = none :=
  Run.bind_run_of_none h _

theorem caught_run_of_ok {m : Course Value} {value : Value}
    (h : m.run s = some (.ok value, s')) : m.caught.run s = some (.ok value, s') :=
  Run.bind_run_of_some h _

theorem caught_run_of_left {m : Course Value} {value : Value}
    (h : m.run s = some (.error (.left value), s')) : m.caught.run s = some (.ok value, s') :=
  Run.bind_run_of_some h _

theorem caught_run_of_failed {m : Course Value} {cause : RuntimeError}
    (h : m.run s = some (.error (.failed cause), s')) : m.caught.run s = some (.error cause, s') :=
  Run.bind_run_of_some h _

end Course

/-! ## The evaluator -/

mutual

/-- The course of an expression in a frame. -/
def Expr.course (call : TrialCall) (frame : FrameId) : Expr → Course Value
  | .ident t => do Course.give (← Course.ofRun (Run.lookup frame t.literal))
  | .int _ value => pure (.integer value)
  | .string t => pure (.string t.literal)
  | .bool _ value => pure (.boolean value)
  | .unary t operand => do
    let value ← operand.course call frame
    Course.give (Value.unary t.literal value)
  | .binary t left right => do
    let a ← left.course call frame
    let b ← right.course call frame
    Course.give (Value.binary t.literal a b)
  | .cond _ test consequence alternative => do
    let value ← test.course call frame
    if value.isTruthy then consequence.course call frame
    else
      match alternative with
      | some block => block.course call frame
      | none => pure .null
  | .function _ parameters body =>
    Course.lift do return .function (← Effect.fresh) parameters body frame
  | .call _ callee arguments => do
    let f ← callee.course call frame
    let values ← courseAll call frame arguments
    Course.ofTrial (call f values)
  | .array _ elements => do
    let values ← courseAll call frame elements
    Course.lift (Effect.newArray values)
  | .index _ collection key => do
    let a ← collection.course call frame
    let b ← key.course call frame
    Course.give (Value.index a b)
  | .hash _ pairs => coursePairs call frame pairs []

/-- The course of expressions from left to right. -/
def courseAll (call : TrialCall) (frame : FrameId) : List Expr → Course (List Value)
  | [] => pure []
  | e :: rest => do
    let value ← e.course call frame
    let values ← courseAll call frame rest
    pure (value :: values)

/-- The course of the entries of a hash literal. -/
def coursePairs (call : TrialCall) (frame : FrameId) :
    List (Expr × Expr) → Table Value → Course Value
  | [], entries => Course.lift (Effect.newHash entries)
  | (key, value) :: rest, entries => do
    let k ← key.course call frame
    match k.key? with
    | none => throw (.failed (.unusableKey k.kind))
    | some found =>
      let v ← value.course call frame
      coursePairs call frame rest (entries.set found v)

/-- The course of a statement in a frame. -/
def Stmt.course (call : TrialCall) (frame : FrameId) : Stmt → Course Value
  | .bind _ name value => do
    let v ← value.course call frame
    Course.ofRun (Run.bindName frame name.literal v)
    pure .null
  | .leave _ none => Course.leave .null
  | .leave _ (some value) => do
    let v ← value.course call frame
    Course.leave v
  | .expr _ value => value.course call frame

/-- The course of statements, to the last of them. -/
def courseStatements (call : TrialCall) (frame : FrameId) : List Stmt → Value → Course Value
  | [], last => pure last
  | s :: rest, _ => do
    let value ← s.course call frame
    courseStatements call frame rest value

/-- The course of a block in a frame. -/
def Block.course (call : TrialCall) (frame : FrameId) : Block → Course Value
  | .mk _ statements => courseStatements call frame statements .null

end

/-- The course of a program in a frame, with its exit caught. -/
def Program.course (call : TrialCall) (frame : FrameId) (program : Program) : Trial Value :=
  (courseStatements call frame program.statements .null).caught

namespace Host

/-- Applies a value, given how the calls inside are made.  The exit from the body of a
function is caught here. -/
def courseWith (host : Host) (inner : Option TrialCall) : TrialCall := fun callee arguments =>
  match callee with
  | .function _ parameters body frame =>
    if arguments.length ≠ parameters.length then
      throw (.argumentCount arguments.length parameters.length)
    else do
      let depth ← Trial.ofRun Run.depth
      if host.forbids depth then
        throw (.callDepth host.limit)
      else
        match inner with
        | none => Trial.ofRun Run.unfinished
        | some call => Trial.deeper do
          let own ← Trial.ofRun (Run.addFrame ((Frame.empty frame).setAll parameters arguments))
          (body.course call own).caught
  | .builtin _ code => do Trial.give (← Trial.lift (host.native code arguments))
  | other => throw (.notFunction (some other.kind))

/-- Applies a value when at most the given number of calls nest. -/
def course (host : Host) : Nat → TrialCall
  | 0 => host.courseWith none
  | n + 1 => host.courseWith (some (host.course n))

end Host

/-! ## Tidy programs -/

mutual

/-- A return statement stands in the expression, not counting those in functions. -/
def Expr.hasLeave : Expr → Bool
  | .ident _ | .int _ _ | .string _ | .bool _ _ | .function _ _ _ => false
  | .unary _ a => a.hasLeave
  | .binary _ a b | .index _ a b => a.hasLeave || b.hasLeave
  | .cond _ test yes none => test.hasLeave || yes.hasLeave
  | .cond _ test yes (some no) => test.hasLeave || yes.hasLeave || no.hasLeave
  | .call _ callee arguments => callee.hasLeave || anyHasLeave arguments
  | .array _ elements => anyHasLeave elements
  | .hash _ pairs => pairsHaveLeave pairs

def anyHasLeave : List Expr → Bool
  | [] => false
  | e :: rest => e.hasLeave || anyHasLeave rest

def pairsHaveLeave : List (Expr × Expr) → Bool
  | [] => false
  | (key, value) :: rest => key.hasLeave || value.hasLeave || pairsHaveLeave rest

def Stmt.hasLeave : Stmt → Bool
  | .bind _ _ value | .expr _ value => value.hasLeave
  | .leave _ _ => true

def statementsHaveLeave : List Stmt → Bool
  | [] => false
  | s :: rest => s.hasLeave || statementsHaveLeave rest

def Block.hasLeave : Block → Bool
  | .mk _ statements => statementsHaveLeave statements

end

mutual

/-- Every if-expression with a return statement in its branches is the whole of an
expression statement: of the program, of the body of a function, or of a branch of another
such if-expression.  The flag says that the expression itself is such a whole. -/
def Expr.tidy (whole : Bool) : Expr → Bool
  | .ident _ | .int _ _ | .string _ | .bool _ _ => true
  | .unary _ a => a.tidy false
  | .binary _ a b | .index _ a b => a.tidy false && b.tidy false
  | .cond _ test yes none =>
    (whole || !yes.hasLeave) && test.tidy false && yes.tidy whole
  | .cond _ test yes (some no) =>
    (whole || !(yes.hasLeave || no.hasLeave)) && test.tidy false && yes.tidy whole &&
      no.tidy whole
  | .function _ _ body => body.tidy true
  | .call _ callee arguments => callee.tidy false && allTidy arguments
  | .array _ elements => allTidy elements
  | .hash _ pairs => pairsTidy pairs

def allTidy : List Expr → Bool
  | [] => true
  | e :: rest => e.tidy false && allTidy rest

def pairsTidy : List (Expr × Expr) → Bool
  | [] => true
  | (key, value) :: rest => key.tidy false && value.tidy false && pairsTidy rest

def Stmt.tidy (whole : Bool) : Stmt → Bool
  | .bind _ _ value | .leave _ (some value) => value.tidy false
  | .leave _ none => true
  | .expr _ value => value.tidy whole

def statementsTidy (whole : Bool) : List Stmt → Bool
  | [] => true
  | s :: rest => s.tidy whole && statementsTidy whole rest

def Block.tidy (whole : Bool) : Block → Bool
  | .mk _ statements => statementsTidy whole statements

end

/-- The statements of a tidy program may be if-expressions with return statements. -/
def Program.tidy (program : Program) : Bool :=
  statementsTidy true program.statements

end MonkeyLang
