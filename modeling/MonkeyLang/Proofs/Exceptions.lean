import MonkeyLang.Machine.Evaluator

/-!
# Evaluation with exceptions

A second evaluator, with the same clauses as the first but with errors that are
raised.  A trial changes the state like a run does and may be cut short by an
error; whatever was to follow is then left out, which is all there is to say
about errors here.  No clause looks at an error, and none hands one on.

An error is raised where it comes up: as the value of a name, as the outcome of
an operator, of indexing or of a built-in function, as what a call or a program
lands with, and where a key or a call is refused.
-/

namespace MonkeyLang

/-- A computation over the state that may be cut short by an error. -/
abbrev Trial (α : Type) := ExceptT RuntimeError Run α

namespace Trial

variable {α : Type}

/-- A run within a trial. -/
def ofRun (m : Run α) : Trial α := ExceptT.lift m

/-- Runs what sees no frame. -/
def lift (m : Effect α) : Trial α := ofRun (Run.lift m)

/-- Hands a value on; an error is raised instead. -/
def give : Value → Trial Value
  | .error cause => throw cause
  | value => pure value

/-- Tries one call deeper.  The call ends also when it is cut short. -/
def deeper (m : Trial α) : Trial α := ExceptT.mk (Run.deeper m.run)

end Trial

/-- How a value is applied to arguments. -/
abbrev TrialCall := Value → List Value → Trial Value

/-- The value leaves the statements it is found in. -/
def Value.leaves : Value → Bool
  | .returned .. => true
  | _ => false

mutual

/-- Tries an expression in a frame. -/
def Expr.attempt (call : TrialCall) (frame : FrameId) : Expr → Trial Value
  | .ident t => do Trial.give (← Trial.ofRun (Run.lookup frame t.literal))
  | .int _ value => pure (.integer value)
  | .string t => pure (.string t.literal)
  | .bool _ value => pure (.boolean value)
  | .unary t operand => do
    let value ← operand.attempt call frame
    Trial.give (Value.unary t.literal value)
  | .binary t left right => do
    let a ← left.attempt call frame
    let b ← right.attempt call frame
    Trial.give (Value.binary t.literal a b)
  | .cond _ test consequence alternative => do
    let value ← test.attempt call frame
    if value.isTruthy then consequence.attempt call frame
    else
      match alternative with
      | some block => block.attempt call frame
      | none => pure .null
  | .function _ parameters body =>
    Trial.lift do return .function (← Effect.fresh) parameters body frame
  | .call _ callee arguments => do
    let f ← callee.attempt call frame
    let values ← attemptAll call frame arguments
    call f values
  | .array _ elements => do
    let values ← attemptAll call frame elements
    Trial.lift (Effect.newArray values)
  | .index _ collection key => do
    let a ← collection.attempt call frame
    let b ← key.attempt call frame
    Trial.give (Value.index a b)
  | .hash _ pairs => attemptPairs call frame pairs []

/-- Tries expressions from left to right. -/
def attemptAll (call : TrialCall) (frame : FrameId) : List Expr → Trial (List Value)
  | [] => pure []
  | e :: rest => do
    let value ← e.attempt call frame
    let values ← attemptAll call frame rest
    pure (value :: values)

/-- Tries the entries of a hash literal and makes the hash. -/
def attemptPairs (call : TrialCall) (frame : FrameId) :
    List (Expr × Expr) → Table Value → Trial Value
  | [], entries => Trial.lift (Effect.newHash entries)
  | (key, value) :: rest, entries => do
    let k ← key.attempt call frame
    match k.key? with
    | none => throw (.unusableKey k.kind)
    | some found =>
      let v ← value.attempt call frame
      attemptPairs call frame rest (entries.set found v)

/-- Tries a statement in a frame. -/
def Stmt.attempt (call : TrialCall) (frame : FrameId) : Stmt → Trial Value
  | .bind _ name value => do
    let v ← value.attempt call frame
    Trial.ofRun (Run.bindName frame name.literal v)
    pure .null
  | .leave _ none => Trial.lift (Effect.newReturned .null)
  | .leave _ (some value) => do
    let v ← value.attempt call frame
    Trial.lift (Effect.newReturned v)
  | .expr _ value => value.attempt call frame

/-- Tries statements until one of them leaves the rest. -/
def attemptStatements (call : TrialCall) (frame : FrameId) :
    List Stmt → Value → Trial Value
  | [], last => pure last
  | s :: rest, _ => do
    let value ← s.attempt call frame
    if value.leaves then pure value else attemptStatements call frame rest value

/-- Tries a block in a frame. -/
def Block.attempt (call : TrialCall) (frame : FrameId) : Block → Trial Value
  | .mk _ statements => attemptStatements call frame statements .null

end

/-- Tries a program in a frame. -/
def Program.attempt (call : TrialCall) (frame : FrameId) (program : Program) :
    Trial Value := do
  let value ← attemptStatements call frame program.statements .null
  Trial.give value.landed

namespace Host

/-- Applies a value, given how the calls inside are tried, if any may be made. -/
def attemptWith (host : Host) (inner : Option TrialCall) : TrialCall := fun callee arguments =>
  match callee with
  | .function _ parameters body frame =>
    if arguments.length ≠ parameters.length then
      throw (.argumentCount arguments.length parameters.length)
    else do
      let depth ← Trial.ofRun Run.depth
      if host.forbids depth then
        throw (.callDepth host.limit)
      else
        match inner with
        | none => Trial.ofRun Run.unfinished
        | some call => Trial.deeper do
          let own ← Trial.ofRun (Run.addFrame ((Frame.empty frame).setAll parameters arguments))
          let value ← body.attempt call own
          Trial.give value.landed
  | .builtin _ code => do Trial.give (← Trial.lift (host.native code arguments))
  | other => throw (.notFunction (some other.kind))

/-- Applies a value when at most the given number of calls nest. -/
def attempt (host : Host) : Nat → TrialCall
  | 0 => host.attemptWith none
  | n + 1 => host.attemptWith (some (host.attempt n))

end Host
end MonkeyLang
