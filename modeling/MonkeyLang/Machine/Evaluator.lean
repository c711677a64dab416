import MonkeyLang.Machine.Builtin

/-!
# Evaluation

Evaluation follows the tree of a program from left to right.  An error found on
the way is the result of everything around it, and nothing is evaluated after
it.  A value that leaves a function passes through the blocks around it up to
the call, which hands on what it holds.

How a call is made is a parameter of evaluation, so that each function here is a
recursion on the tree alone.  `Host.call` ties the knot by recursion on the
number of calls that may still nest.
-/

namespace MonkeyLang

/-- How a value is applied to arguments. -/
abbrev Call := Value → List Value → Run Value

/-- The value ends the statements it is found in. -/
def Value.stops : Value → Bool
  | .returned .. | .error _ => true
  | _ => false

mutual

/-- Evaluates an expression in a frame. -/
def Expr.eval (call : Call) (frame : FrameId) : Expr → Run Value
  | .ident t => Run.lookup frame t.literal
  | .int _ value => pure (.integer value)
  | .string t => pure (.string t.literal)
  | .bool _ value => pure (.boolean value)
  | .unary t operand =>
    Run.onValue (operand.eval call frame) fun value => pure (Value.unary t.literal value)
  | .binary t left right =>
    Run.onValue (left.eval call frame) fun a =>
      Run.onValue (right.eval call frame) fun b => pure (Value.binary t.literal a b)
  | .cond _ test consequence alternative =>
    Run.onValue (test.eval call frame) fun value =>
      if value.isTruthy then consequence.eval call frame
      else
        match alternative with
        | some block => block.eval call frame
        | none => pure .null
  | .function _ parameters body =>
    Run.lift do return .function (← Effect.fresh) parameters body frame
  | .call _ callee arguments =>
    Run.onValue (callee.eval call frame) fun f =>
      Run.onValues (evalAll call frame arguments []) fun values => call f values
  | .array _ elements =>
    Run.onValues (evalAll call frame elements []) fun values =>
      Run.lift (Effect.newArray values)
  | .index _ collection key =>
    Run.onValue (collection.eval call frame) fun a =>
      Run.onValue (key.eval call frame) fun b => pure (Value.index a b)
  | .hash _ pairs => evalPairs call frame pairs .empty

/-- Evaluates expressions from left to right, behind the values already there.  At the
first error the list of that error alone takes the place of all values. -/
def evalAll (call : Call) (frame : FrameId) : List Expr → List Value → Run (List Value)
  | [], values => pure values
  | e :: rest, values => do
    let value ← e.eval call frame
    if value.isError then pure [value] else evalAll call frame rest (values ++ [value])

/-- Evaluates the entries of a hash literal and makes the hash.  A key is checked
before its value is evaluated. -/
def evalPairs (call : Call) (frame : FrameId) :
    List (Expr × Expr) → Hash Value → Run Value
  | [], hash => Run.lift (Effect.newHash hash.table)
  | (key, value) :: rest, hash =>
    Run.onValue (key.eval call frame) fun k =>
      match k.key? with
      | none => Run.error (.unusableKey k.kind)
      | some found =>
        Run.onValue (value.eval call frame) fun v =>
          evalPairs call frame rest (hash.set found v)

/-- Evaluates a statement in a frame. -/
def Stmt.eval (call : Call) (frame : FrameId) : Stmt → Run Value
  | .bind _ name value =>
    Run.onValue (value.eval call frame) fun v => do
      Run.bindName frame name.literal v
      pure .null
  | .leave _ none => Run.lift (Effect.newReturned .null)
  | .leave _ (some value) =>
    Run.onValue (value.eval call frame) fun v => Run.lift (Effect.newReturned v)
  | .expr _ value => value.eval call frame

/-- Evaluates statements until one of them stops the rest.  The result is the
last value, at first the given one. -/
def evalStatements (call : Call) (frame : FrameId) : List Stmt → Value → Run Value
  | [], last => pure last
  | s :: rest, _ => do
    let value ← s.eval call frame
    if value.stops then pure value else evalStatements call frame rest value

/-- Evaluates a block in a frame.  The block has no frame of its own. -/
def Block.eval (call : Call) (frame : FrameId) : Block → Run Value
  | .mk _ statements => evalStatements call frame statements .null

end

/-- Evaluates a program in a frame.  A value that leaves the program is handed
on as what it holds. -/
def Program.eval (call : Call) (frame : FrameId) (program : Program) : Run Value := do
  let value ← evalStatements call frame program.statements .null
  return value.landed

/-- What an interpreter is given and keeps: the limit on nested calls, zero for
none, and the functions supplied from outside. -/
structure Host where
  limit : Nat
  supplied : List Native

namespace Host

/-- The default limit on nested calls. -/
def defaultLimit : Nat := 10000

/-- What a built-in function runs. -/
def native (host : Host) : BuiltinCode → Native
  | .core f => f.run
  | .supplied index => host.supplied.getD index fun _ => pure .null

/-- A call at this depth is one too many. -/
def forbids (host : Host) (depth : Nat) : Bool :=
  0 < host.limit && host.limit ≤ depth

/-- Applies a value, given how the calls inside are made, if any may be made. -/
def callWith (host : Host) (inner : Option Call) : Call := fun callee arguments =>
  match callee with
  | .function _ parameters body frame =>
    if arguments.length ≠ parameters.length then
      Run.error (.argumentCount arguments.length parameters.length)
    else do
      let depth ← Run.depth
      if host.forbids depth then
        Run.error (.callDepth host.limit)
      else
        match inner with
        | none => Run.unfinished
        | some call => Run.deeper do
          let own ← Run.addFrame ((Frame.empty frame).setAll parameters arguments)
          let value ← body.eval call own
          return value.landed
  | .builtin _ code => Run.lift (host.native code arguments)
  | other => Run.error (.notFunction (some other.kind))

/-- Applies a value when at most the given number of calls nest. -/
def call (host : Host) : Nat → Call
  | 0 => host.callWith none
  | n + 1 => host.callWith (some (host.call n))

end Host
end MonkeyLang
