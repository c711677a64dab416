import MonkeyLang.Machine.Evaluator
import MonkeyLang.Parse.Grammar

/-!
# Interpreters

An interpreter has a frame with the built-in functions and, inside it, a global
frame whose bindings stay.  Programs are evaluated in the global frame, in a
fresh frame inside it, or in any frame made by the user of the interpreter.

Nothing bounds an evaluation when calls may nest without limit, so every
evaluation is given a budget: the number of nested calls it may follow then.
With a limit the budget is not used, and every evaluation ends.
-/

namespace MonkeyLang

/-- An interpreter: what it is given, and its state. -/
structure Interpreter where
  host : Host
  state : State

namespace Interpreter

/-- The frames of a new interpreter: the built-in functions, and an empty global
frame inside. -/
def initialFrames : Frames :=
  #[⟨none, CoreFunction.all.map fun f => (f.name, f.value)⟩, Frame.empty (some Frames.core)]

/-- A new interpreter with the given limit on nested calls, zero for none. -/
def new (limit : Nat) : Interpreter :=
  ⟨⟨limit, []⟩, ⟨initialFrames, ⟨0, []⟩, 0⟩⟩

/-- The number of nested calls an evaluation may follow. -/
def reach (ip : Interpreter) (budget : Nat) : Nat :=
  if ip.host.limit = 0 then budget else ip.host.limit - ip.state.depth

/-- How calls are made. -/
def call (ip : Interpreter) (budget : Nat) : Call :=
  ip.host.call (ip.reach budget)

/-- The result of a run and the interpreter after it. -/
def runWith {α : Type} (ip : Interpreter) (run : Run α) : Option (α × Interpreter) :=
  (run ip.state).map fun (a, state) => (a, { ip with state })

/-- Runs what sees no frame. -/
def runEffect {α : Type} (ip : Interpreter) (m : Effect α) : α × Interpreter :=
  let (a, effects) := m ip.state.effects
  (a, { ip with state := { ip.state with effects } })

/-- Evaluates a program in a frame. -/
def evalIn (budget : Nat) (program : Program) (frame : FrameId) (ip : Interpreter) :
    Option (Value × Interpreter) :=
  ip.runWith (program.eval (ip.call budget) frame)

/-- Applies a value to arguments.  No value at all is no function. -/
def apply (budget : Nat) (callee : Option Value) (arguments : List Value)
    (ip : Interpreter) : Option (Value × Interpreter) :=
  match callee with
  | none => some (.error (.notFunction none), ip)
  | some f => ip.runWith (ip.call budget f arguments)

/-- Makes a frame, inside another one or by itself. -/
def addFrame (outer : Option FrameId) (ip : Interpreter) : FrameId × Interpreter :=
  (ip.state.frames.size,
    { ip with state := { ip.state with frames := ip.state.frames.push (Frame.empty outer) } })

/-- Evaluates a program in the global frame, where its bindings stay. -/
def evalGlobal (budget : Nat) (program : Program) (ip : Interpreter) :
    Option (Value × Interpreter) :=
  ip.evalIn budget program Frames.global

/-- Evaluates a program in a fresh frame inside the global one. -/
def evalApart (budget : Nat) (program : Program) (ip : Interpreter) :
    Option (Value × Interpreter) :=
  let (frame, ip) := ip.addFrame (some Frames.global)
  ip.evalIn budget program frame

/-- Evaluates a source in the global frame, if it has no syntax errors. -/
def interpret (budget : Nat) (source : Text) (ip : Interpreter) :
    Except (List SyntaxError) (Option (Value × Interpreter)) :=
  (parse? source).map fun program => ip.evalGlobal budget program

/-- Evaluates a source in a fresh frame inside the global one, if it has no
syntax errors. -/
def interpretApart (budget : Nat) (source : Text) (ip : Interpreter) :
    Except (List SyntaxError) (Option (Value × Interpreter)) :=
  (parse? source).map fun program => ip.evalApart budget program

/-- Binds a name in a frame. -/
def bind (frame : FrameId) (name : Text) (value : Value) (ip : Interpreter) : Interpreter :=
  { ip with state := { ip.state with frames := ip.state.frames.bind frame name value } }

/-- Binds a function supplied from outside among the built-in ones. -/
def register (name : Text) (f : Native) (ip : Interpreter) : Interpreter :=
  let code := BuiltinCode.supplied ip.host.supplied.length
  { ip with host := { ip.host with supplied := ip.host.supplied ++ [f] } }.bind
    Frames.core name (.builtin name code)

/-- The value of a name in a frame or one of the frames around it. -/
def lookup (frame : FrameId) (name : Text) (ip : Interpreter) : Option Value :=
  ip.state.frames.lookup frame name

/-- The bindings of a frame, in the order of the names. -/
def bindings (frame : FrameId) (ip : Interpreter) : List (Text × Value) :=
  match ip.state.frames[frame]? with
  | none => []
  | some f => f.bindings.mergeSort fun a b => Text.before a.1 b.1

/-- The names bound in a frame, in order. -/
def names (frame : FrameId) (ip : Interpreter) : List Text :=
  (ip.bindings frame).map Prod.fst

/-- The frame around a frame. -/
def outer (frame : FrameId) (ip : Interpreter) : Option FrameId :=
  (ip.state.frames[frame]?).bind Frame.outer

/-- Everything printed so far. -/
def output (ip : Interpreter) : Text :=
  ip.state.effects.printed.reverse.flatten

/-- The interpreter with nothing printed yet. -/
def withoutOutput (ip : Interpreter) : Interpreter :=
  { ip with state := { ip.state with effects := { ip.state.effects with printed := [] } } }

end Interpreter
end MonkeyLang
