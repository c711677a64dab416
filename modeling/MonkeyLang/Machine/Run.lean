import MonkeyLang.Value.Basic

/-!
# Frames and runs

The frames that bind names, and what evaluation is made of: computations that read and
change frames, and computations that see none.
-/

namespace MonkeyLang

/-!
## Frames

A frame binds names to values and may lie inside another frame.  Frames are kept
in the order in which they were made, and one is known by its number; a frame
lies inside a frame made before it, so a name is looked up through at most as
many frames as the number says.
-/

/-- Names with their values, and the frame around them. -/
structure Frame where
  outer : Option FrameId
  bindings : List (Text × Value)

namespace Frame

/-- A frame without bindings. -/
def empty (outer : Option FrameId) : Frame := ⟨outer, []⟩

/-- The value bound to a name in this very frame. -/
def get? (f : Frame) (name : Text) : Option Value :=
  f.bindings.lookup name

/-- Bindings with one name bound anew. -/
def rebind (name : Text) (value : Value) : List (Text × Value) → List (Text × Value)
  | [] => [(name, value)]
  | (bound, old) :: rest =>
    if bound = name then (name, value) :: rest else (bound, old) :: rebind name value rest

/-- Binds a name, in place of what it was bound to before. -/
def set (f : Frame) (name : Text) (value : Value) : Frame :=
  { f with bindings := rebind name value f.bindings }

/-- Binds parameters to arguments, from left to right. -/
def setAll (f : Frame) : List Token → List Value → Frame
  | parameter :: parameters, argument :: arguments =>
    setAll (f.set parameter.literal argument) parameters arguments
  | _, _ => f

/-- The names bound in this very frame. -/
def names (f : Frame) : List Text :=
  f.bindings.map Prod.fst

end Frame

/-- All frames, by their numbers. -/
abbrev Frames := Array Frame

namespace Frames

/-- The frame of the built-in functions. -/
def core : FrameId := 0

/-- The frame of the bindings that stay. -/
def global : FrameId := 1

/-- The value of a name in a frame or one of the frames around it, through the
given number of frames. -/
def lookupWithin (frames : Frames) (name : Text) : Nat → FrameId → Option Value
  | 0, _ => none
  | n + 1, id =>
    match frames[id]? with
    | none => none
    | some frame =>
      match frame.get? name with
      | some value => some value
      | none =>
        match frame.outer with
        | none => none
        | some outer => lookupWithin frames name n outer

/-- The value of a name in a frame or one of the frames around it. -/
def lookup (frames : Frames) (id : FrameId) (name : Text) : Option Value :=
  frames.lookupWithin name (id + 1) id

/-- Binds a name in one frame. -/
def bind (frames : Frames) (id : FrameId) (name : Text) (value : Value) : Frames :=
  frames.modify id fun frame => frame.set name value

end Frames

/-!
## Runs

A run reads and changes the state of an interpreter: its frames, the depth of
calls, the stamps given out and the lines printed.  It ends in a value, unless
calls nest deeper than it may follow them; then it ends in nothing.
-/

/-- What a built-in function can change. -/
structure Effects where
  /-- The next stamp to give out. -/
  nextStamp : Stamp
  /-- What was printed, the latest piece first. -/
  printed : List Text

/-- Everything a run can change. -/
structure State where
  frames : Frames
  effects : Effects
  /-- The number of calls that have begun and not ended. -/
  depth : Nat

/-- A computation that makes values and prints, but sees no frame. -/
abbrev Effect (α : Type) := StateM Effects α

namespace Effect

/-- A stamp that was not given out before. -/
def fresh : Effect Stamp := fun e => (e.nextStamp, { e with nextStamp := e.nextStamp + 1 })

/-- Prints a text. -/
def print (text : Text) : Effect Unit := fun e => ((), { e with printed := text :: e.printed })

/-- A new array. -/
def newArray (elements : List Value) : Effect Value := do
  return .array (← fresh) elements

/-- A new hash. -/
def newHash (entries : Table Value) : Effect Value := do
  return .hash (← fresh) entries

/-- A value marked as leaving a function. -/
def newReturned (value : Value) : Effect Value := do
  return .returned (← fresh) value

end Effect

/-- A function made outside the language.  Errors are among its values. -/
abbrev Native := List Value → Effect Value

/-- A computation over the state that may end in nothing. -/
abbrev Run (α : Type) := StateT State Option α

namespace Run

variable {α : Type}

/-- Runs what sees no frame. -/
def lift (m : Effect α) : Run α := fun s =>
  let (a, effects) := m s.effects
  some (a, { s with effects })

/-- Fails with a runtime error, which is a value. -/
def error (cause : RuntimeError) : Run Value :=
  pure (.error cause)

/-- Goes on with a value that is no error; an error is the end. -/
@[inline]
def onValue (m : Run Value) (next : Value → Run Value) : Run Value := do
  match ← m with
  | .error cause => error cause
  | value => next value

/-- Goes on with values; an error that is the only one of them is the end. -/
@[inline]
def onValues (m : Run (List Value)) (next : List Value → Run Value) : Run Value := do
  match ← m with
  | [.error cause] => error cause
  | values => next values

/-- The value of a name: from the frame outwards, and after that from the frame
of the built-in functions, for frames that do not lie inside it. -/
def lookup (frame : FrameId) (name : Text) : Run Value := fun s =>
  let value :=
    match s.frames.lookup frame name with
    | some value => value
    | none =>
      match s.frames.lookup Frames.core name with
      | some value => value
      | none => .error (.unboundName name)
  some (value, s)

/-- Binds a name in a frame. -/
def bindName (frame : FrameId) (name : Text) (value : Value) : Run Unit := fun s =>
  some ((), { s with frames := s.frames.bind frame name value })

/-- Makes a frame and gives its number. -/
def addFrame (frame : Frame) : Run FrameId := fun s =>
  some (s.frames.size, { s with frames := s.frames.push frame })

/-- The number of calls that have begun and not ended. -/
def depth : Run Nat := fun s => some (s.depth, s)

/-- Runs one call deeper. -/
def deeper (m : Run α) : Run α := fun s =>
  match m { s with depth := s.depth + 1 } with
  | none => none
  | some (a, s') => some (a, { s' with depth := s'.depth - 1 })

/-- Ends in nothing. -/
def unfinished : Run α := fun _ => none

end Run
end MonkeyLang
