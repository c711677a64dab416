import MonkeyLang.Proofs.LocalRecovery
import MonkeyLang.Proofs.Places

/-!
# Splitting a program into units

Two sources may be evaluated in the global frame one after the other, or joined by a
newline and a semicolon and evaluated as one.  The semicolon keeps what is read of them
apart, and an evaluation leaves nothing behind but frames and effects, so the statements
of the second source find what they would find behind those of the first.

Joined, the tokens of the second source stand further on, and that is all evaluation is told
of the joint.  The language never looks at places, but a function supplied from outside can:
it may read them off the functions it is given (`place_reader_tells_units_apart`).  Without
such a function it makes a difference only where a statement of the first source is an error
or leaves the program: then the statements behind it are not evaluated, and those of the
second source are among them if the two are one.
-/

namespace MonkeyLang

theorem followed_depth : Followed fun s s' : State => s'.depth = s.depth where
  refl _ := rfl
  trans h h' := h'.trans h
  effects _ _ := rfl

/-- Evaluation ends at the depth it began at, if calls do. -/
theorem Node.eval_depth {call : Call}
    (hcall : ∀ f arguments, (call f arguments).Obeys fun s s' => s'.depth = s.depth)
    (frame : FrameId) (node : Node) :
    (node.eval call frame).Obeys fun s s' => s'.depth = s.depth := by
  apply Node.obeys
  refine ⟨followed_depth, hcall, ?_⟩
  intro name value s v s' h
  cases h
  rfl

theorem Host.callWith_depth (host : Host) {inner : Option Call}
    (h : ∀ call ∈ inner, ∀ f arguments,
      (call f arguments).Obeys fun s s' => s'.depth = s.depth)
    (callee : Value) (arguments : List Value) :
    (host.callWith inner callee arguments).Obeys fun s s' => s'.depth = s.depth := by
  intro s value s' hrun
  rcases callWith_cases hrun with ⟨_, hdepth⟩ | hbody
  · exact hdepth
  · obtain ⟨call, hcall, _, _, body, _, result, t, _, heval, _, rfl⟩ := hbody
    have hinside := Node.eval_depth (h call hcall) s.frames.size (.block body) _ result t heval
    dsimp only at hinside ⊢
    omega

theorem Host.call_depth (host : Host) (n : Nat) (callee : Value) (arguments : List Value) :
    (host.call n callee arguments).Obeys fun s s' => s'.depth = s.depth := by
  induction n generalizing callee arguments with
  | zero =>
      apply host.callWith_depth
      intro call hcall
      cases hcall
  | succ n ih =>
      apply host.callWith_depth
      intro call hcall
      cases hcall
      exact ih

/-! ## Statements one after the other -/

namespace Interpreter

variable {ip after : Interpreter} {budget : Nat} {value : Value}

/-- The statements of a program, whose value is what it is worth outside. -/
theorem evalGlobal_eq (budget : Nat) (list : List Stmt) (ip : Interpreter) :
    ip.evalGlobal budget ⟨list⟩ =
      (ip.runWith (evalStatements (ip.call budget) Frames.global list .null)).map
        (Prod.map Value.landed id) := by
  unfold evalGlobal evalIn runWith Program.eval
  cases hrun : evalStatements (ip.call budget) Frames.global list .null ip.state with
  | none =>
      rw [Run.bind_run_of_none hrun]
      rfl
  | some out =>
      obtain ⟨value, state⟩ := out
      rw [Run.bind_run_of_some hrun]
      rfl

theorem interpret_of_ok {source : Text} {program : Program} (h : parse? source = .ok program)
    (budget : Nat) (ip : Interpreter) :
    ip.interpret budget source = .ok (ip.evalGlobal budget program) := by
  rw [interpret, h]
  rfl

end Interpreter

end MonkeyLang
