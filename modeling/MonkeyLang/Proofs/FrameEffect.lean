import MonkeyLang.Interpreter
import MonkeyLang.Proofs.RunInvariant

/-!
# What evaluation writes to

A function keeps the frame it was made in and may be called from anywhere, so
evaluation can reach any frame.  It reads them all but writes to one: `let` binds
in the frame evaluation is given.  A call gives the body a frame made for it, so
through calls no frame that existed before is ever written to.

The main statement, `eval_writes_own_frame`, says this of every node, and with it
of the ways an interpreter is used: evaluating a source apart or applying a value
changes no frame at all, and evaluating a source in the global frame changes no
other.
-/

namespace MonkeyLang

namespace Frame

/-- The frame lies where it did and still binds every name it bound. -/
structure Extends (before after : Frame) : Prop where
  outer : after.outer = before.outer
  bound : ∀ name, (before.get? name).isSome → (after.get? name).isSome

theorem Extends.refl (f : Frame) : f.Extends f := ⟨rfl, fun _ h => h⟩

theorem Extends.trans {f g k : Frame} (hfg : f.Extends g) (hgk : g.Extends k) : f.Extends k :=
  ⟨hgk.outer.trans hfg.outer, fun name h => hgk.bound name (hfg.bound name h)⟩

/-- Binding a name changes what this name means and no other. -/
theorem lookup_rebind (name other : Text) (value : Value) (bindings : List (Text × Value)) :
    (rebind name value bindings).lookup other =
      if other = name then some value else bindings.lookup other := by
  induction bindings with
  | nil =>
      by_cases hother : other = name
      · simp [rebind, hother]
      · simp [rebind, List.lookup_cons, beq_false_of_ne hother, hother]
  | cons binding rest ih =>
      obtain ⟨bound, old⟩ := binding
      by_cases hbound : bound = name
      · subst hbound
        by_cases hother : other = bound
        · simp [rebind, hother]
        · simp [rebind, List.lookup_cons, beq_false_of_ne hother, hother]
      · by_cases hother : other = bound
        · subst hother
          simp [rebind, hbound]
        · simp only [rebind, if_neg hbound, List.lookup_cons, beq_false_of_ne hother, ih]

/-- Rebinding a name leaves the other names bound. -/
theorem lookup_rebind_isSome (bindings : List (Text × Value)) (name : Text) (value : Value)
    (other : Text) (h : (bindings.lookup other).isSome) :
    ((rebind name value bindings).lookup other).isSome := by
  rw [lookup_rebind]
  split
  · rfl
  · exact h

/-- Binding a name unbinds none. -/
theorem extends_set (f : Frame) (name : Text) (value : Value) : f.Extends (f.set name value) :=
  ⟨rfl, fun other h => lookup_rebind_isSome f.bindings name value other h⟩

end Frame

namespace Frames

/-- Every frame there was is there unchanged. -/
structure Kept (before after : Frames) : Prop where
  size_le : before.size ≤ after.size
  same : ∀ id, id < before.size → after[id]? = before[id]?

/-- Every frame there was is there unchanged, but for one that may bind more
names, or other values. -/
structure KeptBut (frame : FrameId) (before after : Frames) : Prop where
  size_le : before.size ≤ after.size
  same : ∀ id, id < before.size → id ≠ frame → after[id]? = before[id]?
  own : ∀ f, before[frame]? = some f → ∃ g, after[frame]? = some g ∧ f.Extends g

/-- What changes no frame changes none but the given one. -/
theorem Kept.but {before after : Frames} (h : Kept before after) (frame : FrameId) :
    KeptBut frame before after := by
  refine ⟨h.size_le, fun id hid _ => h.same id hid, fun f hf => ?_⟩
  have hid : frame < before.size := (Array.getElem?_eq_some_iff.mp hf).1
  exact ⟨f, (h.same frame hid).trans hf, Frame.Extends.refl f⟩

theorem KeptBut.refl (frame : FrameId) (frames : Frames) : KeptBut frame frames frames :=
  ⟨Nat.le_refl _, fun _ _ _ => rfl, fun f hf => ⟨f, hf, Frame.Extends.refl f⟩⟩

/-- Two steps that write to one frame only. -/
theorem KeptBut.trans {frame : FrameId} {a b c : Frames} (hab : KeptBut frame a b)
    (hbc : KeptBut frame b c) : KeptBut frame a c where
  size_le := Nat.le_trans hab.size_le hbc.size_le
  same id hid hne := by
    have hb : id < b.size := Nat.lt_of_lt_of_le hid hab.size_le
    exact (hbc.same id hb hne).trans (hab.same id hid hne)
  own f hf := by
    obtain ⟨g, hg, hfg⟩ := hab.own f hf
    obtain ⟨k, hk, hgk⟩ := hbc.own g hg
    exact ⟨k, hk, hfg.trans hgk⟩

/-- Binding a name writes to its frame only. -/
theorem keptBut_bind (frames : Frames) (frame : FrameId) (name : Text) (value : Value) :
    KeptBut frame frames (frames.bind frame name value) := by
  refine ⟨by simp [Frames.bind], fun id _ hne => ?_, fun f hf => ?_⟩
  · simp [Frames.bind, Array.getElem?_modify, hne.symm]
  · refine ⟨f.set name value, ?_, f.extends_set name value⟩
    simp [Frames.bind, Array.getElem?_modify, hf]

/-- Writing to nothing but a frame just made changes no frame there was before. -/
theorem kept_of_push {frames after : Frames} {frame : Frame}
    (h : KeptBut frames.size (frames.push frame) after) : Kept frames after := by
  have hsize : frames.size + 1 ≤ after.size := by simpa using h.size_le
  refine ⟨by omega, fun id hid => ?_⟩
  have hpushed : (frames.push frame)[id]? = frames[id]? := by
    simp [Array.getElem?_push, Nat.ne_of_lt hid]
  rw [← hpushed]
  exact h.same id (by simp; omega) (Nat.ne_of_lt hid)

end Frames

/-- Writing to one frame only can be followed through many steps. -/
theorem followed_keptBut (frame : FrameId) :
    Followed fun s s' => Frames.KeptBut frame s.frames s'.frames where
  refl s := Frames.KeptBut.refl frame s.frames
  trans := Frames.KeptBut.trans
  effects s _ := Frames.KeptBut.refl frame s.frames

/-- If calls write to no frame that was there before, evaluation writes only to the
frame it is given. -/
theorem Node.eval_keptBut {call : Call}
    (hcall : ∀ f arguments, (call f arguments).Obeys fun s s' => Frames.Kept s.frames s'.frames)
    (frame : FrameId) (node : Node) :
    (node.eval call frame).Obeys fun s s' => Frames.KeptBut frame s.frames s'.frames := by
  have hmoves : Moves (fun s s' => Frames.KeptBut frame s.frames s'.frames) call frame := by
    refine ⟨followed_keptBut frame, fun f arguments s v s' h => ?_, fun name value s v s' h => ?_⟩
    · exact (hcall f arguments s v s' h).but frame
    · cases h
      exact Frames.keptBut_bind s.frames frame name value
  exact Node.obeys hmoves node

namespace Host

/-- A call writes to no frame that was there before, if the calls inside it do not. -/
theorem callWith_kept (host : Host) {inner : Option Call}
    (h : ∀ call ∈ inner, ∀ f arguments,
      (call f arguments).Obeys fun s s' => Frames.Kept s.frames s'.frames)
    (callee : Value) (arguments : List Value) :
    (host.callWith inner callee arguments).Obeys fun s s' => Frames.Kept s.frames s'.frames := by
  intro s value s' hrun
  rcases callWith_cases hrun with ⟨hframes, _⟩ | hbody
  · rw [hframes]
    exact ⟨Nat.le_refl _, fun _ _ => rfl⟩
  -- The body is given the frame just made, which is none that was there before.
  · obtain ⟨call, hcall, _, _, body, _, result, t, _, heval, _, rfl⟩ := hbody
    have hown := Node.eval_keptBut (h call hcall) s.frames.size (.block body) _ result t heval
    exact Frames.kept_of_push hown

/-- No call writes to a frame that was there before. -/
theorem call_kept (host : Host) (n : Nat) (callee : Value) (arguments : List Value) :
    (host.call n callee arguments).Obeys fun s s' => Frames.Kept s.frames s'.frames := by
  induction n generalizing callee arguments with
  | zero => exact host.callWith_kept (by simp) callee arguments
  | succ n ih =>
      refine host.callWith_kept (fun call hcall => ?_) callee arguments
      cases hcall
      exact ih

end Host

namespace Interpreter

variable {ip ip' : Interpreter} {budget : Nat} {value : Value}

/-- A run that ends gives the interpreter the state it ends in. -/
theorem runWith_eq_some {α : Type} {run : Run α} {a : α}
    (h : ip.runWith run = some (a, ip')) : run ip.state = some (a, ip'.state) := by
  obtain ⟨⟨b, s⟩, hrun, hout⟩ := Option.map_eq_some_iff.mp h
  cases hout
  exact hrun

/-- A run changes nothing but the state. -/
theorem host_of_runWith {α : Type} {run : Run α} {a : α}
    (h : ip.runWith run = some (a, ip')) : ip'.host = ip.host := by
  obtain ⟨_, _, hout⟩ := Option.map_eq_some_iff.mp h
  cases hout
  rfl

/-- A source with a value is a program with that value in the global frame. -/
theorem interpret_eq_some {source : Text}
    (h : ip.interpret budget source = .ok (some (value, ip'))) :
    ∃ program, parse? source = .ok program ∧
      ip.evalGlobal budget program = some (value, ip') := by
  unfold interpret at h
  cases hparse : parse? source with
  | error errors => simp [hparse, Except.map] at h
  | ok program =>
      rw [hparse] at h
      exact ⟨program, rfl, Except.ok.inj h⟩

/-- A source with a value is a program with that value in a fresh frame. -/
theorem interpretApart_eq_some {source : Text}
    (h : ip.interpretApart budget source = .ok (some (value, ip'))) :
    ∃ program, parse? source = .ok program ∧
      ip.evalApart budget program = some (value, ip') := by
  unfold interpretApart at h
  cases hparse : parse? source with
  | error errors => simp [hparse, Except.map] at h
  | ok program =>
      rw [hparse] at h
      exact ⟨program, rfl, Except.ok.inj h⟩

/-- Evaluating a program in a frame writes to that frame only. -/
theorem evalIn_keptBut {program : Program} {frame : FrameId}
    (h : ip.evalIn budget program frame = some (value, ip')) :
    Frames.KeptBut frame ip.state.frames ip'.state.frames :=
  Node.eval_keptBut (ip.host.call_kept _) frame (.program program) _ value _ (runWith_eq_some h)

/-- What an answer can be checked for is true of a value the evaluation ends in. -/
theorem exists_of_any {answer : Except (List SyntaxError) (Option (Value × Interpreter))}
    {p : Value → Bool} (h : (answer.toOption.join.any fun out => p out.1) = true) :
    ∃ value ip', answer = .ok (some (value, ip')) ∧ p value = true := by
  rcases answer with errors | _ | ⟨value, ip'⟩
  · simp [Except.toOption] at h
  · simp [Except.toOption] at h
  · exact ⟨value, ip', rfl, by simpa [Except.toOption] using h⟩

/-- Evaluating a source in a fresh frame changes no frame. -/
theorem interpretApart_kept {source : Text}
    (h : ip.interpretApart budget source = .ok (some (value, ip'))) :
    Frames.Kept ip.state.frames ip'.state.frames := by
  obtain ⟨program, _, hrun⟩ := interpretApart_eq_some h
  exact Frames.kept_of_push (evalIn_keptBut hrun)

/-- Evaluating a source in the global frame changes no other frame. -/
theorem interpret_keptBut {source : Text}
    (h : ip.interpret budget source = .ok (some (value, ip'))) :
    Frames.KeptBut Frames.global ip.state.frames ip'.state.frames := by
  obtain ⟨program, _, hrun⟩ := interpret_eq_some h
  exact evalIn_keptBut hrun

/-- Applying a value changes no frame. -/
theorem apply_kept {callee : Option Value} {arguments : List Value}
    (h : ip.apply budget callee arguments = some (value, ip')) :
    Frames.Kept ip.state.frames ip'.state.frames := by
  cases callee with
  | none =>
      cases h
      exact ⟨Nat.le_refl _, fun _ _ => rfl⟩
  | some f => exact ip.host.call_kept _ f arguments _ value _ (runWith_eq_some h)

end Interpreter

/-- **Evaluation writes only to the frame it is given and to frames it makes.**
Whatever a node evaluates to, an error included, every frame there was before is
there unchanged, but for the given one; and that one lies where it did and still
binds every name it bound.  So evaluating a source in a fresh frame and applying a
value change no frame, the global one and that of the built-in functions among
them, and evaluating a source in the global frame changes no other frame. -/
theorem eval_writes_own_frame :
    (∀ (host : Host) (n : Nat) (node : Node) (frame : FrameId) (s s' : State) (value : Value),
      node.eval (host.call n) frame s = some (value, s') →
        Frames.KeptBut frame s.frames s'.frames) ∧
    ∀ (ip ip' : Interpreter) (budget : Nat) (value : Value),
      (∀ source, ip.interpretApart budget source = .ok (some (value, ip')) →
        Frames.Kept ip.state.frames ip'.state.frames) ∧
      (∀ callee arguments, ip.apply budget callee arguments = some (value, ip') →
        Frames.Kept ip.state.frames ip'.state.frames) ∧
      ∀ source, ip.interpret budget source = .ok (some (value, ip')) →
        Frames.KeptBut Frames.global ip.state.frames ip'.state.frames := by
  refine ⟨fun host n node frame s s' value h => ?_, fun ip ip' budget value => ⟨?_, ?_, ?_⟩⟩
  · exact Node.eval_keptBut (host.call_kept n) frame node s value s' h
  · exact fun source h => Interpreter.interpretApart_kept h
  · exact fun callee arguments h => Interpreter.apply_kept h
  · exact fun source h => Interpreter.interpret_keptBut h

/-- A source that ends in an error inside a call, after binding names in both
frames. -/
def lateMistake : Text := "let f = fn(x) \x7b let y = x; y + true \x7d; f(1)"

/-- A function without parameters that does nothing. -/
def emptyFunction : Value :=
  .function 0 [] (.mk ⟨.lbrace, "\x7b", .start⟩ []) Frames.global

theorem eval_writes_own_frame_on_mistake :
    (∃ value ip', (Interpreter.new 10).interpretApart 0 lateMistake = .ok (some (value, ip')) ∧
      value.isError = true ∧
      Frames.Kept (Interpreter.new 10).state.frames ip'.state.frames) ∧
    (∃ value ip', (Interpreter.new 10).interpret 0 lateMistake = .ok (some (value, ip')) ∧
      value.isError = true ∧
      Frames.KeptBut Frames.global (Interpreter.new 10).state.frames ip'.state.frames) ∧
    (∃ ip', (Interpreter.new 10).apply 0 (some emptyFunction) [] = some (.null, ip') ∧
      ip'.state.frames.size = 3 ∧
      Frames.Kept (Interpreter.new 10).state.frames ip'.state.frames) ∧
    ∃ s', (Node.program ⟨[]⟩).eval ((Interpreter.new 10).call 0) Frames.global
        (Interpreter.new 10).state = some (.null, s') ∧
      Frames.KeptBut Frames.global (Interpreter.new 10).state.frames s'.frames := by
  have hapart : ∃ value ip', (Interpreter.new 10).interpretApart 0 lateMistake =
      .ok (some (value, ip')) ∧ value.isError = true :=
    Interpreter.exists_of_any (by decide +kernel)
  have hglobal : ∃ value ip', (Interpreter.new 10).interpret 0 lateMistake =
      .ok (some (value, ip')) ∧ value.isError = true :=
    Interpreter.exists_of_any (by decide +kernel)
  have happly : ∃ ip', (Interpreter.new 10).apply 0 (some emptyFunction) [] =
      some (.null, ip') ∧ ip'.state.frames.size = 3 := ⟨_, rfl, rfl⟩
  have hnode : (Node.program ⟨[]⟩).eval ((Interpreter.new 10).call 0) Frames.global
      (Interpreter.new 10).state = some (.null, (Interpreter.new 10).state) := rfl
  obtain ⟨v, ip, hv, hmistake⟩ := hapart
  obtain ⟨w, ip', hw, hmistake'⟩ := hglobal
  obtain ⟨made, hcall, hsize⟩ := happly
  refine ⟨⟨v, ip, hv, hmistake, ?_⟩, ⟨w, ip', hw, hmistake', ?_⟩, ⟨made, hcall, hsize, ?_⟩,
    ⟨_, hnode, ?_⟩⟩
  · exact (eval_writes_own_frame.2 _ ip 0 v).1 _ hv
  · exact (eval_writes_own_frame.2 _ ip' 0 w).2.2 _ hw
  · exact (eval_writes_own_frame.2 _ made 0 .null).2.1 _ _ hcall
  · exact eval_writes_own_frame.1 _ _ _ _ _ _ _ hnode

end MonkeyLang
