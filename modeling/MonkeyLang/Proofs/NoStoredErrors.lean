import MonkeyLang.Proofs.LevelRuns

/-!
# Errors are never kept

An error is a value, and nothing in the type of values keeps it from being bound to a
name, put into an array or handed on by a return statement.  Evaluation does: whatever
would use an error has it for its own result.  So in all that an interpreter keeps there
is no error, at any depth, and what an evaluation ends in is an error as a whole or holds
none.

A value that is like itself in a manner without errors holds none, so interpreters that
hold no error are those that are level with themselves under the leeway `spotless`.  One
evaluation keeps them so by `Interpreter.Level.evalIn`, and `Interpreter.Reached` collects
what can be made of a new interpreter by many.
-/

namespace MonkeyLang

/-- Given arguments without errors, the function makes an error or a value without
errors. -/
def Native.Tidy (f : Native) : Prop :=
  ∀ arguments, (∀ v ∈ arguments, v.errors = []) → ∀ effects,
    (f arguments effects).1.isError = true ∨ (f arguments effects).1.errors = []

namespace Interpreter

/-- Nothing bound in a frame holds an error, and the functions supplied from outside put
no error into a value. -/
structure Spotless (ip : Interpreter) : Prop where
  tidy : ∀ f ∈ ip.host.supplied, f.Tidy
  bound : ∀ (id : FrameId) (frame : Frame), ip.state.frames[id]? = some frame →
    ∀ binding ∈ frame.bindings, binding.2.errors = []

/-- One evaluation, in the global frame, in a fresh frame inside it, or of a program that
was read in any frame. -/
inductive Evaluates (ip : Interpreter) (value : Value) (after : Interpreter) : Prop
  | persistent (budget : Nat) (source : Text)
      (h : ip.interpret budget source = .ok (some (value, after)))
  | apart (budget : Nat) (source : Text)
      (h : ip.interpretApart budget source = .ok (some (value, after)))
  | program (budget : Nat) (source : Text) (program : Program) (frame : FrameId)
      (hparse : parse? source = .ok program)
      (h : ip.evalIn budget program frame = some (value, after))

/-- What a new interpreter can become: tidy functions may be supplied to it, frames may be
made, and any number of evaluations may end. -/
inductive Reached : Interpreter → Prop
  | new (limit : Nat) : Reached (new limit)
  | register {ip : Interpreter} (h : Reached ip) (name : Text) {f : Native} (hf : f.Tidy) :
      Reached (ip.register name f)
  | addFrame {ip : Interpreter} (h : Reached ip) (outer : Option FrameId) :
      Reached (ip.addFrame outer).2
  | evaluation {ip after : Interpreter} {value : Value} (h : Reached ip)
      (hvalue : ip.Evaluates value after) : Reached after

end Interpreter

/-! ## Level with itself -/

/-- Nothing differs, and no error stands in a value. -/
def spotless : Leeway := ⟨.same, fun _ => False, fun _ => True, fun _ => True⟩

theorem spotless_exact : spotless.manner.Exact := by
  rintro ⟨parameters, body, frame⟩ ⟨parameters', body', frame'⟩ ⟨hnames, hbody, hframe⟩
  cases hnames.eq
  cases hbody.eq
  cases hframe
  rfl

theorem spotless_reflexive : spotless.manner.Reflexive where
  closure c := ⟨copyNames_refl c.parameters, c.body.copy_refl, rfl⟩
  returned := trivial
  builtin _ := trivial

theorem spotless_shows : spotless.manner.Shows := by
  intro c c' h
  cases spotless_exact c c' h
  exact ⟨rfl, rfl⟩

/-- A value without errors is like itself. -/
theorem Value.spotless_of_errors {v : Value} (h : v.errors = []) : v.Like spotless.manner v := by
  apply v.like_self spotless_reflexive
  intro cause hcause
  rw [h] at hcause
  cases hcause

theorem Value.Like.errors_eq {v v' : Value} (h : v.Like spotless.manner v') : v.errors = [] :=
  List.eq_nil_iff_forall_not_mem.2 h.error_of_mem

theorem AllLike.errors_eq {list list' : List Value} (h : AllLike spotless.manner list list') :
    ∀ v ∈ list, v.errors = [] := by
  match h with
  | .nil =>
      intro v hv
      cases hv
  | .cons h hrest =>
      rw [List.forall_mem_cons]
      exact ⟨h.errors_eq, hrest.errors_eq⟩

theorem BindingsLike.errors_eq {list list' : List (Text × Value)}
    (h : BindingsLike spotless.manner list list') :
    ∀ binding ∈ list, binding.2.errors = [] := by
  induction h with
  | nil =>
      intro binding hbinding
      cases hbinding
  | cons h _ ih =>
      rw [List.forall_mem_cons]
      exact ⟨h.errors_eq, ih⟩

/-- A tidy function treats arguments without errors alike. -/
theorem Native.Tidy.alike {f : Native} (hf : f.Tidy) {arguments arguments' : List Value}
    (h : AllLike spotless.manner arguments arguments') :
    (f arguments).Alike spotless.manner (f arguments') := by
  intro effects
  rw [h.eq spotless_exact]
  refine ⟨?_, rfl⟩
  rcases hf arguments h.errors_eq effects with herror | hnone
  · cases hvalue : (f arguments effects).1 with
    | error cause => exact Value.Given.error cause
    | _ => simp [hvalue, Value.isError] at herror
  · exact (Value.spotless_of_errors hnone).given

theorem spotless_allows {host : Host} (h : ∀ f ∈ host.supplied, f.Tidy) :
    spotless.Allows host host where
  name ht := congrArg Token.literal (Eq.symm ht)
  mark ht := congrArg Token.literal (Eq.symm ht)
  limit := rfl
  native := by
    intro code arguments arguments' _ harguments
    apply Host.native_alike spotless_shows harguments
    intro f hf
    exact (h f hf).alike harguments

namespace Interpreter

variable {ip after : Interpreter} {value : Value}

/-- An interpreter without errors is level with itself. -/
theorem Spotless.level (h : ip.Spotless) : ip.Level spotless ip where
  host := spotless_allows h.tidy
  state := by
    refine ⟨⟨rfl, ?_⟩, rfl, rfl⟩
    intro id f f' hf hf'
    cases hf.symm.trans hf'
    apply Frame.level_of_bindings (spotless_allows h.tidy).name rfl
    apply bindingsLike_self
    intro binding hbinding
    exact Value.spotless_of_errors (h.bound id f hf binding hbinding)

/-! ## What one step keeps -/

/-- An evaluation leaves no error behind, and ends in an error as a whole or in a value
without errors. -/
theorem Spotless.evalIn (h : ip.Spotless) {budget : Nat} {program : Program} {frame : FrameId}
    (hrun : ip.evalIn budget program frame = some (value, after)) :
    after.Spotless ∧ ((∃ cause, value = .error cause) ∨ value.errors = []) := by
  have hsame : after.host = ip.host := host_of_runWith hrun
  rcases h.level.evalIn budget frame (copyStatements_refl program.statements) with
    ⟨hnone, _⟩ | ⟨v, v', mid, mid', hmid, hmid', hvalue, hlevel⟩
  · rw [hnone] at hrun
    cases hrun
  · rw [hrun] at hmid hmid'
    cases hmid
    cases hmid'
    refine ⟨⟨hsame ▸ h.tidy, ?_⟩, ?_⟩
    · intro id f hf
      exact ((hlevel.frames.frame hf hf).listed trivial).errors_eq
    · rcases hvalue with hlike | ⟨cause, hcause, _⟩
      · exact Or.inr hlike.errors_eq
      · exact Or.inl ⟨cause, hcause⟩

theorem spotless_new (limit : Nat) : (new limit).Spotless where
  tidy := by
    intro f hf
    cases hf
  bound := by
    intro id frame hframe binding hbinding
    obtain ⟨hid, hget⟩ := Array.getElem?_eq_some_iff.1 hframe
    match id, hid, hget with
    | 0, _, hget =>
        cases hget
        obtain ⟨f, _, rfl⟩ := List.mem_map.1 hbinding
        rfl
    | 1, _, hget =>
        cases hget
        cases hbinding
    | _ + 2, hid, _ => exact absurd hid (by simp [new, initialFrames])

/-- Supplying a tidy function binds no error. -/
theorem Spotless.register (h : ip.Spotless) (name : Text) {f : Native} (hf : f.Tidy) :
    (ip.register name f).Spotless where
  tidy := by
    intro g hg
    rcases List.mem_append.1 hg with hold | hnew
    · exact h.tidy g hold
    · rw [List.mem_singleton.1 hnew]
      exact hf
  bound := by
    have hbuiltin : Value.Like spotless.manner
        (.builtin name (.supplied ip.host.supplied.length)) _ := .builtin trivial
    have hlevel := h.level.frames.bind (spotless_allows h.tidy).name Frames.core name hbuiltin
    intro id frame hframe
    exact ((hlevel.frame hframe hframe).listed trivial).errors_eq

theorem Spotless.addFrame (h : ip.Spotless) (outer : Option FrameId) :
    (ip.addFrame outer).2.Spotless where
  tidy := h.tidy
  bound := by
    intro id frame hframe
    simp only [Interpreter.addFrame, Array.getElem?_push] at hframe
    split at hframe
    · cases hframe
      intro binding hbinding
      cases hbinding
    · exact h.bound id frame hframe

/-- Every way to evaluate comes down to evaluating a program in a frame. -/
theorem Spotless.evaluation (h : ip.Spotless) (hvalue : ip.Evaluates value after) :
    after.Spotless ∧ ((∃ cause, value = .error cause) ∨ value.errors = []) := by
  cases hvalue with
  | persistent budget source hvalue =>
      obtain ⟨program, _, hrun⟩ := interpret_eq_some hvalue
      exact h.evalIn hrun
  | apart budget source hvalue =>
      obtain ⟨program, _, hrun⟩ := interpretApart_eq_some hvalue
      exact (h.addFrame _).evalIn hrun
  | program budget source program frame _ hrun => exact h.evalIn hrun

/-- However often it is used, an interpreter keeps no error. -/
theorem Reached.spotless {ip : Interpreter} (h : ip.Reached) : ip.Spotless := by
  induction h with
  | new limit => exact spotless_new limit
  | register _ name hf ih => exact ih.register name hf
  | addFrame _ outer ih => exact ih.addFrame outer
  | evaluation _ hvalue ih => exact (ih.evaluation hvalue).1

end Interpreter

/-- **Errors never become data.**  In all that a new interpreter can become by evaluations,
no frame binds a value with an error in it, at any depth; and every evaluation ends in an
error as a whole, or in a value with no error in it. -/
theorem errors_are_never_kept (ip : Interpreter) (h : ip.Reached) :
    (∀ (id : FrameId) (frame : Frame), ip.state.frames[id]? = some frame →
      ∀ binding ∈ frame.bindings, binding.2.errors = []) ∧
    ∀ value after, ip.Evaluates value after →
      (∃ cause, value = .error cause) ∨ value.errors = [] := by
  refine ⟨h.spotless.bound, ?_⟩
  intro value after hvalue
  exact (h.spotless.evaluation hvalue).2

/-- A function that always fails. -/
def refusal : Native := fun _ => pure (.error (.custom "refused"))

theorem refusal_tidy : refusal.Tidy := fun _ _ _ => Or.inl rfl

/-- Errors where an element, an argument and a return value are wanted. -/
def spoiledSource : Text :=
  "let f = fn(x) \x7b return [x, refuse(x)]; \x7d; let kept = [1]; let spoiled = [f(kept)]; 2"

theorem errors_are_never_kept_after_refusal :
    let ip := (Interpreter.new 9).register "refuse" refusal
    refusal.Tidy ∧ ∃ value after, ip.Evaluates value after ∧ value.isError = true ∧
      (after.lookup Frames.global "kept").isSome ∧
      (after.lookup Frames.global "spoiled").isNone ∧
      (∀ (id : FrameId) (frame : Frame), after.state.frames[id]? = some frame →
        ∀ binding ∈ frame.bindings, binding.2.errors = []) ∧
      ∀ other last, after.Evaluates other last →
        (∃ cause, other = .error cause) ∨ other.errors = [] := by
  intro ip
  have hchecked : ((ip.interpret 0 spoiledSource).toOption.join.any fun out =>
      out.1.isError && (out.2.lookup Frames.global "kept").isSome &&
        (out.2.lookup Frames.global "spoiled").isNone) = true := by decide +kernel
  rcases hrun : ip.interpret 0 spoiledSource with errors | _ | ⟨value, after⟩
  · simp [hrun, Except.toOption] at hchecked
  · simp [hrun, Except.toOption] at hchecked
  · simp only [hrun, Except.toOption, Option.join_some, Option.any_some,
      Bool.and_eq_true] at hchecked
    obtain ⟨⟨herror, hkept⟩, hspoiled⟩ := hchecked
    have hreached : ip.Reached := (Interpreter.Reached.new 9).register _ refusal_tidy
    have hvalue : ip.Evaluates value after := .persistent 0 spoiledSource hrun
    exact ⟨refusal_tidy, value, after, hvalue, herror, hkept, hspoiled,
      errors_are_never_kept after (hreached.evaluation hvalue)⟩

end MonkeyLang
