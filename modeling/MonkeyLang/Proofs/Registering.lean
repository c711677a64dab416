import MonkeyLang.Proofs.LevelRuns

/-!
# Supplying a function that is not used

A function supplied from outside is bound in the frame of the built-in functions, where
every chain of frames ends and where a name is looked for at last.  A program in which its
name does not occur cannot come upon it: all functions made on the way have bodies from
that program, so no name that is ever looked up is the new one.

The two evaluations are level under the leeway `unaware`, which leaves the frame of the
built-in functions open but for the names that programs are written with.  All other
frames are the same, and so is the value.
-/

namespace MonkeyLang

/-- The programs are the same and do not use the name, and no built-in functions stand in
values but those every interpreter has. -/
def unaware (name : Text) : Leeway where
  spelling := ⟨fun t t' => t' = t ∧ t.literal ≠ name, Eq⟩
  error _ := True
  builtin code := ∃ f, code = .core f
  whole id := id ≠ Frames.core

variable {name : Text}

theorem unaware_exact : (unaware name).manner.Exact := by
  have hspelling : (unaware name).spelling.Exact := ⟨And.left, Eq.symm⟩
  rintro ⟨parameters, body, frame⟩ ⟨parameters', body', frame'⟩ ⟨hnames, hbody, hframe⟩
  cases hnames.eq_of_exact hspelling
  cases hbody.eq_of_exact hspelling
  cases hframe
  rfl

/-- A program that does not use the name is a copy of itself. -/
theorem unaware_copy {program : Program} (h : ∀ t ∈ program.names, t.literal ≠ name) :
    CopyStatements (unaware name).spelling program.statements program.statements := by
  apply copyStatements_self (fun _ => rfl)
  intro t ht
  exact ⟨rfl, h t ht⟩

/-- Hosts with the same limit, whatever is supplied to them. -/
theorem unaware_allows {host host' : Host} (hlimit : host'.limit = host.limit) :
    (unaware name).Allows host host' where
  name ht := congrArg Token.literal ht.1
  mark ht := congrArg Token.literal (Eq.symm ht)
  limit := hlimit
  native := by
    rintro _ arguments arguments' ⟨f, rfl⟩ harguments
    apply CoreFunction.run_alike _ f harguments
    intro c c' h
    cases unaware_exact c c' h
    exact ⟨rfl, rfl⟩

/-- Binding the name in a frame does not show. -/
theorem Frame.level_set_name {f : Frame} (value : Value)
    (h : BindingsLike (unaware name).manner f.bindings f.bindings) :
    f.Level (unaware name) Frames.core (f.set name value) where
  outer := rfl
  named := by
    rintro t _ ⟨rfl, hne⟩
    unfold get?
    simp only [Frame.set, lookup_rebind, if_neg hne]
    exact h.lookup _
  listed h := absurd rfl h

namespace Interpreter

theorem coreBindings_like :
    BindingsLike (unaware name).manner (CoreFunction.all.map fun f => (f.name, f.value))
      (CoreFunction.all.map fun f => (f.name, f.value)) := by
  apply bindingsLike_self
  intro binding hbinding
  obtain ⟨f, _, rfl⟩ := List.mem_map.1 hbinding
  exact .builtin ⟨f, rfl⟩

/-- A new interpreter with and without the function. -/
theorem level_register (limit : Nat) (name : Text) (f : Native) :
    (new limit).Level (unaware name) ((new limit).register name f) where
  host := unaware_allows rfl
  state := by
    refine ⟨⟨rfl, ?_⟩, rfl, rfl⟩
    intro id own own' hown hown'
    obtain ⟨hid, hget⟩ := Array.getElem?_eq_some_iff.1 hown
    match id, hid, hget with
    | 0, _, hget =>
        cases hget
        cases hown'
        exact Frame.level_set_name _ coreBindings_like
    | 1, _, hget =>
        cases hget
        cases hown'
        exact Frame.level_of_bindings (fun ht => congrArg Token.literal ht.1) rfl .nil
    | _ + 2, hid, _ => exact absurd hid (by simp [new, initialFrames])

variable {ip ip' : Interpreter}

/-- The frames of level interpreters are the same, that of the built-in functions
apart. -/
theorem Level.getElem?_eq (h : ip.Level (unaware name) ip') {id : FrameId}
    (hid : id ≠ Frames.core) : ip'.state.frames[id]? = ip.state.frames[id]? := by
  rcases h.frames.cases id with ⟨f, f', hf, hf', hlevel⟩ | ⟨hf, hf'⟩
  · obtain ⟨outer, bindings⟩ := f
    obtain ⟨outer', bindings'⟩ := f'
    have houter : outer' = outer := hlevel.outer
    have hbindings : bindings' = bindings := (hlevel.listed hid).eq unaware_exact
    rw [hf, hf', houter, hbindings]
  · rw [hf, hf']

end Interpreter

/-- **Supplying a function is conservative.**  A program in which no name is that of the
function is evaluated on a new interpreter as if the function had not been supplied:
either neither evaluation ends, or both do, in the same value, with the same output and
the same global bindings; and all frames but that of the built-in functions are the
same. -/
theorem registering_is_conservative (limit budget : Nat) (name : Text) (f : Native)
    (program : Program) (h : ∀ t ∈ program.names, t.literal ≠ name) :
    let plain := Interpreter.new limit
    let extended := plain.register name f
    (plain.evalGlobal budget program = none ∧ extended.evalGlobal budget program = none) ∨
      ∃ value ip ip', plain.evalGlobal budget program = some (value, ip) ∧
        extended.evalGlobal budget program = some (value, ip') ∧ ip'.output = ip.output ∧
        ip'.bindings Frames.global = ip.bindings Frames.global ∧
        ∀ id, id ≠ Frames.core → ip'.state.frames[id]? = ip.state.frames[id]? := by
  intro plain extended
  have hlevel : plain.Level (unaware name) extended := Interpreter.level_register limit name f
  rcases hlevel.evalIn budget Frames.global (unaware_copy h) with
    hnone | ⟨value, value', ip, ip', hrun, hrun', hvalue, hafter⟩
  · exact Or.inl hnone
  · cases hvalue.eq unaware_exact
    have hglobal : ip'.state.frames[Frames.global]? = ip.state.frames[Frames.global]? :=
      hafter.getElem?_eq (by decide)
    refine Or.inr ⟨value, ip, ip', hrun, hrun', hafter.output_eq, ?_, ?_⟩
    · simp only [Interpreter.bindings, hglobal]
    · intro id hid
      exact hafter.getElem?_eq hid

/-- A program with a function that calls itself, prints and fails at last. -/
def unawareProgram : Program :=
  (parse "let f = fn(n) \x7b puts(n); if (n > 0) \x7b f(n - 1) \x7d else \x7b a \x7d \x7d; f(2)").1

theorem registering_is_conservative_for_failing_program :
    (∀ t ∈ unawareProgram.names, t.literal ≠ Text.ofString "new") ∧
      ∃ value ip ip', (Interpreter.new 5).evalGlobal 0 unawareProgram = some (value, ip) ∧
        value.isError = true ∧ ip.output = Text.ofString "2\n1\n0\n" ∧
        ((Interpreter.new 5).register "new" fun _ => pure .null).evalGlobal 0 unawareProgram =
          some (value, ip') ∧ ip'.output = ip.output ∧
        ip'.bindings Frames.global = ip.bindings Frames.global := by
  have hunused : ∀ t ∈ unawareProgram.names, t.literal ≠ Text.ofString "new" := by
    decide +kernel
  have hchecked : ((Interpreter.new 5).evalGlobal 0 unawareProgram).any (fun out =>
      out.1.isError && out.2.output = Text.ofString "2\n1\n0\n") = true := by
    decide +kernel
  refine ⟨hunused, ?_⟩
  rcases registering_is_conservative 5 0 "new" (fun _ => pure .null) unawareProgram hunused with
    ⟨hnone, _⟩ | ⟨value, ip, ip', hrun, hrun', houtput, hbindings, _⟩
  · rw [hnone] at hchecked
    cases hchecked
  · rw [hrun] at hchecked
    simp only [Option.any_some, Bool.and_eq_true, decide_eq_true_eq] at hchecked
    exact ⟨value, ip, ip', hrun, hchecked.1, hchecked.2, hrun', houtput, hbindings⟩

end MonkeyLang
