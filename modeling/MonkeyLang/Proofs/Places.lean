import MonkeyLang.Proofs.LevelRuns
import MonkeyLang.Proofs.MovedTrees

/-!
# Evaluation does not look at places

The tokens in the body of a function keep the places they were read at, and nothing that
evaluation does depends on them.  Values, frames and whole interpreters are bare when
these places are left out of account; then evaluating a program and evaluating it with
all its tokens moved come to the same, with the same output, stamps and frames.

Functions supplied from outside see the functions they are given, so of these it has to be
known that they do not look at places either.
-/

namespace MonkeyLang

mutual

/-- The value, wherever the tokens of the functions in it stand. -/
def Value.bare : Value → Value
  | .integer n => .integer n
  | .boolean b => .boolean b
  | .string s => .string s
  | .null => .null
  | .returned stamp value => .returned stamp value.bare
  | .error cause => .error cause
  | .function stamp parameters body frame =>
    .function stamp (parameters.map Token.bare) body.bare frame
  | .builtin name code => .builtin name code
  | .array stamp elements => .array stamp (bareAll elements)
  | .hash stamp entries => .hash stamp (bareEntries entries)

/-- Values, wherever the tokens of the functions in them stand. -/
def bareAll : List Value → List Value
  | [] => []
  | value :: rest => value.bare :: bareAll rest

/-- Entries, wherever the tokens of the functions in them stand. -/
def bareEntries : List (Key × Value) → List (Key × Value)
  | [] => []
  | (key, value) :: rest => (key, value.bare) :: bareEntries rest

end

/-- The frame with bare values. -/
def Frame.bare (f : Frame) : Frame := ⟨f.outer, f.bindings.map (Prod.map id Value.bare)⟩

/-- The interpreter with bare values in all its frames. -/
def Interpreter.bare (ip : Interpreter) : Interpreter :=
  { ip with state := { ip.state with frames := ip.state.frames.map Frame.bare } }

/-- All may differ in places, and in nothing else. -/
def Leeway.placed : Leeway := ⟨.placed, fun _ => True, fun _ => True, fun _ => True⟩

/-! ## Values that differ in places -/

mutual

theorem Value.Like.bare_eq {v v' : Value} (h : v.Like Leeway.placed.manner v') :
    v'.bare = v.bare := by
  match h with
  | .integer _ | .boolean _ | .string _ | .null | .error _ | .builtin _ => rfl
  | .returned _ h => rw [Value.bare, Value.bare, h.bare_eq]
  | .function ⟨hnames, hbody, hframe⟩ =>
      simp only [Value.bare, Value.function.injEq, true_and]
      exact ⟨hnames.bare_eq, hbody.bare_eq, hframe⟩
  | .array h => rw [Value.bare, Value.bare, h.bare_eq]
  | .hash h => rw [Value.bare, Value.bare, h.bare_eq]

theorem AllLike.bare_eq {list list' : List Value} (h : AllLike Leeway.placed.manner list list') :
    bareAll list' = bareAll list := by
  match h with
  | .nil => rfl
  | .cons h hrest => rw [bareAll, bareAll, h.bare_eq, hrest.bare_eq]

theorem EntriesLike.bare_eq {list list' : List (Key × Value)}
    (h : EntriesLike Leeway.placed.manner list list') : bareEntries list' = bareEntries list := by
  match h with
  | .nil => rfl
  | .cons h hrest => rw [bareEntries, bareEntries, h.bare_eq, hrest.bare_eq]

end

mutual

/-- Values that are the same but for places are like each other. -/
theorem Value.like_of_bare {v v' : Value} (h : v'.bare = v.bare) :
    v.Like Leeway.placed.manner v' := by
  match v with
  | .integer n =>
      cases v' <;> simp [Value.bare] at h
      rw [h]
      exact .integer n
  | .boolean b =>
      cases v' <;> simp [Value.bare] at h
      rw [h]
      exact .boolean b
  | .string s =>
      cases v' <;> simp [Value.bare] at h
      rw [h]
      exact .string s
  | .null =>
      cases v' <;> simp [Value.bare] at h
      exact .null
  | .returned stamp value =>
      cases v' <;> simp [Value.bare] at h
      rw [h.1]
      exact .returned trivial (Value.like_of_bare h.2)
  | .error cause =>
      cases v' <;> simp [Value.bare] at h
      rw [h]
      exact .error trivial
  | .function stamp parameters body frame =>
      cases v' <;> simp only [Value.bare, reduceCtorEq, Value.function.injEq] at h
      obtain ⟨hstamp, hparameters, hbody, hframe⟩ := h
      rw [hstamp]
      exact .function ⟨copyNames_of_bare hparameters, Block.copy_of_bare hbody, hframe⟩
  | .builtin name code =>
      cases v' <;> simp [Value.bare] at h
      rw [h.1, h.2]
      exact .builtin trivial
  | .array stamp elements =>
      cases v' <;> simp [Value.bare] at h
      rw [h.1]
      exact .array (allLike_of_bare h.2)
  | .hash stamp entries =>
      cases v' <;> simp [Value.bare] at h
      rw [h.1]
      exact .hash (entriesLike_of_bare h.2)

theorem allLike_of_bare {list list' : List Value} (h : bareAll list' = bareAll list) :
    AllLike Leeway.placed.manner list list' := by
  match list with
  | [] =>
      cases list' <;> simp [bareAll] at h
      exact .nil
  | v :: rest =>
      cases list' <;> simp [bareAll] at h
      exact .cons (Value.like_of_bare h.1) (allLike_of_bare h.2)

theorem entriesLike_of_bare {list list' : List (Key × Value)}
    (h : bareEntries list' = bareEntries list) :
    EntriesLike Leeway.placed.manner list list' := by
  match list with
  | [] =>
      cases list' <;> simp [bareEntries] at h
      exact .nil
  | (key, v) :: rest =>
      cases list' with
      | nil => simp [bareEntries] at h
      | cons entry' rest' =>
          obtain ⟨key', v'⟩ := entry'
          simp only [bareEntries, List.cons.injEq, Prod.mk.injEq] at h
          rw [h.1.1]
          exact .cons (Value.like_of_bare h.1.2) (entriesLike_of_bare h.2)

end

theorem Value.Given.bare_eq {v v' : Value} (h : v.Given Leeway.placed.manner v') :
    v'.bare = v.bare := by
  rcases h with h | ⟨cause, rfl, rfl⟩
  · exact h.bare_eq
  · rfl

theorem BindingsLike.bare_eq {list list' : List (Text × Value)}
    (h : BindingsLike Leeway.placed.manner list list') :
    list'.map (Prod.map id Value.bare) = list.map (Prod.map id Value.bare) := by
  induction h with
  | nil => rfl
  | cons h _ ih =>
      rw [List.map_cons, List.map_cons, ih]
      simp only [Prod.map, h.bare_eq]

/-! ## Interpreters that differ in places -/

namespace Leeway

end Leeway

namespace Interpreter

variable {ip ip' : Interpreter}

theorem Level.bare_eq (h : ip.Level Leeway.placed ip') (hhost : ip'.host = ip.host) :
    ip'.bare = ip.bare := by
  have hframes : ip'.state.frames.map Frame.bare = ip.state.frames.map Frame.bare := by
    apply Array.ext_getElem?
    intro id
    rw [Array.getElem?_map, Array.getElem?_map]
    rcases h.frames.cases id with ⟨f, f', hf, hf', hlevel⟩ | ⟨hf, hf'⟩
    · rw [hf, hf', Option.map_some, Option.map_some, Frame.bare, Frame.bare, hlevel.outer,
        (hlevel.listed trivial).bare_eq]
    · rw [hf, hf']
  simp only [bare, hframes, hhost, h.effects, h.state.depth]

end Interpreter
end MonkeyLang
