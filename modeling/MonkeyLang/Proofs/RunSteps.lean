import MonkeyLang.Machine.Evaluator

/-!
# How runs compose

A run either ends in nothing or ends in a value and a state.  These equations
follow a run one step at a time, so that later proofs never unfold the layers a
run is made of.  What can be evaluated is a node: a program, a statement, a block
or an expression.
-/

namespace MonkeyLang

/-- What can be evaluated. -/
inductive Node
  | program (program : Program)
  | statement (statement : Stmt)
  | block (block : Block)
  | expression (expression : Expr)

/-- Evaluates a node in a frame. -/
def Node.eval (call : Call) (frame : FrameId) : Node → Run Value
  | .program p => p.eval call frame
  | .statement s => s.eval call frame
  | .block b => b.eval call frame
  | .expression e => e.eval call frame

theorem Value.eq_error_of_isError {v : Value} (h : v.isError = true) :
    ∃ cause, v = .error cause := by
  cases v with
  | error cause => exact ⟨cause, rfl⟩
  | _ => cases h

namespace Run

variable {α β : Type} {s s' : State}

/-- What follows a run that ends in nothing is not reached. -/
theorem bind_run_of_none {m : Run α} (h : m s = none) (f : α → Run β) :
    (m >>= f) s = none := by
  change (m s).bind _ = none
  rw [h]
  rfl

/-- What follows a run goes on in the state it leaves. -/
theorem bind_run_of_some {m : Run α} {a : α} (h : m s = some (a, s')) (f : α → Run β) :
    (m >>= f) s = f a s' := by
  change (m s).bind _ = _
  rw [h]
  rfl

/-- A sequence that ends in a value has passed through a state in between. -/
theorem bind_eq_some {m : Run α} {f : α → Run β} {b : β} (h : (m >>= f) s = some (b, s')) :
    ∃ a t, m s = some (a, t) ∧ f a t = some (b, s') := by
  cases hm : m s with
  | none => simp [bind_run_of_none hm] at h
  | some out =>
      obtain ⟨a, t⟩ := out
      rw [bind_run_of_some hm] at h
      exact ⟨a, t, rfl, h⟩

/-- An error is the end. -/
theorem onValue_run_of_error {m : Run Value} {cause : RuntimeError}
    (h : m s = some (.error cause, s')) (f : Value → Run Value) :
    onValue m f s = some (.error cause, s') :=
  bind_run_of_some h _

/-- Any other value is gone on with. -/
theorem onValue_run_of_value {m : Run Value} {value : Value} (h : m s = some (value, s'))
    (hvalue : value.isError = false) (f : Value → Run Value) :
    onValue m f s = f value s' := by
  unfold onValue
  rw [bind_run_of_some h]
  cases value with
  | error cause => simp [Value.isError] at hvalue
  | _ => rfl

/-- An error that is the only value is the end. -/
theorem onValues_run_of_error {m : Run (List Value)} {cause : RuntimeError}
    (h : m s = some ([.error cause], s')) (f : List Value → Run Value) :
    onValues m f s = some (.error cause, s') :=
  bind_run_of_some h _

/-- Values without an error are gone on with. -/
theorem onValues_run_of_values {m : Run (List Value)} {values : List Value}
    (h : m s = some (values, s')) (hvalues : ∀ v ∈ values, v.isError = false)
    (f : List Value → Run Value) : onValues m f s = f values s' := by
  unfold onValues
  rw [bind_run_of_some h]
  split
  · simp [Value.isError] at hvalues
  · rfl

/-- A run one call deeper that ends does so one call higher again. -/
theorem deeper_run_of_some {m : Run α} {a : α}
    (h : m { s with depth := s.depth + 1 } = some (a, s')) :
    deeper m s = some (a, { s' with depth := s'.depth - 1 }) := by
  simp [deeper, h]

theorem deeper_run_of_none {m : Run α} (h : m { s with depth := s.depth + 1 } = none) :
    deeper m s = none := by
  simp [deeper, h]

/-- What ended one call deeper has moved between states one call deeper. -/
theorem deeper_eq_some {m : Run α} {a : α} (h : deeper m s = some (a, s')) :
    ∃ t, m { s with depth := s.depth + 1 } = some (a, t) ∧
      s' = { t with depth := t.depth - 1 } := by
  cases hm : m { s with depth := s.depth + 1 } with
  | none => simp [deeper_run_of_none hm] at h
  | some out =>
      obtain ⟨b, t⟩ := out
      rw [deeper_run_of_some hm] at h
      cases h
      exact ⟨t, rfl, rfl⟩

end Run

/-! ## Expressions in a row

`evalAll` tells an error by the shape of the list: the error is alone in it.  That is no other
list, since none of the values that were evaluated without one is an error.  So going on with
the list is the same as going on from `evalValues`, which tells the two cases apart by
itself. -/

/-- Evaluates expressions from left to right, up to the first error. -/
def evalValues (call : Call) (frame : FrameId) :
    List Expr → Run (Except RuntimeError (List Value))
  | [] => pure (.ok [])
  | e :: rest => do
    match ← e.eval call frame with
    | .error cause => pure (.error cause)
    | value =>
      match ← evalValues call frame rest with
      | .error cause => pure (.error cause)
      | .ok values => pure (.ok (value :: values))

section Rows

variable {call : Call} {frame : FrameId} {e : Expr} {rest : List Expr} {s s₁ : State}

theorem evalValues_cons_of_none (h : e.eval call frame s = none) :
    evalValues call frame (e :: rest) s = none :=
  Run.bind_run_of_none h _

theorem evalValues_cons_of_error {cause : RuntimeError}
    (h : e.eval call frame s = some (.error cause, s₁)) :
    evalValues call frame (e :: rest) s = some (.error cause, s₁) :=
  Run.bind_run_of_some h _

/-- After a value that is no error the rest decides. -/
theorem evalValues_cons_of_value {value : Value} (h : e.eval call frame s = some (value, s₁))
    (hvalue : value.isError = false) :
    evalValues call frame (e :: rest) s =
      (evalValues call frame rest s₁).map (Prod.map (Except.map (value :: ·)) id) := by
  rw [evalValues, Run.bind_run_of_some h]
  have hrest : (do
      match ← evalValues call frame rest with
      | .error cause => pure (.error cause)
      | .ok values => pure (.ok (value :: values)) : Run _) s₁ =
      (evalValues call frame rest s₁).map (Prod.map (Except.map (value :: ·)) id) := by
    rcases hrun : evalValues call frame rest s₁ with _ | ⟨cause | values, s₂⟩
    · rw [Run.bind_run_of_none hrun]
      rfl
    · rw [Run.bind_run_of_some hrun]
      rfl
    · rw [Run.bind_run_of_some hrun]
      rfl
  cases value with
  | error cause => simp [Value.isError] at hvalue
  | _ => exact hrest

/-- Values evaluated up to an error are none of them errors. -/
theorem isError_of_evalValues {es : List Expr} {values : List Value} {s s' : State}
    (h : evalValues call frame es s = some (.ok values, s')) :
    ∀ v ∈ values, v.isError = false := by
  induction es generalizing s values with
  | nil =>
      cases h
      simp
  | cons e rest ih =>
      cases he : e.eval call frame s with
      | none => simp [evalValues_cons_of_none he] at h
      | some out =>
          obtain ⟨value, s₁⟩ := out
          cases hvalue : value.isError with
          | true =>
              obtain ⟨cause, rfl⟩ := Value.eq_error_of_isError hvalue
              simp [evalValues_cons_of_error he] at h
          | false =>
              rw [evalValues_cons_of_value he hvalue] at h
              rcases hrest : evalValues call frame rest s₁ with _ | ⟨cause | others, s₂⟩
              · simp [hrest] at h
              · simp [hrest, Except.map] at h
              · simp only [hrest, Option.map_some, Prod.map, Except.map, id_eq,
                  Option.some.injEq, Prod.mk.injEq, Except.ok.injEq] at h
                obtain ⟨rfl, rfl⟩ := h
                exact List.forall_mem_cons.2 ⟨hvalue, ih hrest⟩

/-- The list that stands for values behind others, or for an error. -/
def listedOutcome (values : List Value) : Except RuntimeError (List Value) → List Value
  | .error cause => [.error cause]
  | .ok rest => values ++ rest

/-- `evalAll` lists what `evalValues` finds. -/
theorem evalAll_eq_map (es : List Expr) (values : List Value) (s : State) :
    evalAll call frame es values s =
      (evalValues call frame es s).map (Prod.map (listedOutcome values) id) := by
  induction es generalizing values s with
  | nil =>
      rw [evalAll, evalValues]
      change some (values, s) = some (values ++ [], s)
      rw [List.append_nil]
  | cons e rest ih =>
      rw [evalAll]
      cases he : e.eval call frame s with
      | none =>
          rw [Run.bind_run_of_none he, evalValues_cons_of_none he]
          rfl
      | some out =>
          obtain ⟨value, s₁⟩ := out
          rw [Run.bind_run_of_some he]
          cases hvalue : value.isError with
          | true =>
              obtain ⟨cause, rfl⟩ := Value.eq_error_of_isError hvalue
              rw [evalValues_cons_of_error he]
              rfl
          | false =>
              rw [evalValues_cons_of_value he hvalue]
              change evalAll call frame rest (values ++ [value]) s₁ = _
              rw [ih]
              rcases evalValues call frame rest s₁ with _ | ⟨cause | others, s₂⟩
              · rfl
              · rfl
              · simp [listedOutcome, Except.map]

/-- **A list with one error stands for the error.**  Going on with what `evalAll` lists, after
looking whether it is an error alone, is going on with the values if there was no error. -/
theorem onValues_evalAll (es : List Expr) (next : List Value → Run Value) :
    Run.onValues (evalAll call frame es []) next =
      evalValues call frame es >>= fun
        | .error cause => Run.error cause
        | .ok values => next values := by
  funext s
  have hlist : evalAll call frame es [] s = _ := evalAll_eq_map es [] s
  rcases hrun : evalValues call frame es s with _ | ⟨cause | values, s₁⟩
  · rw [hrun] at hlist
    rw [Run.bind_run_of_none hrun]
    exact Run.bind_run_of_none hlist _
  · rw [hrun] at hlist
    rw [Run.bind_run_of_some hrun]
    exact Run.onValues_run_of_error hlist next
  · rw [hrun] at hlist
    rw [Run.bind_run_of_some hrun]
    exact Run.onValues_run_of_values hlist (isError_of_evalValues hrun) next

end Rows

/-- What a call that ends has done: nothing to the frames and the depth, or it has
evaluated the body of a function in a new frame, one call deeper. -/
theorem Host.callWith_cases {host : Host} {inner : Option Call} {callee value : Value}
    {arguments : List Value} {s s' : State}
    (h : host.callWith inner callee arguments s = some (value, s')) :
    (s'.frames = s.frames ∧ s'.depth = s.depth) ∨
      ∃ call ∈ inner, ∃ stamp parameters body frame result t,
        callee = .function stamp parameters body frame ∧
        body.eval call s.frames.size
          { s with
            frames := s.frames.push ((Frame.empty frame).setAll parameters arguments)
            depth := s.depth + 1 } = some (result, t) ∧
        value = result.landed ∧ s' = { t with depth := t.depth - 1 } := by
  unfold callWith at h
  cases callee with
  | function stamp parameters body frame =>
      dsimp only at h
      split at h
      · cases h
        exact Or.inl ⟨rfl, rfl⟩
      · obtain ⟨depth, _, hdepth, hcall⟩ := Run.bind_eq_some h
        cases hdepth
        split at hcall
        · cases hcall
          exact Or.inl ⟨rfl, rfl⟩
        · cases inner with
          | none => cases hcall
          | some call =>
              obtain ⟨t, hbody, hs'⟩ := Run.deeper_eq_some hcall
              obtain ⟨own, _, hframe, hrest⟩ := Run.bind_eq_some hbody
              cases hframe
              obtain ⟨result, _, heval, hlanded⟩ := Run.bind_eq_some hrest
              cases hlanded
              exact Or.inr ⟨call, rfl, stamp, parameters, body, frame, result, t, rfl, heval,
                rfl, hs'⟩
  | builtin _ code =>
      cases h
      exact Or.inl ⟨rfl, rfl⟩
  | _ =>
      cases h
      exact Or.inl ⟨rfl, rfl⟩

end MonkeyLang
