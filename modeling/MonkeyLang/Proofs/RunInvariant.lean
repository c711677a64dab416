import MonkeyLang.Proofs.RunSteps

/-!
# Relations that evaluation obeys

Suppose a relation between states holds of a state and itself, can be followed
through any state in between, and does not look at what built-in functions
change.  If binding a name in a frame and making a call move the state only along
this relation, so does every evaluation in that frame.  The induction over the
tree is done once here, for any such relation.
-/

namespace MonkeyLang

/-- Every run that ends has moved the state along the relation. -/
def Run.Obeys {α : Type} (R : State → State → Prop) (m : Run α) : Prop :=
  ∀ s a s', m s = some (a, s') → R s s'

/-- A relation that may be followed through many steps and does not look at the
stamps given out and the lines printed. -/
structure Followed (R : State → State → Prop) : Prop where
  refl : ∀ s, R s s
  trans : ∀ {s t u}, R s t → R t u → R s u
  effects : ∀ s effects, R s { s with effects }

namespace Run.Obeys

variable {α β : Type} {R : State → State → Prop}

theorem pure (hR : Followed R) (a : α) : Obeys R (Pure.pure a) := by
  intro s b s' h
  cases h
  exact hR.refl s

/-- Two runs after one another. -/
theorem bind (hR : Followed R) {m : Run α} {f : α → Run β} (hm : Obeys R m)
    (hf : ∀ a, Obeys R (f a)) : Obeys R (m >>= f) := by
  intro s b s' h
  obtain ⟨a, t, hfirst, hrest⟩ := bind_eq_some h
  exact hR.trans (hm s a t hfirst) (hf a t b s' hrest)

/-- An error ends the run where it stands. -/
theorem onValue (hR : Followed R) {m : Run Value} {f : Value → Run Value} (hm : Obeys R m)
    (hf : ∀ value, Obeys R (f value)) : Obeys R (Run.onValue m f) := by
  refine bind hR hm fun value => ?_
  cases value with
  | error cause => exact pure hR _
  | _ => exact hf _

/-- An error alone among the values ends the run where it stands. -/
theorem onValues (hR : Followed R) {m : Run (List Value)} {f : List Value → Run Value}
    (hm : Obeys R m) (hf : ∀ values, Obeys R (f values)) : Obeys R (Run.onValues m f) := by
  refine bind hR hm fun values => ?_
  split
  · exact pure hR _
  · exact hf _

/-- What sees no frame changes only what the relation does not look at. -/
theorem lift (hR : Followed R) (m : Effect α) : Obeys R (Run.lift m) := by
  intro s a s' h
  cases h
  exact hR.effects s _

theorem lookup (hR : Followed R) (frame : FrameId) (name : Text) :
    Obeys R (Run.lookup frame name) := by
  intro s a s' h
  cases h
  exact hR.refl s

end Run.Obeys

/-- A relation along which calls and bindings in a frame move the state. -/
structure Moves (R : State → State → Prop) (call : Call) (frame : FrameId) : Prop
    extends Followed R where
  calls : ∀ f arguments, (call f arguments).Obeys R
  binds : ∀ name value, (Run.bindName frame name value).Obeys R

section Tree

variable {R : State → State → Prop} {call : Call} {frame : FrameId}

mutual

/-- Every expression. -/
theorem Expr.obeys (h : Moves R call frame) (e : Expr) :
    (e.eval call frame).Obeys R := by
  match e with
  | .ident t =>
      rw [Expr.eval]
      exact Run.Obeys.lookup h.toFollowed frame t.literal
  | .int _ value =>
      rw [Expr.eval]
      exact Run.Obeys.pure h.toFollowed _
  | .string t =>
      rw [Expr.eval]
      exact Run.Obeys.pure h.toFollowed _
  | .bool _ value =>
      rw [Expr.eval]
      exact Run.Obeys.pure h.toFollowed _
  | .unary t operand =>
      rw [Expr.eval]
      exact (operand.obeys h).onValue h.toFollowed fun _ => Run.Obeys.pure h.toFollowed _
  | .binary t left right =>
      rw [Expr.eval]
      exact (left.obeys h).onValue h.toFollowed fun _ =>
        (right.obeys h).onValue h.toFollowed fun _ => Run.Obeys.pure h.toFollowed _
  | .cond _ test consequence none =>
      rw [Expr.eval]
      refine (test.obeys h).onValue h.toFollowed fun value => ?_
      cases value.isTruthy with
      | true => exact consequence.obeys h
      | false => exact Run.Obeys.pure h.toFollowed _
  | .cond _ test consequence (some alternative) =>
      rw [Expr.eval]
      refine (test.obeys h).onValue h.toFollowed fun value => ?_
      cases value.isTruthy with
      | true => exact consequence.obeys h
      | false => exact alternative.obeys h
  | .function _ parameters body =>
      rw [Expr.eval]
      exact Run.Obeys.lift h.toFollowed _
  | .call _ callee arguments =>
      rw [Expr.eval]
      exact (callee.obeys h).onValue h.toFollowed fun f =>
        (evalAll_obeys h arguments []).onValues h.toFollowed fun values => h.calls f values
  | .array _ elements =>
      rw [Expr.eval]
      exact (evalAll_obeys h elements []).onValues h.toFollowed fun _ =>
        Run.Obeys.lift h.toFollowed _
  | .index _ collection key =>
      rw [Expr.eval]
      exact (collection.obeys h).onValue h.toFollowed fun _ =>
        (key.obeys h).onValue h.toFollowed fun _ => Run.Obeys.pure h.toFollowed _
  | .hash _ pairs =>
      rw [Expr.eval]
      exact evalPairs_obeys h pairs .empty

/-- Arguments and elements. -/
theorem evalAll_obeys (h : Moves R call frame) (es : List Expr) (values : List Value) :
    (evalAll call frame es values).Obeys R := by
  match es with
  | [] =>
      rw [evalAll]
      exact Run.Obeys.pure h.toFollowed _
  | e :: rest =>
      rw [evalAll]
      refine (e.obeys h).bind h.toFollowed fun value => ?_
      cases value.isError with
      | true => exact Run.Obeys.pure h.toFollowed _
      | false => exact evalAll_obeys h rest (values ++ [value])

/-- The entries of a hash literal. -/
theorem evalPairs_obeys (h : Moves R call frame)
    (pairs : List (Expr × Expr)) (hash : Hash Value) :
    (evalPairs call frame pairs hash).Obeys R := by
  match pairs with
  | [] =>
      rw [evalPairs]
      exact Run.Obeys.lift h.toFollowed _
  | (key, value) :: rest =>
      rw [evalPairs]
      refine (key.obeys h).onValue h.toFollowed fun k => ?_
      cases k.key? with
      | none => exact Run.Obeys.pure h.toFollowed _
      | some found =>
          exact (value.obeys h).onValue h.toFollowed fun v =>
            evalPairs_obeys h rest (hash.set found v)

/-- Every statement; a `let` binds in the frame. -/
theorem Stmt.obeys (h : Moves R call frame) (statement : Stmt) :
    (statement.eval call frame).Obeys R := by
  match statement with
  | .bind _ name value =>
      rw [Stmt.eval]
      exact (value.obeys h).onValue h.toFollowed fun v =>
        (h.binds name.literal v).bind h.toFollowed fun _ => Run.Obeys.pure h.toFollowed _
  | .leave _ none =>
      rw [Stmt.eval]
      exact Run.Obeys.lift h.toFollowed _
  | .leave _ (some value) =>
      rw [Stmt.eval]
      exact (value.obeys h).onValue h.toFollowed fun _ => Run.Obeys.lift h.toFollowed _
  | .expr _ value =>
      rw [Stmt.eval]
      exact value.obeys h

/-- Statements in a row. -/
theorem evalStatements_obeys (h : Moves R call frame)
    (statements : List Stmt) (last : Value) :
    (evalStatements call frame statements last).Obeys R := by
  match statements with
  | [] =>
      rw [evalStatements]
      exact Run.Obeys.pure h.toFollowed last
  | statement :: rest =>
      rw [evalStatements]
      refine (statement.obeys h).bind h.toFollowed fun value => ?_
      cases value.stops with
      | true => exact Run.Obeys.pure h.toFollowed value
      | false => exact evalStatements_obeys h rest value

/-- Blocks, which are evaluated in the same frame. -/
theorem Block.obeys (h : Moves R call frame) (block : Block) :
    (block.eval call frame).Obeys R := by
  match block with
  | .mk _ statements =>
      rw [Block.eval]
      exact evalStatements_obeys h statements .null

end

/-- **Evaluation moves the state only as binding names and making calls do.** -/
theorem Node.obeys (h : Moves R call frame) (node : Node) :
    (node.eval call frame).Obeys R := by
  cases node with
  | program p =>
      exact (evalStatements_obeys h p.statements .null).bind h.toFollowed fun _ =>
        Run.Obeys.pure h.toFollowed _
  | statement s => exact s.obeys h
  | block b => exact b.obeys h
  | expression e => exact e.obeys h

end Tree
end MonkeyLang
