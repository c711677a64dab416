import MonkeyLang.Proofs.Respelling
import MonkeyLang.Proofs.TreeCopy
import MonkeyLang.Tree.Basic

/-!
# Trees up to the places of their tokens

A tree with all its tokens put at the start of the source is bare: it says what was
written and not where.  Moving the tokens of a tree changes neither its bare form nor its
canonical text, and the trees with one bare form are the copies of each other in the
spelling `Spelling.placed`, where tokens differ in their places alone.
-/

namespace MonkeyLang

/-- The expression, wherever its tokens stand. -/
def Expr.bare (e : Expr) : Expr := e.move fun _ => .start

/-- The block, wherever its tokens stand. -/
def Block.bare (b : Block) : Block := b.move fun _ => .start

theorem Token.literal_eq_of_bare {t t' : Token} (h : t'.bare = t.bare) :
    t'.literal = t.literal :=
  (congrArg Token.literal h : t'.bare.literal = t.bare.literal)

/-- Tokens differ in their places alone. -/
def Spelling.placed : Spelling := ⟨fun t t' => t'.bare = t.bare, fun t t' => t'.bare = t.bare⟩

theorem Spelling.bare_of_mark {t t' : Token} (h : placed.mark t t') :
    (t'.move fun _ => .start) = t.move fun _ => .start := h

theorem Spelling.bare_of_name {t t' : Token} (h : placed.name t t') :
    (t'.move fun _ => .start) = t.move fun _ => .start := h

/-! ## Places do not show in the canonical text -/

mutual

theorem Expr.render_move (f : Position → Position) (e : Expr) : (e.move f).render = e.render := by
  match e with
  | .ident _ | .int _ _ | .string _ | .bool _ _ => simp [Expr.move, Expr.render]
  | .unary t operand => simp [Expr.move, Expr.render, Expr.render_move f operand]
  | .binary t left right =>
      simp [Expr.move, Expr.render, Expr.render_move f left, Expr.render_move f right]
  | .cond t test consequence none =>
      simp [Expr.move, Expr.render, Expr.render_move f test, Block.render_move f consequence]
  | .cond t test consequence (some alternative) =>
      simp [Expr.move, Expr.render, Expr.render_move f test, Block.render_move f consequence,
        Block.render_move f alternative]
  | .function t parameters body =>
      simp [Expr.move, Expr.render, Block.render_move f body, Function.comp_def]
  | .call t callee arguments =>
      simp [Expr.move, Expr.render, Expr.render_move f callee, renderAll_move f arguments]
  | .array t elements => simp [Expr.move, Expr.render, renderAll_move f elements]
  | .index t collection key =>
      simp [Expr.move, Expr.render, Expr.render_move f collection, Expr.render_move f key]
  | .hash t pairs => simp [Expr.move, Expr.render, renderPairs_move f pairs]

theorem renderAll_move (f : Position → Position) (list : List Expr) :
    renderAll (moveAll f list) = renderAll list := by
  match list with
  | [] => simp [moveAll]
  | e :: rest => simp [moveAll, renderAll, Expr.render_move f e, renderAll_move f rest]

theorem renderPairs_move (f : Position → Position) (pairs : List (Expr × Expr)) :
    renderPairs (movePairs f pairs) = renderPairs pairs := by
  match pairs with
  | [] => simp [movePairs]
  | (key, value) :: rest =>
      simp [movePairs, renderPairs, Expr.render_move f key, Expr.render_move f value,
        renderPairs_move f rest]

theorem Stmt.render_move (f : Position → Position) (s : Stmt) : (s.move f).render = s.render := by
  match s with
  | .bind _ _ value => simp [Stmt.move, Stmt.render, Expr.render_move f value]
  | .leave _ none => simp [Stmt.move, Stmt.render]
  | .leave _ (some value) => simp [Stmt.move, Stmt.render, Expr.render_move f value]
  | .expr _ value => simp [Stmt.move, Stmt.render, Expr.render_move f value]

theorem renderStatements_move (f : Position → Position) (list : List Stmt) :
    renderStatements (moveStatements f list) = renderStatements list := by
  match list with
  | [] => simp [moveStatements]
  | s :: rest =>
      simp [moveStatements, renderStatements, Stmt.render_move f s, renderStatements_move f rest]

theorem Block.render_move (f : Position → Position) (b : Block) :
    (b.move f).render = b.render := by
  match b with
  | .mk _ list => simp [Block.move, Block.render, renderStatements_move f list]

end

/-! ## Moving twice -/

theorem moveNames_move (f g : Position → Position) (names : List Token) :
    (names.map (Token.move f)).map (Token.move g) = names.map (Token.move (g ∘ f)) := by
  rw [List.map_map]
  rfl

mutual

theorem Expr.move_move (f g : Position → Position) (e : Expr) :
    (e.move f).move g = e.move (g ∘ f) := by
  match e with
  | .ident _ | .int _ _ | .string _ | .bool _ _ => simp [Expr.move, Token.move]
  | .unary _ a => simp [Expr.move, Token.move, a.move_move f g]
  | .binary _ a b | .index _ a b => simp [Expr.move, Token.move, a.move_move f g, b.move_move f g]
  | .cond _ test yes none =>
      simp [Expr.move, Token.move, test.move_move f g, yes.move_move f g]
  | .cond _ test yes (some no) =>
      simp [Expr.move, Token.move, test.move_move f g, yes.move_move f g, no.move_move f g]
  | .function _ names body =>
      rw [Expr.move, Expr.move, Expr.move, moveNames_move, body.move_move f g]
      rfl
  | .call _ callee arguments =>
      simp [Expr.move, Token.move, callee.move_move f g, moveAll_moveAll f g arguments]
  | .array _ elements => simp [Expr.move, Token.move, moveAll_moveAll f g elements]
  | .hash _ pairs => simp [Expr.move, Token.move, movePairs_movePairs f g pairs]

theorem moveAll_moveAll (f g : Position → Position) (list : List Expr) :
    moveAll g (moveAll f list) = moveAll (g ∘ f) list := by
  match list with
  | [] => simp [moveAll]
  | e :: rest => simp [moveAll, e.move_move f g, moveAll_moveAll f g rest]

theorem movePairs_movePairs (f g : Position → Position) (pairs : List (Expr × Expr)) :
    movePairs g (movePairs f pairs) = movePairs (g ∘ f) pairs := by
  match pairs with
  | [] => simp [movePairs]
  | (key, value) :: rest =>
      simp [movePairs, key.move_move f g, value.move_move f g, movePairs_movePairs f g rest]

theorem Stmt.move_move (f g : Position → Position) (s : Stmt) :
    (s.move f).move g = s.move (g ∘ f) := by
  match s with
  | .bind _ _ value => simp [Stmt.move, Token.move, value.move_move f g]
  | .leave _ none => simp [Stmt.move, Token.move]
  | .leave _ (some value) => simp [Stmt.move, Token.move, value.move_move f g]
  | .expr _ value => simp [Stmt.move, Token.move, value.move_move f g]

theorem moveStatements_moveStatements (f g : Position → Position) (list : List Stmt) :
    moveStatements g (moveStatements f list) = moveStatements (g ∘ f) list := by
  match list with
  | [] => simp [moveStatements]
  | s :: rest => simp [moveStatements, s.move_move f g, moveStatements_moveStatements f g rest]

theorem Block.move_move (f g : Position → Position) (b : Block) :
    (b.move f).move g = b.move (g ∘ f) := by
  match b with
  | .mk _ list => simp [Block.move, Token.move, moveStatements_moveStatements f g list]

end

/-! ## Copies in other places -/

theorem CopyNames.bare_eq {names names' : List Token} (h : CopyNames .placed names names') :
    names'.map (Token.move fun _ => .start) = names.map (Token.move fun _ => .start) := by
  induction h with
  | nil => rfl
  | cons h _ ih => rw [List.map_cons, List.map_cons, Spelling.bare_of_name h, ih]

mutual

/-- A copy in other places has the same bare form. -/
theorem Expr.Copy.bare_eq {e e' : Expr} (h : e.Copy .placed e') :
    (e'.move fun _ => .start) = e.move fun _ => .start := by
  match h with
  | .ident ht => rw [Expr.move, Expr.move, Spelling.bare_of_name ht]
  | .int ht _ | .string ht | .bool ht _ => rw [Expr.move, Expr.move, Spelling.bare_of_mark ht]
  | .unary ht ha => rw [Expr.move, Expr.move, Spelling.bare_of_mark ht, ha.bare_eq]
  | .binary ht ha hb | .index ht ha hb =>
      rw [Expr.move, Expr.move, Spelling.bare_of_mark ht, ha.bare_eq, hb.bare_eq]
  | .cond ht htest hyes =>
      rw [Expr.move, Expr.move, Spelling.bare_of_mark ht, htest.bare_eq, hyes.bare_eq]
  | .condElse ht htest hyes hno =>
      rw [Expr.move, Expr.move, Spelling.bare_of_mark ht, htest.bare_eq, hyes.bare_eq, hno.bare_eq]
  | .function ht hnames hbody =>
      rw [Expr.move, Expr.move, Spelling.bare_of_mark ht, hnames.bare_eq, hbody.bare_eq]
  | .call ht hcallee harguments =>
      rw [Expr.move, Expr.move, Spelling.bare_of_mark ht, hcallee.bare_eq, harguments.bare_eq]
  | .array ht helements => rw [Expr.move, Expr.move, Spelling.bare_of_mark ht, helements.bare_eq]
  | .hash ht hpairs => rw [Expr.move, Expr.move, Spelling.bare_of_mark ht, hpairs.bare_eq]

theorem CopyAll.bare_eq {list list' : List Expr} (h : CopyAll .placed list list') :
    moveAll (fun _ => .start) list' = moveAll (fun _ => .start) list := by
  match h with
  | .nil => rfl
  | .cons h hrest => rw [moveAll, moveAll, h.bare_eq, hrest.bare_eq]

theorem CopyPairs.bare_eq {pairs pairs' : List (Expr × Expr)}
    (h : CopyPairs .placed pairs pairs') :
    movePairs (fun _ => .start) pairs' = movePairs (fun _ => .start) pairs := by
  match h with
  | .nil => rfl
  | .cons hkey hvalue hrest =>
      rw [movePairs, movePairs, hkey.bare_eq, hvalue.bare_eq, hrest.bare_eq]

theorem Stmt.Copy.bare_eq {s s' : Stmt} (h : s.Copy .placed s') :
    (s'.move fun _ => .start) = s.move fun _ => .start := by
  match h with
  | .bind ht hname hvalue =>
      rw [Stmt.move, Stmt.move, Spelling.bare_of_mark ht, Spelling.bare_of_name hname,
        hvalue.bare_eq]
  | .leave ht => rw [Stmt.move, Stmt.move, Spelling.bare_of_mark ht]
  | .leaveWith ht hvalue | .expr ht hvalue =>
      rw [Stmt.move, Stmt.move, Spelling.bare_of_mark ht, hvalue.bare_eq]

theorem CopyStatements.bare_eq {list list' : List Stmt} (h : CopyStatements .placed list list') :
    moveStatements (fun _ => .start) list' = moveStatements (fun _ => .start) list := by
  match h with
  | .nil => rfl
  | .cons h hrest => rw [moveStatements, moveStatements, h.bare_eq, hrest.bare_eq]

theorem Block.Copy.bare_eq {b b' : Block} (h : b.Copy .placed b') :
    (b'.move fun _ => .start) = b.move fun _ => .start := by
  match h with
  | .mk ht hstatements =>
      rw [Block.move, Block.move, Spelling.bare_of_mark ht, hstatements.bare_eq]

end

theorem copyNames_of_bare {names names' : List Token}
    (h : names'.map (Token.move fun _ => .start) = names.map (Token.move fun _ => .start)) :
    CopyNames .placed names names' := by
  induction names generalizing names' with
  | nil =>
      rw [List.map_nil, List.map_eq_nil_iff] at h
      rw [h]
      exact .nil
  | cons t rest ih =>
      obtain ⟨t', rest', rfl, ht, hrest⟩ := List.map_eq_cons_iff.1 h
      exact .cons ht (ih hrest)

theorem Expr.move_cond (f : Position → Position) (t : Token) (test : Expr) (yes : Block)
    (no : Option Block) :
    (Expr.cond t test yes no).move f =
      .cond (t.move f) (test.move f) (yes.move f) (no.map (Block.move f)) := by
  cases no <;> rw [Expr.move] <;> rfl

theorem Stmt.move_bind (f : Position → Position) (t name : Token) (value : Expr) :
    (Stmt.bind t name value).move f = .bind (t.move f) (name.move f) (value.move f) := by
  rw [Stmt.move]

theorem Stmt.move_expr (f : Position → Position) (t : Token) (value : Expr) :
    (Stmt.expr t value).move f = .expr (t.move f) (value.move f) := by
  rw [Stmt.move]

theorem Stmt.move_leave (f : Position → Position) (t : Token) (value : Option Expr) :
    (Stmt.leave t value).move f = .leave (t.move f) (value.map (Expr.move f)) := by
  cases value <;> rw [Stmt.move] <;> rfl

mutual

/-- Expressions with the same bare form are copies of each other. -/
theorem Expr.copy_of_bare {e e' : Expr}
    (h : (e'.move fun _ => .start) = e.move fun _ => .start) : e.Copy .placed e' := by
  match e with
  | .ident t =>
      cases e' <;> simp only [Expr.move, Expr.move_cond, reduceCtorEq, Expr.ident.injEq] at h
      exact .ident h
  | .int t value =>
      cases e' <;> simp only [Expr.move, Expr.move_cond, reduceCtorEq, Expr.int.injEq] at h
      cases h.2
      exact .int h.1 _
  | .string t =>
      cases e' <;> simp only [Expr.move, Expr.move_cond, reduceCtorEq, Expr.string.injEq] at h
      exact .string h
  | .bool t value =>
      cases e' <;> simp only [Expr.move, Expr.move_cond, reduceCtorEq, Expr.bool.injEq] at h
      cases h.2
      exact .bool h.1 _
  | .unary t a =>
      cases e' <;> simp only [Expr.move, Expr.move_cond, reduceCtorEq, Expr.unary.injEq] at h
      exact .unary h.1 (Expr.copy_of_bare h.2)
  | .binary t a b =>
      cases e' <;> simp only [Expr.move, Expr.move_cond, reduceCtorEq, Expr.binary.injEq] at h
      exact .binary h.1 (Expr.copy_of_bare h.2.1) (Expr.copy_of_bare h.2.2)
  | .cond t test yes none =>
      cases e' <;> simp only [Expr.move, Expr.move_cond, reduceCtorEq, Expr.cond.injEq,
        Option.map_eq_none_iff] at h
      obtain ⟨ht, htest, hyes, rfl⟩ := h
      exact .cond ht (Expr.copy_of_bare htest) (Block.copy_of_bare hyes)
  | .cond t test yes (some no) =>
      cases e' <;> simp only [Expr.move, Expr.move_cond, reduceCtorEq, Expr.cond.injEq,
        Option.map_eq_some_iff] at h
      obtain ⟨ht, htest, hyes, _, rfl, hno⟩ := h
      exact .condElse ht (Expr.copy_of_bare htest) (Block.copy_of_bare hyes)
        (Block.copy_of_bare hno)
  | .function t names body =>
      cases e' <;> simp only [Expr.move, Expr.move_cond, reduceCtorEq, Expr.function.injEq] at h
      exact .function h.1 (copyNames_of_bare h.2.1) (Block.copy_of_bare h.2.2)
  | .call t callee arguments =>
      cases e' <;> simp only [Expr.move, Expr.move_cond, reduceCtorEq, Expr.call.injEq] at h
      exact .call h.1 (Expr.copy_of_bare h.2.1) (copyAll_of_bare h.2.2)
  | .array t elements =>
      cases e' <;> simp only [Expr.move, Expr.move_cond, reduceCtorEq, Expr.array.injEq] at h
      exact .array h.1 (copyAll_of_bare h.2)
  | .index t a b =>
      cases e' <;> simp only [Expr.move, Expr.move_cond, reduceCtorEq, Expr.index.injEq] at h
      exact .index h.1 (Expr.copy_of_bare h.2.1) (Expr.copy_of_bare h.2.2)
  | .hash t pairs =>
      cases e' <;> simp only [Expr.move, Expr.move_cond, reduceCtorEq, Expr.hash.injEq] at h
      exact .hash h.1 (copyPairs_of_bare h.2)

theorem copyAll_of_bare {list list' : List Expr}
    (h : moveAll (fun _ => .start) list' = moveAll (fun _ => .start) list) :
    CopyAll .placed list list' := by
  match list with
  | [] =>
      cases list' <;> simp [moveAll] at h
      exact .nil
  | e :: rest =>
      cases list' <;> simp [moveAll] at h
      exact .cons (Expr.copy_of_bare h.1) (copyAll_of_bare h.2)

theorem copyPairs_of_bare {pairs pairs' : List (Expr × Expr)}
    (h : movePairs (fun _ => .start) pairs' = movePairs (fun _ => .start) pairs) :
    CopyPairs .placed pairs pairs' := by
  match pairs with
  | [] =>
      cases pairs' <;> simp [movePairs] at h
      exact .nil
  | (key, value) :: rest =>
      cases pairs' <;> simp [movePairs] at h
      exact .cons (Expr.copy_of_bare h.1.1) (Expr.copy_of_bare h.1.2) (copyPairs_of_bare h.2)

theorem Stmt.copy_of_bare {s s' : Stmt}
    (h : (s'.move fun _ => .start) = s.move fun _ => .start) : s.Copy .placed s' := by
  match s with
  | .bind t name value =>
      cases s' <;> simp [Stmt.move_bind, Stmt.move_leave, Stmt.move_expr] at h
      exact .bind h.1 h.2.1 (Expr.copy_of_bare h.2.2)
  | .leave t none =>
      cases s' <;> simp [Stmt.move_bind, Stmt.move_leave, Stmt.move_expr] at h
      obtain ⟨ht, rfl⟩ := h
      exact .leave ht
  | .leave t (some value) =>
      cases s' <;> simp [Stmt.move_bind, Stmt.move_leave, Stmt.move_expr] at h
      obtain ⟨ht, _, rfl, hvalue⟩ := h
      exact .leaveWith ht (Expr.copy_of_bare hvalue)
  | .expr t value =>
      cases s' <;> simp [Stmt.move_bind, Stmt.move_leave, Stmt.move_expr] at h
      exact .expr h.1 (Expr.copy_of_bare h.2)

theorem copyStatements_of_bare {list list' : List Stmt}
    (h : moveStatements (fun _ => .start) list' = moveStatements (fun _ => .start) list) :
    CopyStatements .placed list list' := by
  match list with
  | [] =>
      cases list' <;> simp [moveStatements] at h
      exact .nil
  | s :: rest =>
      cases list' <;> simp [moveStatements] at h
      exact .cons (Stmt.copy_of_bare h.1) (copyStatements_of_bare h.2)

theorem Block.copy_of_bare {b b' : Block}
    (h : (b'.move fun _ => .start) = b.move fun _ => .start) : b.Copy .placed b' := by
  match b, b' with
  | .mk t list, .mk t' list' =>
      simp only [Block.move, Block.mk.injEq] at h
      exact .mk h.1 (copyStatements_of_bare h.2)

end

end MonkeyLang
