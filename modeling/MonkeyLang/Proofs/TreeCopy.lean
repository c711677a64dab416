import MonkeyLang.Tree.Basic

/-!
# Copies of trees

A tree is a copy of another one when the two differ in their tokens alone, and in these
only as a spelling allows: one relation for the tokens of names, one for all others.
With a spelling that allows no difference a copy is the tree itself.  A tree is a copy of
itself when its names may stand as they are.
-/

namespace MonkeyLang

/-- How the tokens of two trees may differ: those of names, and all others. -/
structure Spelling where
  name : Token → Token → Prop
  mark : Token → Token → Prop

/-- As many names, each a copy of its counterpart. -/
inductive CopyNames (c : Spelling) : List Token → List Token → Prop
  | nil : CopyNames c [] []
  | cons {t t' : Token} {rest rest' : List Token} (h : c.name t t')
      (hrest : CopyNames c rest rest') : CopyNames c (t :: rest) (t' :: rest')

mutual

/-- Expressions that differ in their tokens alone. -/
inductive Expr.Copy (c : Spelling) : Expr → Expr → Prop
  | ident {t t' : Token} (h : c.name t t') : Expr.Copy c (.ident t) (.ident t')
  | int {t t' : Token} (h : c.mark t t') (value : Int64) :
      Expr.Copy c (.int t value) (.int t' value)
  | string {t t' : Token} (h : c.mark t t') : Expr.Copy c (.string t) (.string t')
  | bool {t t' : Token} (h : c.mark t t') (value : Bool) :
      Expr.Copy c (.bool t value) (.bool t' value)
  | unary {t t' : Token} {a a' : Expr} (h : c.mark t t') (ha : Expr.Copy c a a') :
      Expr.Copy c (.unary t a) (.unary t' a')
  | binary {t t' : Token} {a a' b b' : Expr} (h : c.mark t t') (ha : Expr.Copy c a a')
      (hb : Expr.Copy c b b') : Expr.Copy c (.binary t a b) (.binary t' a' b')
  | cond {t t' : Token} {test test' : Expr} {yes yes' : Block} (h : c.mark t t')
      (htest : Expr.Copy c test test') (hyes : Block.Copy c yes yes') :
      Expr.Copy c (.cond t test yes none) (.cond t' test' yes' none)
  | condElse {t t' : Token} {test test' : Expr} {yes yes' no no' : Block} (h : c.mark t t')
      (htest : Expr.Copy c test test') (hyes : Block.Copy c yes yes') (hno : Block.Copy c no no') :
      Expr.Copy c (.cond t test yes (some no)) (.cond t' test' yes' (some no'))
  | function {t t' : Token} {names names' : List Token} {body body' : Block} (h : c.mark t t')
      (hnames : CopyNames c names names') (hbody : Block.Copy c body body') :
      Expr.Copy c (.function t names body) (.function t' names' body')
  | call {t t' : Token} {callee callee' : Expr} {arguments arguments' : List Expr}
      (h : c.mark t t') (hcallee : Expr.Copy c callee callee')
      (harguments : CopyAll c arguments arguments') :
      Expr.Copy c (.call t callee arguments) (.call t' callee' arguments')
  | array {t t' : Token} {elements elements' : List Expr} (h : c.mark t t')
      (helements : CopyAll c elements elements') :
      Expr.Copy c (.array t elements) (.array t' elements')
  | index {t t' : Token} {a a' b b' : Expr} (h : c.mark t t') (ha : Expr.Copy c a a')
      (hb : Expr.Copy c b b') : Expr.Copy c (.index t a b) (.index t' a' b')
  | hash {t t' : Token} {pairs pairs' : List (Expr × Expr)} (h : c.mark t t')
      (hpairs : CopyPairs c pairs pairs') : Expr.Copy c (.hash t pairs) (.hash t' pairs')

inductive CopyAll (c : Spelling) : List Expr → List Expr → Prop
  | nil : CopyAll c [] []
  | cons {e e' : Expr} {rest rest' : List Expr} (h : Expr.Copy c e e')
      (hrest : CopyAll c rest rest') : CopyAll c (e :: rest) (e' :: rest')

inductive CopyPairs (c : Spelling) : List (Expr × Expr) → List (Expr × Expr) → Prop
  | nil : CopyPairs c [] []
  | cons {key key' value value' : Expr} {rest rest' : List (Expr × Expr)}
      (hkey : Expr.Copy c key key') (hvalue : Expr.Copy c value value')
      (hrest : CopyPairs c rest rest') :
      CopyPairs c ((key, value) :: rest) ((key', value') :: rest')

inductive Stmt.Copy (c : Spelling) : Stmt → Stmt → Prop
  | bind {t t' name name' : Token} {value value' : Expr} (h : c.mark t t')
      (hname : c.name name name') (hvalue : Expr.Copy c value value') :
      Stmt.Copy c (.bind t name value) (.bind t' name' value')
  | leave {t t' : Token} (h : c.mark t t') : Stmt.Copy c (.leave t none) (.leave t' none)
  | leaveWith {t t' : Token} {value value' : Expr} (h : c.mark t t')
      (hvalue : Expr.Copy c value value') :
      Stmt.Copy c (.leave t (some value)) (.leave t' (some value'))
  | expr {t t' : Token} {value value' : Expr} (h : c.mark t t')
      (hvalue : Expr.Copy c value value') : Stmt.Copy c (.expr t value) (.expr t' value')

inductive CopyStatements (c : Spelling) : List Stmt → List Stmt → Prop
  | nil : CopyStatements c [] []
  | cons {s s' : Stmt} {rest rest' : List Stmt} (h : Stmt.Copy c s s')
      (hrest : CopyStatements c rest rest') : CopyStatements c (s :: rest) (s' :: rest')

inductive Block.Copy (c : Spelling) : Block → Block → Prop
  | mk {t t' : Token} {statements statements' : List Stmt} (h : c.mark t t')
      (hstatements : CopyStatements c statements statements') :
      Block.Copy c (.mk t statements) (.mk t' statements')

end

theorem CopyNames.length_eq {c : Spelling} {names names' : List Token}
    (h : CopyNames c names names') : names'.length = names.length := by
  induction h with
  | nil => rfl
  | cons _ _ ih => rw [List.length_cons, List.length_cons, ih]

/-- The spelling allows no difference. -/
structure Spelling.Exact (c : Spelling) : Prop where
  name : ∀ {t t'}, c.name t t' → t' = t
  mark : ∀ {t t'}, c.mark t t' → t' = t

theorem CopyNames.eq_of_exact {c : Spelling} (hc : c.Exact) {names names' : List Token}
    (h : CopyNames c names names') : names' = names := by
  induction h with
  | nil => rfl
  | cons h _ ih => rw [hc.name h, ih]

mutual

/-- A copy without differences is the tree itself. -/
theorem Expr.Copy.eq_of_exact {c : Spelling} (hc : c.Exact) {e e' : Expr} (h : e.Copy c e') :
    e' = e := by
  match h with
  | .ident ht => rw [hc.name ht]
  | .int ht _ => rw [hc.mark ht]
  | .string ht => rw [hc.mark ht]
  | .bool ht _ => rw [hc.mark ht]
  | .unary ht ha => rw [hc.mark ht, ha.eq_of_exact hc]
  | .binary ht ha hb => rw [hc.mark ht, ha.eq_of_exact hc, hb.eq_of_exact hc]
  | .cond ht htest hyes => rw [hc.mark ht, htest.eq_of_exact hc, hyes.eq_of_exact hc]
  | .condElse ht htest hyes hno =>
      rw [hc.mark ht, htest.eq_of_exact hc, hyes.eq_of_exact hc, hno.eq_of_exact hc]
  | .function ht hnames hbody =>
      rw [hc.mark ht, hnames.eq_of_exact hc, hbody.eq_of_exact hc]
  | .call ht hcallee harguments =>
      rw [hc.mark ht, hcallee.eq_of_exact hc, harguments.eq_of_exact hc]
  | .array ht helements => rw [hc.mark ht, helements.eq_of_exact hc]
  | .index ht ha hb => rw [hc.mark ht, ha.eq_of_exact hc, hb.eq_of_exact hc]
  | .hash ht hpairs => rw [hc.mark ht, hpairs.eq_of_exact hc]

theorem CopyAll.eq_of_exact {c : Spelling} (hc : c.Exact) {es es' : List Expr}
    (h : CopyAll c es es') : es' = es := by
  match h with
  | .nil => rfl
  | .cons h hrest => rw [h.eq_of_exact hc, hrest.eq_of_exact hc]

theorem CopyPairs.eq_of_exact {c : Spelling} (hc : c.Exact) {pairs pairs' : List (Expr × Expr)}
    (h : CopyPairs c pairs pairs') : pairs' = pairs := by
  match h with
  | .nil => rfl
  | .cons hkey hvalue hrest =>
      rw [hkey.eq_of_exact hc, hvalue.eq_of_exact hc, hrest.eq_of_exact hc]

theorem Stmt.Copy.eq_of_exact {c : Spelling} (hc : c.Exact) {s s' : Stmt} (h : s.Copy c s') :
    s' = s := by
  match h with
  | .bind ht hname hvalue => rw [hc.mark ht, hc.name hname, hvalue.eq_of_exact hc]
  | .leave ht => rw [hc.mark ht]
  | .leaveWith ht hvalue => rw [hc.mark ht, hvalue.eq_of_exact hc]
  | .expr ht hvalue => rw [hc.mark ht, hvalue.eq_of_exact hc]

theorem CopyStatements.eq_of_exact {c : Spelling} (hc : c.Exact) {list list' : List Stmt}
    (h : CopyStatements c list list') : list' = list := by
  match h with
  | .nil => rfl
  | .cons h hrest => rw [h.eq_of_exact hc, hrest.eq_of_exact hc]

theorem Block.Copy.eq_of_exact {c : Spelling} (hc : c.Exact) {b b' : Block} (h : b.Copy c b') :
    b' = b := by
  match h with
  | .mk ht hstatements => rw [hc.mark ht, hstatements.eq_of_exact hc]

end

/-- The tokens are the same. -/
def Spelling.same : Spelling := ⟨Eq, Eq⟩

theorem Spelling.same_exact : Spelling.same.Exact := ⟨Eq.symm, Eq.symm⟩

theorem CopyNames.eq {names names' : List Token} (h : CopyNames .same names names') :
    names' = names := h.eq_of_exact Spelling.same_exact

theorem Block.Copy.eq {b b' : Block} (h : b.Copy .same b') : b' = b :=
  h.eq_of_exact Spelling.same_exact

/-! ## A tree as its own copy -/

mutual

/-- The tokens of the names in an expression: those used, bound and taken as
parameters. -/
def Expr.names : Expr → List Token
  | .ident t => [t]
  | .int _ _ | .string _ | .bool _ _ => []
  | .unary _ operand => operand.names
  | .binary _ left right => left.names ++ right.names
  | .cond _ test consequence none => test.names ++ consequence.names
  | .cond _ test consequence (some alternative) =>
    test.names ++ consequence.names ++ alternative.names
  | .function _ parameters body => parameters ++ body.names
  | .call _ callee arguments => callee.names ++ namesOfAll arguments
  | .array _ elements => namesOfAll elements
  | .index _ collection key => collection.names ++ key.names
  | .hash _ pairs => namesOfPairs pairs

/-- The names in expressions. -/
def namesOfAll : List Expr → List Token
  | [] => []
  | e :: rest => e.names ++ namesOfAll rest

/-- The names in the entries of a hash literal. -/
def namesOfPairs : List (Expr × Expr) → List Token
  | [] => []
  | (key, value) :: rest => key.names ++ value.names ++ namesOfPairs rest

/-- The names in a statement. -/
def Stmt.names : Stmt → List Token
  | .bind _ name value => name :: value.names
  | .leave _ none => []
  | .leave _ (some value) => value.names
  | .expr _ value => value.names

/-- The names in statements. -/
def namesOfStatements : List Stmt → List Token
  | [] => []
  | s :: rest => s.names ++ namesOfStatements rest

/-- The names in a block. -/
def Block.names : Block → List Token
  | .mk _ statements => namesOfStatements statements

end

/-- The names in a program. -/
def Program.names (p : Program) : List Token := namesOfStatements p.statements

theorem copyNames_self {c : Spelling} {names : List Token} (h : ∀ t ∈ names, c.name t t) :
    CopyNames c names names := by
  induction names with
  | nil => exact .nil
  | cons t rest ih =>
      rw [List.forall_mem_cons] at h
      exact .cons h.1 (ih h.2)

mutual

/-- A tree is a copy of itself, if its names are. -/
theorem Expr.copy_self {c : Spelling} (hc : ∀ t, c.mark t t) (e : Expr)
    (h : ∀ t ∈ e.names, c.name t t) : e.Copy c e := by
  match e with
  | .ident t => exact .ident (h t (List.mem_singleton_self t))
  | .int _ value => exact .int (hc _) value
  | .string _ => exact .string (hc _)
  | .bool _ value => exact .bool (hc _) value
  | .unary _ a => exact .unary (hc _) (a.copy_self hc h)
  | .binary _ a b =>
      rw [Expr.names, List.forall_mem_append] at h
      exact .binary (hc _) (a.copy_self hc h.1) (b.copy_self hc h.2)
  | .cond _ test yes none =>
      rw [Expr.names, List.forall_mem_append] at h
      exact .cond (hc _) (test.copy_self hc h.1) (yes.copy_self hc h.2)
  | .cond _ test yes (some no) =>
      rw [Expr.names, List.forall_mem_append, List.forall_mem_append] at h
      exact .condElse (hc _) (test.copy_self hc h.1.1) (yes.copy_self hc h.1.2)
        (no.copy_self hc h.2)
  | .function _ names body =>
      rw [Expr.names, List.forall_mem_append] at h
      exact .function (hc _) (copyNames_self h.1) (body.copy_self hc h.2)
  | .call _ callee arguments =>
      rw [Expr.names, List.forall_mem_append] at h
      exact .call (hc _) (callee.copy_self hc h.1) (copyAll_self hc arguments h.2)
  | .array _ elements => exact .array (hc _) (copyAll_self hc elements h)
  | .index _ a b =>
      rw [Expr.names, List.forall_mem_append] at h
      exact .index (hc _) (a.copy_self hc h.1) (b.copy_self hc h.2)
  | .hash _ pairs => exact .hash (hc _) (copyPairs_self hc pairs h)

theorem copyAll_self {c : Spelling} (hc : ∀ t, c.mark t t) (es : List Expr)
    (h : ∀ t ∈ namesOfAll es, c.name t t) : CopyAll c es es := by
  match es with
  | [] => exact .nil
  | e :: rest =>
      rw [namesOfAll, List.forall_mem_append] at h
      exact .cons (e.copy_self hc h.1) (copyAll_self hc rest h.2)

theorem copyPairs_self {c : Spelling} (hc : ∀ t, c.mark t t) (pairs : List (Expr × Expr))
    (h : ∀ t ∈ namesOfPairs pairs, c.name t t) : CopyPairs c pairs pairs := by
  match pairs with
  | [] => exact .nil
  | (key, value) :: rest =>
      rw [namesOfPairs, List.forall_mem_append, List.forall_mem_append] at h
      exact .cons (key.copy_self hc h.1.1) (value.copy_self hc h.1.2) (copyPairs_self hc rest h.2)

theorem Stmt.copy_self {c : Spelling} (hc : ∀ t, c.mark t t) (s : Stmt)
    (h : ∀ t ∈ s.names, c.name t t) : s.Copy c s := by
  match s with
  | .bind _ name value =>
      rw [Stmt.names, List.forall_mem_cons] at h
      exact .bind (hc _) h.1 (value.copy_self hc h.2)
  | .leave _ none => exact .leave (hc _)
  | .leave _ (some value) => exact .leaveWith (hc _) (value.copy_self hc h)
  | .expr _ value => exact .expr (hc _) (value.copy_self hc h)

theorem copyStatements_self {c : Spelling} (hc : ∀ t, c.mark t t) (list : List Stmt)
    (h : ∀ t ∈ namesOfStatements list, c.name t t) : CopyStatements c list list := by
  match list with
  | [] => exact .nil
  | s :: rest =>
      rw [namesOfStatements, List.forall_mem_append] at h
      exact .cons (s.copy_self hc h.1) (copyStatements_self hc rest h.2)

theorem Block.copy_self {c : Spelling} (hc : ∀ t, c.mark t t) (b : Block)
    (h : ∀ t ∈ b.names, c.name t t) : b.Copy c b := by
  match b with
  | .mk _ statements => exact .mk (hc _) (copyStatements_self hc statements h)

end

theorem copyNames_refl (names : List Token) : CopyNames .same names names :=
  copyNames_self fun _ _ => rfl

theorem Block.copy_refl (b : Block) : b.Copy .same b :=
  b.copy_self (fun _ => rfl) fun _ _ => rfl

theorem copyStatements_refl (list : List Stmt) : CopyStatements .same list list :=
  copyStatements_self (fun _ => rfl) list fun _ _ => rfl

end MonkeyLang
