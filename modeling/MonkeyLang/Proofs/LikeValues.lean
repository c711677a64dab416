import MonkeyLang.Machine.Evaluator

/-!
# Values that are alike

Two values are alike when they differ in nothing but the functions in them: the same
numbers, texts and stamps at the same places, and functions that a given relation
holds between.  What may stand in them is given too: which built-in functions, and
which errors.

Operators, indexing and the built-in functions treat like values alike: their outcomes
are alike again, or are the same error.  They tell functions apart by their stamps and
show them by their texts, and never look into a frame.
-/

namespace MonkeyLang

/-- What a function is made of. -/
structure Closure where
  parameters : List Token
  body : Block
  frame : FrameId

/-- How values may differ and what they may hold. -/
structure Manner where
  closure : Closure → Closure → Prop
  /-- Values that leave a function may stand in values. -/
  returned : Prop
  error : RuntimeError → Prop
  builtin : BuiltinCode → Prop

mutual

/-- The values differ in the manner given. -/
inductive Value.Like (m : Manner) : Value → Value → Prop
  | integer (n : Int64) : Value.Like m (.integer n) (.integer n)
  | boolean (b : Bool) : Value.Like m (.boolean b) (.boolean b)
  | string (s : Text) : Value.Like m (.string s) (.string s)
  | null : Value.Like m .null .null
  | returned {stamp : Stamp} {v v' : Value} (hm : m.returned) (h : Value.Like m v v') :
      Value.Like m (.returned stamp v) (.returned stamp v')
  | error {cause : RuntimeError} (h : m.error cause) : Value.Like m (.error cause) (.error cause)
  | function {stamp : Stamp} {parameters parameters' : List Token} {body body' : Block}
      {frame frame' : FrameId}
      (h : m.closure ⟨parameters, body, frame⟩ ⟨parameters', body', frame'⟩) :
      Value.Like m (.function stamp parameters body frame)
        (.function stamp parameters' body' frame')
  | builtin {name : Text} {code : BuiltinCode} (h : m.builtin code) :
      Value.Like m (.builtin name code) (.builtin name code)
  | array {stamp : Stamp} {elements elements' : List Value} (h : AllLike m elements elements') :
      Value.Like m (.array stamp elements) (.array stamp elements')
  | hash {stamp : Stamp} {entries entries' : List (Key × Value)}
      (h : EntriesLike m entries entries') :
      Value.Like m (.hash stamp entries) (.hash stamp entries')

/-- As many values, each like its counterpart. -/
inductive AllLike (m : Manner) : List Value → List Value → Prop
  | nil : AllLike m [] []
  | cons {v v' : Value} {rest rest' : List Value} (h : Value.Like m v v')
      (hrest : AllLike m rest rest') : AllLike m (v :: rest) (v' :: rest')

/-- The same keys with like values. -/
inductive EntriesLike (m : Manner) : List (Key × Value) → List (Key × Value) → Prop
  | nil : EntriesLike m [] []
  | cons {key : Key} {v v' : Value} {rest rest' : List (Key × Value)} (h : Value.Like m v v')
      (hrest : EntriesLike m rest rest') : EntriesLike m ((key, v) :: rest) ((key, v') :: rest')

end

/-- What differs in one manner differs in the other. -/
structure Manner.Within (m n : Manner) : Prop where
  closure : ∀ c c', m.closure c c' → n.closure c c'
  returned : m.returned → n.returned
  error : ∀ cause, m.error cause → n.error cause
  builtin : ∀ code, m.builtin code → n.builtin code

mutual

theorem Value.Like.within {m n : Manner} (hm : m.Within n) {v v' : Value} (h : v.Like m v') :
    v.Like n v' := by
  match h with
  | .integer _ => exact .integer _
  | .boolean _ => exact .boolean _
  | .string _ => exact .string _
  | .null => exact .null
  | .returned hr h => exact .returned (hm.returned hr) (h.within hm)
  | .error h => exact .error (hm.error _ h)
  | .function h => exact .function (hm.closure _ _ h)
  | .builtin h => exact .builtin (hm.builtin _ h)
  | .array h => exact .array (h.within hm)
  | .hash h => exact .hash (h.within hm)

theorem AllLike.within {m n : Manner} (hm : m.Within n) {list list' : List Value}
    (h : AllLike m list list') : AllLike n list list' := by
  match h with
  | .nil => exact .nil
  | .cons h hrest => exact .cons (h.within hm) (hrest.within hm)

theorem EntriesLike.within {m n : Manner} (hm : m.Within n) {list list' : List (Key × Value)}
    (h : EntriesLike m list list') : EntriesLike n list list' := by
  match h with
  | .nil => exact .nil
  | .cons h hrest => exact .cons (h.within hm) (hrest.within hm)

end

/-- The values are alike, or they are the same error. -/
def Value.Given (m : Manner) (v v' : Value) : Prop :=
  v.Like m v' ∨ ∃ cause, v = .error cause ∧ v' = .error cause

theorem Value.Given.error {m : Manner} (cause : RuntimeError) :
    Value.Given m (.error cause) (.error cause) := Or.inr ⟨cause, rfl, rfl⟩

/-! ## Operators -/

namespace Value.Like

variable {m : Manner} {a a' b b' v v' : Value}

theorem given (h : v.Like m v') : v.Given m v' := Or.inl h

theorem kind_eq (h : v.Like m v') : v'.kind = v.kind := by
  cases h <;> rfl

theorem isTruthy_eq (h : v.Like m v') : v'.isTruthy = v.isTruthy := by
  cases h <;> rfl

theorem key?_eq (h : v.Like m v') : v'.key? = v.key? := by
  cases h <;> rfl

theorem landed (h : v.Like m v') : v.landed.Like m v'.landed := by
  cases h with
  | returned _ h => exact h
  | integer n => exact .integer n
  | boolean b => exact .boolean b
  | string s => exact .string s
  | null => exact .null
  | error h => exact .error h
  | function h => exact .function h
  | builtin h => exact .builtin h
  | array h => exact .array h
  | hash h => exact .hash h

/-- Values are told apart by what like values share. -/
theorem same_eq (ha : a.Like m a') (hb : b.Like m b') : a'.same b' = a.same b := by
  cases ha <;> cases hb <;> rfl

theorem unary (operator : Text) (h : v.Like m v') :
    (Value.unary operator v).Given m (Value.unary operator v') := by
  unfold Value.unary
  rw [h.isTruthy_eq, h.kind_eq]
  split
  · exact (boolean _).given
  · split
    · cases h <;> first | exact (integer _).given | exact Given.error _
    · exact Given.error _

/-- Arithmetic has the same outcome for the same numbers. -/
theorem arithmetic (operator : Text) (x y : Int64) :
    (Value.arithmetic operator x y).Given m (Value.arithmetic operator x y) := by
  unfold Value.arithmetic
  repeat' split
  all_goals first | exact (integer _).given | exact (boolean _).given | exact Given.error _

theorem concatenation (operator : Text) (x y : Text) :
    (Value.concatenation operator x y).Given m (Value.concatenation operator x y) := by
  unfold Value.concatenation
  split
  · exact (string _).given
  · exact Given.error _

theorem binary (operator : Text) (ha : a.Like m a') (hb : b.Like m b') :
    (Value.binary operator a b).Given m (Value.binary operator a' b') := by
  have hkinds : a'.kind = a.kind ∧ b'.kind = b.kind := ⟨ha.kind_eq, hb.kind_eq⟩
  unfold Value.binary
  rw [ha.same_eq hb, hkinds.1, hkinds.2]
  split
  · exact (boolean _).given
  · split
    · exact (boolean _).given
    · split
      · exact Given.error _
      · cases ha <;> cases hb <;>
          first
          | exact arithmetic _ _ _
          | exact concatenation _ _ _
          | exact Given.error _

end Value.Like

namespace AllLike

variable {m : Manner}

theorem length_eq {list list' : List Value} (h : AllLike m list list') :
    list'.length = list.length := by
  match h with
  | .nil => rfl
  | .cons _ hrest => rw [List.length_cons, List.length_cons, hrest.length_eq]

theorem getD {list list' : List Value} (h : AllLike m list list') (n : Nat) :
    (list.getD n .null).Like m (list'.getD n .null) := by
  match h, n with
  | .nil, _ => exact .null
  | .cons h _, 0 => exact h
  | .cons _ hrest, n + 1 => exact hrest.getD n

/-- The element at an index, null outside the array. -/
theorem element {list list' : List Value} (h : AllLike m list list') (i : Int64) :
    (Value.element list i).Like m (Value.element list' i) := by
  unfold Value.element
  split
  · exact .null
  · exact h.getD _

theorem concat {list list' : List Value} (h : AllLike m list list') {v v' : Value}
    (hv : v.Like m v') :
    AllLike m (list ++ [v]) (list' ++ [v']) := by
  match h with
  | .nil => exact .cons hv .nil
  | .cons h hrest => exact .cons h (hrest.concat hv)

theorem getLastD {list list' : List Value} (h : AllLike m list list') {v v' : Value}
    (hv : v.Like m v') :
    (list.getLastD v).Like m (list'.getLastD v') := by
  match h with
  | .nil => exact hv
  | .cons h hrest =>
      rw [List.getLastD_cons, List.getLastD_cons]
      exact hrest.getLastD h

end AllLike

namespace EntriesLike

variable {m : Manner}

theorem set {entries entries' : List (Key × Value)} (h : EntriesLike m entries entries')
    (key : Key) {v v' : Value} (hv : v.Like m v') :
    EntriesLike m (Table.set entries key v) (Table.set entries' key v') := by
  match h with
  | .nil => exact .cons hv .nil
  | .cons h hrest =>
      unfold Table.set
      dsimp only
      split
      · exact .cons hv hrest
      · exact .cons h (hrest.set key hv)

/-- The value of a key, null where there is none. -/
theorem get {entries entries' : List (Key × Value)} (h : EntriesLike m entries entries')
    (key : Key) :
    ((Table.get? entries key).getD .null).Like m ((Table.get? entries' key).getD .null) := by
  match h with
  | .nil => exact .null
  | .cons h hrest =>
      have hlater := hrest.get key
      unfold Table.get? at hlater ⊢
      simp only [List.find?_cons]
      split
      · exact h
      · exact hlater

end EntriesLike

theorem Value.Like.index {m : Manner} {a a' b b' : Value} (ha : a.Like m a') (hb : b.Like m b') :
    (Value.index a b).Given m (Value.index a' b') := by
  unfold Value.index
  cases ha with
  | array h =>
      cases hb with
      | integer i =>
          exact (h.element i).given
      | _ => exact Given.error _
  | hash h =>
      dsimp only
      rw [hb.key?_eq, hb.kind_eq]
      cases b.key? with
      | none => exact Given.error _
      | some key => exact (h.get key).given
  | _ => exact Given.error _

/-! ## Built-in functions -/

/-- Like values show alike, if functions do. -/
def Manner.Shows (m : Manner) : Prop :=
  ∀ c c', m.closure c c' → c'.body.render = c.body.render ∧
    c'.parameters.map Token.literal = c.parameters.map Token.literal

mutual

theorem Value.Like.inspect_eq {m : Manner} (hm : m.Shows) {v v' : Value} (h : v.Like m v') :
    v'.inspect = v.inspect := by
  match h with
  | .integer _ | .boolean _ | .string _ | .null | .error _ | .builtin _ => rfl
  | .returned _ h => rw [Value.inspect, Value.inspect, h.inspect_eq hm]
  | .function h =>
      obtain ⟨hbody, hparameters⟩ := hm _ _ h
      simp only at hbody hparameters
      rw [Value.inspect, Value.inspect, hbody, hparameters]
  | .array h => rw [Value.inspect, Value.inspect, h.inspectAll_eq hm]
  | .hash h => rw [Value.inspect, Value.inspect, h.inspectEntries_eq hm]

theorem AllLike.inspectAll_eq {m : Manner} (hm : m.Shows) {list list' : List Value}
    (h : AllLike m list list') : Value.inspectAll list' = Value.inspectAll list := by
  match h with
  | .nil => rfl
  | .cons h hrest =>
      rw [Value.inspectAll, Value.inspectAll, h.inspect_eq hm, hrest.inspectAll_eq hm]

theorem EntriesLike.inspectEntries_eq {m : Manner} (hm : m.Shows)
    {list list' : List (Key × Value)} (h : EntriesLike m list list') :
    Value.inspectEntries list' = Value.inspectEntries list := by
  match h with
  | .nil => rfl
  | .cons h hrest =>
      rw [Value.inspectEntries, Value.inspectEntries, h.inspect_eq hm,
        hrest.inspectEntries_eq hm]

end

/-- Two effects from the same start make values that differ in the manner given, or
the same error, and come to the same end. -/
def Effect.Alike (m : Manner) (x x' : Effect Value) : Prop :=
  ∀ e, (x e).1.Given m (x' e).1 ∧ (x' e).2 = (x e).2

namespace Effect.Alike

variable {m : Manner}

theorem value {v v' : Value} (h : v.Given m v') : Alike m (pure v) (pure v') :=
  fun _ => ⟨h, rfl⟩

theorem error (cause : RuntimeError) : Alike m (pure (.error cause)) (pure (.error cause)) :=
  value (Value.Given.error cause)

theorem newArray {list list' : List Value} (h : AllLike m list list') :
    Alike m (Effect.newArray list) (Effect.newArray list') :=
  fun _ => ⟨(Value.Like.array h).given, rfl⟩

end Effect.Alike

namespace CoreFunction

variable {m : Manner} {arguments arguments' : List Value}

/-- A function of one array that treats like arrays alike. -/
theorem onArray_alike (name : Text) {f : List Value → Effect Value}
    (hf : ∀ list list', AllLike m list list' → (f list).Alike m (f list'))
    (h : AllLike m arguments arguments') :
    (onArray name f arguments).Alike m (onArray name f arguments') := by
  cases h with
  | nil => exact Effect.Alike.error _
  | cons h hrest =>
      cases hrest with
      | nil =>
          cases h with
          | array helements => exact hf _ _ helements
          | _ => exact Effect.Alike.error _
      | cons _ hmore =>
          unfold onArray
          simp only [List.length_cons, hmore.length_eq]
          exact Effect.Alike.error _

theorem length_alike (h : AllLike m arguments arguments') :
    (length arguments).Alike m (length arguments') := by
  cases h with
  | nil => exact Effect.Alike.error _
  | cons h hrest =>
      cases hrest with
      | nil =>
          cases h with
          | string s => exact Effect.Alike.value (Value.Like.integer _).given
          | array helements =>
              unfold length
              simp only [helements.length_eq]
              exact Effect.Alike.value (Value.Like.integer _).given
          | _ => exact Effect.Alike.error _
      | cons _ hmore =>
          unfold length
          simp only [List.length_cons, hmore.length_eq]
          exact Effect.Alike.error _

theorem append_alike (h : AllLike m arguments arguments') :
    (append arguments).Alike m (append arguments') := by
  match h with
  | .nil => exact Effect.Alike.error _
  | .cons h .nil => cases h <;> exact Effect.Alike.error _
  | .cons h (.cons hvalue .nil) =>
      cases h with
      | array helements =>
          cases helements with
          | nil => exact Effect.Alike.value Value.Like.null.given
          | cons h hrest => exact Effect.Alike.newArray (.cons h (hrest.concat hvalue))
      | _ => exact Effect.Alike.error _
  | .cons _ (.cons _ (.cons _ hmore)) =>
      unfold append
      simp only [List.length_cons, hmore.length_eq]
      exact Effect.Alike.error _

/-- Like values are printed as the same lines. -/
theorem printLines_alike (hm : m.Shows) {arguments arguments' : List Value}
    (h : AllLike m arguments arguments') :
    (printLines arguments).Alike m (printLines arguments') := by
  intro e
  match h with
  | .nil => exact ⟨Value.Like.null.given, rfl⟩
  | .cons (v := v) h hrest =>
      unfold printLines
      rw [h.inspect_eq hm]
      exact printLines_alike hm hrest
        { e with printed := (v.inspect ++ [Text.newline]) :: e.printed }

/-- **The built-in functions treat like arguments alike.** -/
theorem run_alike (hm : m.Shows) (f : CoreFunction) (h : AllLike m arguments arguments') :
    (f.run arguments).Alike m (f.run arguments') := by
  cases f with
  | len => exact length_alike h
  | first =>
      refine onArray_alike "first" (fun list list' hlist => ?_) h
      cases hlist with
      | nil => exact Effect.Alike.value Value.Like.null.given
      | cons h _ => exact Effect.Alike.value h.given
  | last =>
      refine onArray_alike "last" (fun list list' hlist => ?_) h
      exact Effect.Alike.value (hlist.getLastD Value.Like.null).given
  | rest =>
      refine onArray_alike "rest" (fun list list' hlist => ?_) h
      cases hlist with
      | nil => exact Effect.Alike.value Value.Like.null.given
      | cons _ hrest => exact Effect.Alike.newArray hrest
  | push => exact append_alike h
  | puts => exact printLines_alike hm h

end CoreFunction

/-- All functions that a host has treat like arguments alike, if those supplied to it do. -/
theorem Host.native_alike {host : Host} {m : Manner} (hm : m.Shows)
    {arguments arguments' : List Value} (h : AllLike m arguments arguments')
    (hsupplied : ∀ f ∈ host.supplied, (f arguments).Alike m (f arguments'))
    (code : BuiltinCode) :
    (host.native code arguments).Alike m (host.native code arguments') := by
  cases code with
  | core f => exact CoreFunction.run_alike hm f h
  | supplied index =>
      unfold Host.native
      dsimp only
      rw [List.getD_eq_getElem?_getD]
      cases hf : host.supplied[index]? with
      | none => exact Effect.Alike.value Value.Like.null.given
      | some f => exact hsupplied f (List.mem_of_getElem? hf)

/-! ## Values like themselves -/

mutual

/-- The errors in a value, at any depth. -/
def Value.errors : Value → List RuntimeError
  | .integer _ | .boolean _ | .string _ | .null | .function .. | .builtin .. => []
  | .returned _ value => value.errors
  | .error cause => [cause]
  | .array _ elements => errorsOfAll elements
  | .hash _ entries => errorsOfEntries entries

/-- The errors in values. -/
def errorsOfAll : List Value → List RuntimeError
  | [] => []
  | value :: rest => value.errors ++ errorsOfAll rest

/-- The errors in the values of entries. -/
def errorsOfEntries : List (Key × Value) → List RuntimeError
  | [] => []
  | (_, value) :: rest => value.errors ++ errorsOfEntries rest

end

/-- All but errors is like itself. -/
structure Manner.Reflexive (m : Manner) : Prop where
  closure : ∀ c, m.closure c c
  returned : m.returned
  builtin : ∀ code, m.builtin code

mutual

/-- A value is like itself, if the errors in it may be there. -/
theorem Value.like_self {m : Manner} (hm : m.Reflexive) (v : Value)
    (h : ∀ cause ∈ v.errors, m.error cause) : v.Like m v := by
  match v with
  | .integer n => exact .integer n
  | .boolean b => exact .boolean b
  | .string s => exact .string s
  | .null => exact .null
  | .returned _ v => exact .returned hm.returned (v.like_self hm h)
  | .error cause => exact .error (h cause (List.mem_singleton_self cause))
  | .function _ parameters body frame => exact .function (hm.closure ⟨parameters, body, frame⟩)
  | .builtin _ code => exact .builtin (hm.builtin code)
  | .array _ elements => exact .array (allLike_self hm elements h)
  | .hash _ entries => exact .hash (entriesLike_self hm entries h)

theorem allLike_self {m : Manner} (hm : m.Reflexive) (list : List Value)
    (h : ∀ cause ∈ errorsOfAll list, m.error cause) : AllLike m list list := by
  match list with
  | [] => exact .nil
  | v :: rest =>
      rw [errorsOfAll, List.forall_mem_append] at h
      exact .cons (v.like_self hm h.1) (allLike_self hm rest h.2)

theorem entriesLike_self {m : Manner} (hm : m.Reflexive) (list : List (Key × Value))
    (h : ∀ cause ∈ errorsOfEntries list, m.error cause) : EntriesLike m list list := by
  match list with
  | [] => exact .nil
  | (_, v) :: rest =>
      rw [errorsOfEntries, List.forall_mem_append] at h
      exact .cons (v.like_self hm h.1) (entriesLike_self hm rest h.2)

end

mutual

/-- Only those errors are in a value that may be there. -/
theorem Value.Like.error_of_mem {m : Manner} {v v' : Value} (h : v.Like m v') :
    ∀ cause ∈ v.errors, m.error cause := by
  match h with
  | .integer _ | .boolean _ | .string _ | .null | .function _ | .builtin _ =>
      intro cause hcause
      cases hcause
  | .returned _ h => exact h.error_of_mem
  | .error h =>
      intro cause hcause
      rw [List.mem_singleton.1 hcause]
      exact h
  | .array h => exact h.error_of_mem
  | .hash h => exact h.error_of_mem

theorem AllLike.error_of_mem {m : Manner} {list list' : List Value} (h : AllLike m list list') :
    ∀ cause ∈ errorsOfAll list, m.error cause := by
  match h with
  | .nil =>
      intro cause hcause
      cases hcause
  | .cons h hrest =>
      rw [errorsOfAll, List.forall_mem_append]
      exact ⟨h.error_of_mem, hrest.error_of_mem⟩

theorem EntriesLike.error_of_mem {m : Manner} {list list' : List (Key × Value)}
    (h : EntriesLike m list list') : ∀ cause ∈ errorsOfEntries list, m.error cause := by
  match h with
  | .nil =>
      intro cause hcause
      cases hcause
  | .cons h hrest =>
      rw [errorsOfEntries, List.forall_mem_append]
      exact ⟨h.error_of_mem, hrest.error_of_mem⟩

end

/-- Like functions are the same. -/
def Manner.Exact (m : Manner) : Prop := ∀ c c', m.closure c c' → c' = c

mutual

/-- Like values are the same, if like functions are. -/
theorem Value.Like.eq {m : Manner} (hm : m.Exact) {v v' : Value} (h : v.Like m v') : v' = v := by
  match h with
  | .integer _ | .boolean _ | .string _ | .null | .error _ | .builtin _ => rfl
  | .returned _ h => rw [h.eq hm]
  | .function h =>
      cases hm _ _ h
      rfl
  | .array h => rw [h.eq hm]
  | .hash h => rw [h.eq hm]

theorem AllLike.eq {m : Manner} (hm : m.Exact) {list list' : List Value}
    (h : AllLike m list list') : list' = list := by
  match h with
  | .nil => rfl
  | .cons h hrest => rw [h.eq hm, hrest.eq hm]

theorem EntriesLike.eq {m : Manner} (hm : m.Exact) {list list' : List (Key × Value)}
    (h : EntriesLike m list list') : list' = list := by
  match h with
  | .nil => rfl
  | .cons h hrest => rw [h.eq hm, hrest.eq hm]

end

theorem Value.Given.eq {m : Manner} (hm : m.Exact) {v v' : Value} (h : v.Given m v') : v' = v := by
  rcases h with h | ⟨cause, rfl, rfl⟩
  · exact h.eq hm
  · rfl

/-! ## Bindings -/

/-- The same names in the same order, bound to like values. -/
inductive BindingsLike (m : Manner) : List (Text × Value) → List (Text × Value) → Prop
  | nil : BindingsLike m [] []
  | cons {name : Text} {v v' : Value} {rest rest' : List (Text × Value)} (h : v.Like m v')
      (hrest : BindingsLike m rest rest') : BindingsLike m ((name, v) :: rest) ((name, v') :: rest')

namespace BindingsLike

variable {m n : Manner}

theorem within (hm : m.Within n) {list list' : List (Text × Value)}
    (h : BindingsLike m list list') : BindingsLike n list list' := by
  induction h with
  | nil => exact nil
  | cons h _ ih => exact cons (h.within hm) ih

/-- The name is bound in both to like values, or in none. -/
theorem lookup {list list' : List (Text × Value)} (h : BindingsLike m list list') (name : Text) :
    Option.Rel (Value.Like m) (list.lookup name) (list'.lookup name) := by
  induction h with
  | nil => exact .none
  | cons h _ ih =>
      simp only [List.lookup_cons]
      split
      · exact .some h
      · exact ih

theorem rebind {list list' : List (Text × Value)} (h : BindingsLike m list list') (name : Text)
    {v v' : Value} (hv : v.Like m v') :
    BindingsLike m (Frame.rebind name v list) (Frame.rebind name v' list') := by
  induction h with
  | nil => exact cons hv nil
  | cons h hrest ih =>
      unfold Frame.rebind
      split
      · exact cons hv hrest
      · exact cons h ih

theorem eq (hm : m.Exact) {list list' : List (Text × Value)} (h : BindingsLike m list list') :
    list' = list := by
  induction h with
  | nil => rfl
  | cons h _ ih => rw [h.eq hm, ih]

end BindingsLike

/-- Bindings are like themselves, if the values in them are. -/
theorem bindingsLike_self {m : Manner} {list : List (Text × Value)}
    (h : ∀ binding ∈ list, binding.2.Like m binding.2) : BindingsLike m list list := by
  induction list with
  | nil => exact .nil
  | cons binding rest ih =>
      rw [List.forall_mem_cons] at h
      exact .cons h.1 (ih h.2)

end MonkeyLang
