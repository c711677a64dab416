import Mathlib.Data.Int.ModEq
import MonkeyLang.Proofs.RunSteps

/-!
# Integer expressions in two's complement

An expression over integers is evaluated in words of 64 bits, and every result on the way
is wrapped into their range.  `Expr.Exact` gives the integer such an expression stands for,
`Expr.Computes` the integer it is evaluated to, with every result wrapped.

Sums, differences, products and the minus sign pass congruences on, so without a division
the two are congruent.  A division does not: what counts are the wrapped operands, and
whether the wrapped divisor of a division that is reached from left to right is zero.
-/

namespace MonkeyLang

/-! ## Words -/

/-- The integer in the range of words of 64 bits that is congruent to the given one. -/
def wrap (x : Int) : Int := x.bmod (2 ^ 64)

theorem wrap_modEq (x : Int) : wrap x ≡ x [ZMOD 2 ^ 64] := Int.bmod_emod

/-- The operators that are exact up to multiples of the number of words. -/
def exactOperators : List (Text × (Int → Int → Int)) :=
  [("+", fun x y => x + y), ("-", fun x y => x - y), ("*", fun x y => x * y)]

/-- The operators pass congruences on. -/
theorem modEq_of_mem_exactOperators {operator : Text} {f : Int → Int → Int}
    (h : (operator, f) ∈ exactOperators) {n x x' y y' : Int} (hx : x ≡ x' [ZMOD n])
    (hy : y ≡ y' [ZMOD n]) : f x y ≡ f x' y' [ZMOD n] := by
  simp only [exactOperators, List.mem_cons, Prod.mk.injEq, List.not_mem_nil, or_false] at h
  obtain ⟨_, rfl⟩ | ⟨_, rfl⟩ | ⟨_, rfl⟩ := h
  · exact hx.add hy
  · exact hx.sub hy
  · exact hx.mul hy

/-- On words, the operators give the wrapped result. -/
theorem Value.binary_of_mem_exactOperators {operator : Text} {f : Int → Int → Int}
    (h : (operator, f) ∈ exactOperators) (m n : Int64) :
    ∃ r : Int64, Value.binary operator (.integer m) (.integer n) = .integer r ∧
      r.toInt = wrap (f m.toInt n.toInt) := by
  simp only [exactOperators, List.mem_cons, Prod.mk.injEq, List.not_mem_nil, or_false] at h
  obtain ⟨rfl, rfl⟩ | ⟨rfl, rfl⟩ | ⟨rfl, rfl⟩ := h
  · exact ⟨m + n, rfl, Int64.toInt_add m n⟩
  · exact ⟨m - n, rfl, Int64.toInt_sub m n⟩
  · exact ⟨m * n, rfl, Int64.toInt_mul m n⟩

/-- A quotient of words goes towards zero and is wrapped. -/
theorem Value.binary_quotient {m n : Int64} (h : n.toInt ≠ 0) :
    ∃ r : Int64, Value.binary "/" (.integer m) (.integer n) = .integer r ∧
      r.toInt = wrap (m.toInt.tdiv n.toInt) := by
  have hn : n ≠ 0 := by
    rintro rfl
    exact h rfl
  refine ⟨m / n, ?_, Int64.toInt_div m n⟩
  change (if n = 0 then Value.error .divisionByZero else .integer (m / n)) = _
  rw [if_neg hn]

theorem Value.binary_quotient_zero {m n : Int64} (h : n.toInt = 0) :
    Value.binary "/" (.integer m) (.integer n) = .error .divisionByZero := by
  have hn : n = 0 := Int64.toInt_inj.1 h
  subst hn
  rfl

/-! ## Integer expressions -/

namespace Expr

/-- The expression is made of integers, minus signs and the exact operators, and stands for
the integer. -/
inductive Exact : Expr → Int → Prop
  | int (t : Token) (n : Int64) : Exact (.int t n) n.toInt
  | negation {t : Token} {a : Expr} {x : Int} (h : t.literal = ("-" : Text)) (ha : a.Exact x) :
      Exact (.unary t a) (-x)
  | operation {t : Token} {a b : Expr} {x y : Int} {f : Int → Int → Int}
      (h : (t.literal, f) ∈ exactOperators) (ha : a.Exact x) (hb : b.Exact y) :
      Exact (.binary t a b) (f x y)

/-- The expression is made of integers, minus signs, the exact operators and divisions. -/
inductive Arithmetic : Expr → Prop
  | int (t : Token) (n : Int64) : Arithmetic (.int t n)
  | negation {t : Token} {a : Expr} (h : t.literal = ("-" : Text)) (ha : a.Arithmetic) :
      Arithmetic (.unary t a)
  | operation {t : Token} {a b : Expr} (h : t.literal ∈ [("+" : Text), "-", "*", "/"])
      (ha : a.Arithmetic) (hb : b.Arithmetic) : Arithmetic (.binary t a b)

/-- With every result wrapped, the expression gives the integer. -/
inductive Computes : Expr → Int → Prop
  | int (t : Token) (n : Int64) : Computes (.int t n) n.toInt
  | negation {t : Token} {a : Expr} {x : Int} (h : t.literal = ("-" : Text))
      (ha : a.Computes x) : Computes (.unary t a) (wrap (-x))
  | operation {t : Token} {a b : Expr} {x y : Int} {f : Int → Int → Int}
      (h : (t.literal, f) ∈ exactOperators) (ha : a.Computes x) (hb : b.Computes y) :
      Computes (.binary t a b) (wrap (f x y))
  | quotient {t : Token} {a b : Expr} {x y : Int} (h : t.literal = ("/" : Text))
      (ha : a.Computes x) (hb : b.Computes y) (hy : y ≠ 0) :
      Computes (.binary t a b) (wrap (x.tdiv y))

/-- From left to right, a division is reached whose wrapped divisor is zero. -/
inductive ReachesZero : Expr → Prop
  | here {t : Token} {a b : Expr} {x : Int} (h : t.literal = ("/" : Text)) (ha : a.Computes x)
      (hb : b.Computes 0) : ReachesZero (.binary t a b)
  | operand {t : Token} {a : Expr} (ha : a.ReachesZero) : ReachesZero (.unary t a)
  | left {t : Token} {a b : Expr} (ha : a.ReachesZero) : ReachesZero (.binary t a b)
  | right {t : Token} {a b : Expr} {x : Int} (ha : a.Computes x) (hb : b.ReachesZero) :
      ReachesZero (.binary t a b)

/-- Without a division, what is computed is congruent to the exact integer. -/
theorem Exact.exists_computes {e : Expr} {x : Int} (h : e.Exact x) :
    ∃ y, e.Computes y ∧ y ≡ x [ZMOD 2 ^ 64] := by
  induction h with
  | int t n => exact ⟨n.toInt, .int t n, Int.ModEq.refl _⟩
  | negation h _ ih =>
      obtain ⟨y, hy, hmod⟩ := ih
      exact ⟨wrap (-y), .negation h hy, (wrap_modEq _).trans hmod.neg⟩
  | @operation t a b x y f h _ _ iha ihb =>
      obtain ⟨x', hx, hmodx⟩ := iha
      obtain ⟨y', hy, hmody⟩ := ihb
      have hmod : f x' y' ≡ f x y [ZMOD 2 ^ 64] := modEq_of_mem_exactOperators h hmodx hmody
      exact ⟨wrap (f x' y'), .operation h hx hy, (wrap_modEq _).trans hmod⟩

theorem exactOperator_or_quotient {operator : Text}
    (h : operator ∈ [("+" : Text), "-", "*", "/"]) :
    (∃ f, (operator, f) ∈ exactOperators) ∨ operator = "/" := by
  simp only [List.mem_cons, List.not_mem_nil, or_false] at h
  obtain rfl | rfl | rfl | rfl := h
  · exact Or.inl ⟨_, List.mem_cons_self⟩
  · exact Or.inl ⟨_, List.mem_cons_of_mem _ List.mem_cons_self⟩
  · exact Or.inl ⟨_, List.mem_cons_of_mem _ (List.mem_cons_of_mem _ List.mem_cons_self)⟩
  · exact Or.inr rfl

/-- An expression with divisions gives an integer, or a zero divisor is reached. -/
theorem Arithmetic.computes_or_reachesZero {e : Expr} (h : e.Arithmetic) :
    (∃ x, e.Computes x) ∨ e.ReachesZero := by
  induction h with
  | int t n => exact Or.inl ⟨n.toInt, .int t n⟩
  | negation h _ ih =>
      obtain ⟨x, hx⟩ | hzero := ih
      · exact Or.inl ⟨_, .negation h hx⟩
      · exact Or.inr (.operand hzero)
  | operation h _ _ iha ihb =>
      obtain ⟨x, hx⟩ | hzero := iha
      · obtain ⟨y, hy⟩ | hzero := ihb
        · obtain ⟨f, hf⟩ | hdivide := exactOperator_or_quotient h
          · exact Or.inl ⟨_, .operation hf hx hy⟩
          · by_cases hzero : y = 0
            · exact Or.inr (.here hdivide hx (hzero ▸ hy))
            · exact Or.inl ⟨_, .quotient hdivide hx hy hzero⟩
        · exact Or.inr (.right hx hzero)
      · exact Or.inr (.left hzero)

/-! ## Evaluation -/

section Evaluation

variable {t : Token} {a b e : Expr} {call : Call} {frame : FrameId} {s : State}

theorem eval_int (t : Token) (n : Int64) :
    (Expr.int t n).eval call frame s = some (.integer n, s) := by
  rw [Expr.eval]
  rfl

theorem eval_unary_integer {n : Int64} (ha : a.eval call frame s = some (.integer n, s)) :
    (Expr.unary t a).eval call frame s = some (Value.unary t.literal (.integer n), s) := by
  rw [Expr.eval, Run.onValue_run_of_value ha rfl]
  rfl

theorem eval_binary_integers {m n : Int64} (ha : a.eval call frame s = some (.integer m, s))
    (hb : b.eval call frame s = some (.integer n, s)) :
    (Expr.binary t a b).eval call frame s =
      some (Value.binary t.literal (.integer m) (.integer n), s) := by
  rw [Expr.eval, Run.onValue_run_of_value ha rfl, Run.onValue_run_of_value hb rfl]
  rfl

/-- What the expression computes is what it is evaluated to. -/
theorem Computes.eval {x : Int} (h : e.Computes x) (call : Call) (frame : FrameId) (s : State) :
    ∃ n : Int64, n.toInt = x ∧ e.eval call frame s = some (.integer n, s) := by
  induction h with
  | int t n => exact ⟨n, rfl, eval_int t n⟩
  | negation h _ ih =>
      obtain ⟨n, rfl, ha⟩ := ih
      refine ⟨-n, Int64.toInt_neg n, ?_⟩
      rw [eval_unary_integer ha, h]
      rfl
  | operation h _ _ iha ihb =>
      obtain ⟨m, rfl, ha⟩ := iha
      obtain ⟨n, rfl, hb⟩ := ihb
      obtain ⟨r, hvalue, hr⟩ := Value.binary_of_mem_exactOperators h m n
      exact ⟨r, hr, by rw [eval_binary_integers ha hb, hvalue]⟩
  | quotient h _ _ hy iha ihb =>
      obtain ⟨m, rfl, ha⟩ := iha
      obtain ⟨n, rfl, hb⟩ := ihb
      obtain ⟨r, hvalue, hr⟩ := Value.binary_quotient (m := m) hy
      exact ⟨r, hr, by rw [eval_binary_integers ha hb, h, hvalue]⟩

/-- A zero divisor that is reached is the end. -/
theorem ReachesZero.eval (h : e.ReachesZero) :
    e.eval call frame s = some (.error .divisionByZero, s) := by
  induction h with
  | here h ha hb =>
      obtain ⟨m, _, ha⟩ := ha.eval call frame s
      obtain ⟨n, hn, hb⟩ := hb.eval call frame s
      rw [eval_binary_integers ha hb, h, Value.binary_quotient_zero hn]
  | operand _ ih =>
      rw [Expr.eval]
      exact Run.onValue_run_of_error ih _
  | left _ ih =>
      rw [Expr.eval]
      exact Run.onValue_run_of_error ih _
  | right ha _ ih =>
      obtain ⟨m, _, ha⟩ := ha.eval call frame s
      rw [Expr.eval, Run.onValue_run_of_value ha rfl]
      exact Run.onValue_run_of_error ih _

/-- Integers are what is computed. -/
theorem Arithmetic.eval_eq_integer_iff (h : e.Arithmetic) {n : Int64} :
    e.eval call frame s = some (.integer n, s) ↔ e.Computes n.toInt := by
  constructor
  · intro heval
    obtain ⟨x, hx⟩ | hzero := h.computes_or_reachesZero
    · obtain ⟨m, rfl, hm⟩ := hx.eval call frame s
      rw [hm] at heval
      cases heval
      exact hx
    · rw [hzero.eval] at heval
      cases heval
  · intro hcomputes
    obtain ⟨m, hm, heval⟩ := hcomputes.eval call frame s
    rw [heval, Int64.toInt_inj.1 hm]

/-- The error is that of a zero divisor. -/
theorem Arithmetic.eval_eq_error_iff (h : e.Arithmetic) :
    e.eval call frame s = some (.error .divisionByZero, s) ↔ e.ReachesZero := by
  constructor
  · intro heval
    obtain ⟨x, hx⟩ | hzero := h.computes_or_reachesZero
    · obtain ⟨m, _, hm⟩ := hx.eval call frame s
      rw [hm] at heval
      cases heval
    · exact hzero
  · intro hzero
    exact hzero.eval

end Evaluation

end Expr

/-- **Integer expressions compute in two's complement.**  Without divisions, an expression
over integers is evaluated to the word that is congruent to the exact integer.  With
divisions, it is evaluated to the error of division by zero exactly if a zero divisor is
reached, and otherwise to the integer that comes of truncating divisions and wrapping.  The
quotient of the least integer by minus one is the least integer again. -/
theorem integer_expressions_wrap (call : Call) (frame : FrameId) (s : State) :
    (∀ e x, Expr.Exact e x → ∃ n : Int64, e.eval call frame s = some (.integer n, s) ∧
      -2 ^ 63 ≤ n.toInt ∧ n.toInt < 2 ^ 63 ∧ n.toInt ≡ x [ZMOD 2 ^ 64]) ∧
    (∀ e, Expr.Arithmetic e →
      (e.eval call frame s = some (.error .divisionByZero, s) ∨
        ∃ n, e.eval call frame s = some (.integer n, s)) ∧
      (e.eval call frame s = some (.error .divisionByZero, s) ↔ e.ReachesZero) ∧
      ∀ n, e.eval call frame s = some (.integer n, s) ↔ e.Computes n.toInt) ∧
    RuntimeError.divisionByZero.message = ("division by zero" : Text) ∧
    ∀ t a b, t.literal = ("/" : Text) → Expr.Computes a (-2 ^ 63) → Expr.Computes b (-1) →
      (Expr.binary t a b).eval call frame s = some (.integer Int64.minValue, s) := by
  refine ⟨?_, ?_, rfl, ?_⟩
  · intro e x hexact
    obtain ⟨y, hcomputes, hmod⟩ := hexact.exists_computes
    obtain ⟨n, rfl, heval⟩ := hcomputes.eval call frame s
    exact ⟨n, heval, n.le_toInt, n.toInt_lt, hmod⟩
  · intro e harithmetic
    refine ⟨?_, harithmetic.eval_eq_error_iff, fun n => harithmetic.eval_eq_integer_iff⟩
    obtain ⟨x, hx⟩ | hzero := harithmetic.computes_or_reachesZero
    · obtain ⟨n, _, heval⟩ := hx.eval call frame s
      exact Or.inr ⟨n, heval⟩
    · exact Or.inl hzero.eval
  · intro t a b h ha hb
    have hleast : wrap (Int.tdiv (-2 ^ 63) (-1)) = Int64.minValue.toInt := by decide
    obtain ⟨n, hn, heval⟩ := (Expr.Computes.quotient h ha hb (by decide)).eval call frame s
    rw [heval, Int64.toInt_inj.1 (hn.trans hleast)]

/-- The literal `9223372036854775807`. -/
def largestLiteral : Expr := .int ⟨.int, "9223372036854775807", .start⟩ Int64.maxValue

/-- The literal `1`. -/
def oneLiteral : Expr := .int ⟨.int, "1", .start⟩ 1

/-- The sum `9223372036854775807 * 9223372036854775807 + 1`. -/
def hugeSum : Expr :=
  .binary ⟨.plus, "+", .start⟩
    (.binary ⟨.star, "*", .start⟩ largestLiteral largestLiteral) oneLiteral

/-- The sum `-9223372036854775807 - 1`. -/
def leastSum : Expr :=
  .binary ⟨.minus, "-", .start⟩ (.unary ⟨.minus, "-", .start⟩ largestLiteral) oneLiteral

/-- The quotient `1 / (-9223372036854775807 - 1 + (-9223372036854775807 - 1))`, whose divisor
wraps to zero. -/
def wrappedDivisor : Expr :=
  .binary ⟨.slash, "/", .start⟩ oneLiteral (.binary ⟨.plus, "+", .start⟩ leastSum leastSum)

theorem integer_expressions_wrap_of_largest :
    let eval (e : Expr) := e.eval (fun _ _ => Run.unfinished) 0 ⟨#[], ⟨0, []⟩, 0⟩
    let result (v : Value) : Option (Value × State) := some (v, ⟨#[], ⟨0, []⟩, 0⟩)
    (hugeSum.Exact (9223372036854775807 * 9223372036854775807 + 1) ∧
      ∃ n : Int64, eval hugeSum = result (.integer n) ∧ -2 ^ 63 ≤ n.toInt ∧ n.toInt < 2 ^ 63 ∧
        n.toInt ≡ 9223372036854775807 * 9223372036854775807 + 1 [ZMOD 2 ^ 64]) ∧
    (wrappedDivisor.Arithmetic ∧ wrappedDivisor.ReachesZero ∧
      eval wrappedDivisor = result (.error .divisionByZero)) ∧
    leastSum.Computes (-2 ^ 63) ∧
      eval (.binary ⟨.slash, "/", .start⟩ leastSum (.unary ⟨.minus, "-", .start⟩ oneLiteral)) =
        result (.integer Int64.minValue) := by
  intro eval result
  obtain ⟨hexact, harithmetic, _, hquotient⟩ :=
    integer_expressions_wrap (fun _ _ => Run.unfinished) 0 ⟨#[], ⟨0, []⟩, 0⟩
  have hplus : (("+" : Text), fun x y : Int => x + y) ∈ exactOperators := by simp [exactOperators]
  have hminus : (("-" : Text), fun x y : Int => x - y) ∈ exactOperators := by
    simp [exactOperators]
  have hstar : (("*" : Text), fun x y : Int => x * y) ∈ exactOperators := by simp [exactOperators]
  have hhuge : hugeSum.Exact (9223372036854775807 * 9223372036854775807 + 1) :=
    .operation hplus (.operation hstar (.int _ Int64.maxValue) (.int _ Int64.maxValue)) (.int _ 1)
  have hleast : leastSum.Computes (wrap (wrap (-Int64.maxValue.toInt) - Int64.toInt 1)) :=
    .operation hminus (.negation rfl (.int _ _)) (.int _ _)
  have hvalue : wrap (wrap (-Int64.maxValue.toInt) - Int64.toInt 1) = -2 ^ 63 := by decide
  rw [hvalue] at hleast
  have hzero : wrappedDivisor.ReachesZero := by
    have hwraps : wrap (-2 ^ 63 + -2 ^ 63) = 0 := by decide
    exact .here rfl (.int _ _) (hwraps ▸ .operation hplus hleast hleast)
  have hdivisor : wrappedDivisor.Arithmetic := by
    have hleast : leastSum.Arithmetic :=
      .operation (by decide) (.negation rfl (.int _ _)) (.int _ _)
    exact .operation (by decide) (.int _ _) (.operation (by decide) hleast hleast)
  exact ⟨⟨hhuge, hexact hugeSum _ hhuge⟩,
    ⟨hdivisor, hzero, (harithmetic wrappedDivisor hdivisor).2.1.2 hzero⟩,
    hleast, hquotient _ _ _ rfl hleast (.negation rfl (.int _ 1))⟩

end MonkeyLang
