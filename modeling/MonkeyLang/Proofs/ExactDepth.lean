import Mathlib.Algebra.Group.Nat.Defs
import MonkeyLang.Proofs.CallDepth
import MonkeyLang.Proofs.PrintedData
import MonkeyLang.Proofs.Units
import MonkeyLang.Proofs.WrappedArithmetic

/-!
# The limit on nested calls is exact

A function that calls itself as many times as its argument says nests one call more than
that.  Under a limit it gives its result exactly if the argument is less than the limit, and
the error of too deep a recursion otherwise.

The induction is on the argument: a call of the function at some depth is a call with an
argument less by one, one call deeper.  Whatever it gives, a call leaves the depth and the
frames there were as they were, so the next one starts as the first one did.
-/

namespace MonkeyLang

/-! ## Calls of functions -/

namespace Host

variable {host : Host} {k : Nat} {stamp : Stamp} {parameters : List Token} {body : Block}
  {frame : FrameId} {arguments : List Value} {s : State}

/-- At the limit, no function is entered. -/
theorem call_of_limit_le (hlength : arguments.length = parameters.length)
    (hlimit : 0 < host.limit) (hdepth : host.limit ≤ s.depth) :
    host.call k (.function stamp parameters body frame) arguments s =
      some (.error (.callDepth host.limit), s) := by
  have hforbids : host.forbids s.depth = true := by simp [forbids, hlimit, hdepth]
  have hcall (inner : Option Call) :
      host.callWith inner (.function stamp parameters body frame) arguments s =
        some (.error (.callDepth host.limit), s) := by
    simp only [callWith, hlength, ne_eq, not_true_eq_false, if_false]
    change (if host.forbids s.depth then _ else _ : Run Value) s = _
    rw [if_pos hforbids]
    rfl
  cases k with
  | zero => exact hcall none
  | succ k => exact hcall (some (host.call k))

/-- Below the limit, the body is evaluated one call deeper, in a frame of its own. -/
theorem call_of_lt_limit (hlength : arguments.length = parameters.length)
    (hdepth : s.depth < host.limit) {value : Value} {t : State}
    (h : body.eval (host.call k) s.frames.size
      { s with
        frames := s.frames.push ((Frame.empty frame).setAll parameters arguments)
        depth := s.depth + 1 } = some (value, t)) :
    host.call (k + 1) (.function stamp parameters body frame) arguments s =
      some (value.landed, { t with depth := t.depth - 1 }) := by
  have hforbids : ¬ host.forbids s.depth = true := by simp [forbids, hdepth]
  simp only [call, callWith, hlength, ne_eq, not_true_eq_false, if_false]
  change (if host.forbids s.depth then _ else _ : Run Value) s = _
  rw [if_neg hforbids]
  apply Run.deeper_run_of_some
  exact Run.bind_run_of_some h fun value => pure value.landed

end Host

namespace Descent

/-- Binds `down` to a function that calls itself as many times as its argument says. -/
def source : Text :=
  "let down = fn(n) \x7b if (n == 0) \x7b 0 \x7d else \x7b down(n - 1) \x7d \x7d;"

/-- A call of the function with the given argument. -/
def callSource (n : Nat) : Text := Text.ofString "down(" ++ Text.ofNat n ++ Text.ofString ")"

/-- What the function gives at a depth, its argument added: a result below the limit. -/
def answer (limit n : Nat) : Value :=
  if n < limit then .integer 0 else .error (.callDepth limit)

/-! ## The function -/

/-- A token on the line of the source. -/
def token (kind : Kind) (literal : Text) (column : Nat) : Token := ⟨kind, literal, ⟨1, column⟩⟩

/-- The tokens of the source. -/
def tokens : List Token :=
  [token .letWord "let" 1, token .ident "down" 5, token .assign "=" 10, token .fnWord "fn" 12,
    token .lparen "(" 14, token .ident "n" 15, token .rparen ")" 16, token .lbrace "\x7b" 18,
    token .ifWord "if" 20, token .lparen "(" 23, token .ident "n" 24, token .equal "==" 26,
    token .int "0" 29, token .rparen ")" 30, token .lbrace "\x7b" 32, token .int "0" 34,
    token .rbrace "\x7d" 36, token .elseWord "else" 38, token .lbrace "\x7b" 43,
    token .ident "down" 45, token .lparen "(" 49, token .ident "n" 50, token .minus "-" 52,
    token .int "1" 54, token .rparen ")" 55, token .rbrace "\x7d" 57, token .rbrace "\x7d" 59,
    token .semicolon ";" 60, token .eof "" 61]

/-- The test of the function: `n == 0`. -/
def test : Expr :=
  .binary (token .equal "==" 26) (.ident (token .ident "n" 24)) (.int (token .int "0" 29) 0)

/-- The call of the function by itself: `down(n - 1)`. -/
def again : Expr :=
  .call (token .lparen "(" 49) (.ident (token .ident "down" 45))
    [.binary (token .minus "-" 52) (.ident (token .ident "n" 50)) (.int (token .int "1" 54) 1)]

/-- The body of the function. -/
def body : Block :=
  .mk (token .lbrace "\x7b" 18)
    [.expr (token .ifWord "if" 20)
      (.cond (token .ifWord "if" 20) test
        (.mk (token .lbrace "\x7b" 32)
          [.expr (token .int "0" 34) (.int (token .int "0" 34) 0)])
        (some (.mk (token .lbrace "\x7b" 43) [.expr (token .ident "down" 45) again])))]

/-- The function, bound in the global frame. -/
def function (stamp : Stamp) : Value :=
  .function stamp [token .ident "n" 15] body Frames.global

/-- What is read from the source. -/
def program : Program :=
  ⟨[.bind (token .letWord "let" 1) (token .ident "down" 5)
    (.function (token .fnWord "fn" 12) [token .ident "n" 15] body)]⟩

theorem parse?_source : parse? source = .ok program := by
  have hscan : scan source = tokens := by decide +kernel
  have hparse : parseTokens tokens = (program, []) := rfl
  rw [parse?_eq_ok_iff, parse, hscan, hparse]

/-! ## Where the function is bound -/

/-- The global frame binds the function. -/
def Bound (stamp : Stamp) (frames : Frames) : Prop :=
  ∃ frame, frames[Frames.global]? = some frame ∧ frame.get? "down" = some (function stamp)

variable {stamp : Stamp} {frames : Frames} {s : State}

theorem Bound.lt_size (h : Bound stamp frames) : Frames.global < frames.size := by
  obtain ⟨frame, hframe, _⟩ := h
  exact (Array.getElem?_eq_some_iff.1 hframe).1

theorem Bound.kept {after : Frames} (h : Bound stamp frames) (hkept : Frames.Kept frames after) :
    Bound stamp after := by
  obtain ⟨frame, hframe, hdown⟩ := h
  refine ⟨frame, ?_, hdown⟩
  rw [hkept.same _ (Bound.lt_size ⟨frame, hframe, hdown⟩), hframe]

theorem Bound.push (h : Bound stamp frames) (frame : Frame) : Bound stamp (frames.push frame) := by
  obtain ⟨global, hglobal, hdown⟩ := h
  have hlt := Bound.lt_size ⟨global, hglobal, hdown⟩
  refine ⟨global, ?_, hdown⟩
  rw [Array.getElem?_push_lt hlt, ← hglobal, Array.getElem?_eq_getElem hlt]

/-- The function is found through the global frame. -/
theorem Bound.lookupWithin (h : Bound stamp frames) (n : Nat) :
    frames.lookupWithin "down" (n + 1) Frames.global = some (function stamp) := by
  obtain ⟨frame, hframe, hdown⟩ := h
  simp only [Frames.lookupWithin, hframe, hdown]

/-- The frame of a call of the function. -/
def ownFrame (argument : Value) : Frame :=
  (Frame.empty Frames.global).setAll [token .ident "n" 15] [argument]

theorem lookup_argument (argument : Value) :
    Frames.lookup (frames.push (ownFrame argument)) frames.size "n" = some argument := by
  simp only [Frames.lookup, Frames.lookupWithin, Array.getElem?_push_size]
  rfl

theorem Bound.lookup_inside (h : Bound stamp frames) (argument : Value) :
    Frames.lookup (frames.push (ownFrame argument)) frames.size "down" =
      some (function stamp) := by
  obtain ⟨n, hn⟩ : ∃ n, frames.size = n + 1 :=
    Nat.exists_eq_add_one_of_ne_zero (Nat.ne_zero_of_lt h.lt_size)
  have hown : (ownFrame argument).get? "down" = none := rfl
  have houter : (ownFrame argument).outer = some Frames.global := rfl
  simp only [Frames.lookup]
  rw [Frames.lookupWithin, Array.getElem?_push_size]
  simp only [hown, houter]
  rw [hn]
  exact (h.push _).lookupWithin n

/-! ## Calls of the function -/

section Calls

variable {call : Call} {own : FrameId} {a : Int64} {f : Value}

theorem eval_ident_of_lookup {t : Token} {value : Value}
    (h : s.frames.lookup own t.literal = some value) :
    (Expr.ident t).eval call own s = some (value, s) := by
  simp only [Expr.eval, Run.lookup, h]

/-- A call with one argument. -/
theorem eval_call_single {t : Token} {callee e : Expr} {v : Value}
    (hcallee : callee.eval call own s = some (f, s)) (hf : f.isError = false)
    (he : e.eval call own s = some (v, s)) (hv : v.isError = false) :
    (Expr.call t callee [e]).eval call own s = call f [v] s := by
  have hall : evalAll call own [e] [] s = some ([v], s) := by
    rw [evalAll, Run.bind_run_of_some he, hv]
    rfl
  rw [Expr.eval, Run.onValue_run_of_value hcallee hf,
    Run.onValues_run_of_values hall (by simpa using hv)]

/-- The body gives zero for zero, and otherwise calls the function again. -/
theorem body_eval (hn : s.frames.lookup own "n" = some (.integer a))
    (hdown : s.frames.lookup own "down" = some f) (hf : f.isError = false) :
    body.eval call own s =
      if a = 0 then some (.integer 0, s) else call f [.integer (a - 1)] s := by
  have hargument (t : Token) (h : t.literal = ("n" : Text)) :
      (Expr.ident t).eval call own s = some (.integer a, s) := eval_ident_of_lookup (h ▸ hn)
  have htest : test.eval call own s = some (.boolean (a == 0), s) :=
    Expr.eval_binary_integers (hargument _ rfl) (Expr.eval_int _ 0)
  have hagain : again.eval call own s = call f [.integer (a - 1)] s :=
    eval_call_single (eval_ident_of_lookup hdown) hf
      (Expr.eval_binary_integers (hargument _ rfl) (Expr.eval_int _ 1)) rfl
  rw [body, Block.eval, evalStatements_single, Stmt.eval, Expr.eval,
    Run.onValue_run_of_value htest rfl, Value.isTruthy]
  by_cases h : a = 0
  · rw [if_pos h, if_pos (beq_iff_eq.2 h), Block.eval, evalStatements_single, Stmt.eval]
    exact Expr.eval_int _ 0
  · rw [if_neg h, if_neg (mt beq_iff_eq.1 h), ← hagain, Block.eval, evalStatements_single,
      Stmt.eval]

end Calls

/-- Numbers in the range of integers, as integers, are counted down to zero. -/
theorem ofNat_succ_ne_zero {n : Nat} (h : n + 1 < 2 ^ 63) : Int64.ofNat (n + 1) ≠ 0 := by
  intro hzero
  have hint := congrArg Int64.toInt hzero
  rw [Int64.toInt_ofNat_of_lt h, Int64.toInt_zero] at hint
  omega

theorem ofNat_succ_sub_one (n : Nat) : Int64.ofNat (n + 1) - 1 = Int64.ofNat n := by
  rw [Int64.ofNat_add]
  exact Int64.add_sub_cancel _ _

/-- The state in which the body of the function is evaluated. -/
def entered (s : State) (argument : Value) : State :=
  { s with frames := s.frames.push (ownFrame argument), depth := s.depth + 1 }

/-- Below the limit, a call of the function does what its body does one call deeper. -/
theorem call_of_entered {host : Host} (hbound : Bound stamp s.frames)
    (hdepth : s.depth < host.limit) (a : Int64) {value : Value} {t : State}
    (h : (if a = 0 then some (.integer 0, entered s (.integer a))
      else host.call (host.limit - (s.depth + 1)) (function stamp) [.integer (a - 1)]
        (entered s (.integer a))) = some (value, t)) :
    host.call (host.limit - s.depth) (function stamp) [.integer a] s =
      some (value.landed, { t with depth := t.depth - 1 }) := by
  have hreach : host.limit - s.depth = host.limit - (s.depth + 1) + 1 := by omega
  rw [hreach]
  apply Host.call_of_lt_limit rfl hdepth
  rw [← h]
  exact body_eval (lookup_argument _) (hbound.lookup_inside _) rfl

theorem landed_answer (limit n : Nat) : (answer limit n).landed = answer limit n := by
  unfold answer
  split <;> rfl

/-- At the limit, a call of the function gives its answer without being made. -/
theorem call_answers_of_limit_le {host : Host} (hlimit : 0 < host.limit) (k n : Nat)
    (argument : Value) (hdepth : host.limit ≤ s.depth) :
    host.call k (function stamp) [argument] s = some (answer host.limit (s.depth + n), s) := by
  rw [answer, if_neg (by omega)]
  exact Host.call_of_limit_le rfl hlimit hdepth

/-- A call of the function gives its answer, at any depth. -/
theorem call_answers {host : Host} (hlimit : 0 < host.limit) {n : Nat} (hn : n < 2 ^ 63)
    (hbound : Bound stamp s.frames) :
    ∃ s', host.call (host.limit - s.depth) (function stamp) [.integer (Int64.ofNat n)] s =
      some (answer host.limit (s.depth + n), s') := by
  induction n generalizing s with
  | zero =>
      by_cases hdepth : s.depth < host.limit
      · have hcall := call_of_entered hbound hdepth 0 (if_pos rfl)
        rw [Nat.add_zero, answer, if_pos hdepth]
        exact ⟨_, hcall⟩
      · exact ⟨s, call_answers_of_limit_le hlimit _ _ _ (by omega)⟩
  | succ n ih =>
      by_cases hdepth : s.depth < host.limit
      · -- The call inside has one less to count down, one call deeper.
        have hinside : Bound stamp (entered s (.integer (Int64.ofNat (n + 1)))).frames :=
          hbound.push _
        obtain ⟨t, ht⟩ := ih (by omega) hinside
        have hsum : s.depth + (n + 1) = s.depth + 1 + n := by omega
        rw [← landed_answer, hsum]
        refine ⟨{ t with depth := t.depth - 1 }, ?_⟩
        apply call_of_entered hbound hdepth
        rw [if_neg (ofNat_succ_ne_zero hn), ofNat_succ_sub_one]
        exact ht
      · exact ⟨s, call_answers_of_limit_le hlimit _ _ _ (by omega)⟩

/-! ## Sources one after the other -/

/-- A call of the function is read as a call. -/
theorem parse?_callSource {n : Nat} (hn : n < 2 ^ 63) :
    ∃ t u v w, v.literal = ("down" : Text) ∧
      parse? (callSource n) = .ok ⟨[.expr t (.call u (.ident v) [.int w (Int64.ofNat n)])]⟩ := by
  have hdown : Token.Spelled ⟨.ident, "down", .start⟩ :=
    .word rfl rfl (List.all_eq_true.1 rfl) rfl
  have hsplit : Text.ofString "down(" = Text.ofString "down" ++ Text.ofString "(" := rfl
  have htokens : tokensOf (callSource n) =
      [⟨.ident, "down", .start⟩] ++ Kind.lparen.mark :: ([numeral n] ++ [Kind.rparen.mark]) ++
        [⟨.eof, [], .start⟩] := by
    have hend : tokensOf (Text.ofString ")") = [Kind.rparen.mark, ⟨.eof, [], .start⟩] := by
      decide +kernel
    have hparted : (Text.ofString ")").Parted := by
      intro b hb
      cases hb
      rfl
    simp only [callSource, hsplit, List.append_assoc]
    rw [hdown.scannedAs (by decide) _ (Text.parted_append _ rfl),
      tokensOf_text .lparen rfl (by decide) fun _ => rfl,
      scannedAs_numeral n _ hparted, hend]
    rfl
  have hphrase : Phrase .applied
      ([⟨.ident, "down", .start⟩] ++ Kind.lparen.mark :: ([numeral n] ++ [Kind.rparen.mark])) _ :=
    .call ((Phrase.ident rfl).loosen_to (by decide)) rfl
      (.some (.one ((phrase_numeral hn).loosen_to (by decide)))) rfl
  obtain ⟨t, e, hparse, hcopy⟩ := parse_of_phrase htokens (hphrase.loosen_to (by decide))
  cases hcopy with
  | call _ hcallee harguments =>
      cases hcallee with
      | ident hname =>
          cases harguments with
          | cons hargument hnone =>
              cases hargument
              cases hnone
              exact ⟨_, _, _, _, Token.literal_eq_of_bare hname, hparse⟩

/-- Ready for calls: the function is bound, and no call has begun. -/
structure Ready (limit : Nat) (stamp : Stamp) (ip : Interpreter) : Prop where
  limit_eq : ip.host.limit = limit
  depth_eq : ip.state.depth = 0
  bound : Bound stamp ip.state.frames

/-- A call of the function leaves the interpreter ready for the next one. -/
theorem Ready.interpret {limit : Nat} {ip : Interpreter} (h : Ready limit stamp ip)
    (hlimit : 0 < limit) (budget : Nat) {n : Nat} (hn : n < 2 ^ 63) :
    ∃ after, ip.interpret budget (callSource n) = .ok (some (answer limit n, after)) ∧
      Ready limit stamp after := by
  obtain ⟨t, u, v, w, hv, hparse⟩ := parse?_callSource hn
  obtain ⟨rfl, hdepth, hbound⟩ := h
  obtain ⟨s', hcall⟩ := call_answers hlimit hn hbound
  have hcallee : (Expr.ident v).eval (ip.call budget) Frames.global ip.state =
      some (function stamp, ip.state) := by
    apply eval_ident_of_lookup
    rw [hv]
    exact hbound.lookupWithin 1
  have heval : (Expr.call u (.ident v) [.int w (Int64.ofNat n)]).eval (ip.call budget)
      Frames.global ip.state = some (answer ip.host.limit n, s') := by
    rw [eval_call_single hcallee rfl (Expr.eval_int w _) rfl, Interpreter.call_eq hlimit, hcall,
      hdepth, Nat.zero_add]
  refine ⟨{ ip with state := s' }, ?_, rfl, ?_, ?_⟩
  · rw [Interpreter.interpret_of_ok hparse, Interpreter.evalGlobal_eq, evalStatements_single,
      Stmt.eval, Interpreter.runWith, heval]
    simp only [Option.map_some, Prod.map_apply, landed_answer, id_eq]
  · exact (ip.host.call_depth _ _ _ _ _ _ hcall).trans hdepth
  · exact hbound.kept (ip.host.call_kept _ _ _ _ _ _ hcall)

/-- The source binds the function, and no call is made. -/
theorem interpret_source (limit budget : Nat) :
    ∃ ip, (Interpreter.new limit).interpret budget source = .ok (some (.null, ip)) ∧
      Ready limit 0 ip := by
  rw [Interpreter.interpret_of_ok parse?_source]
  exact ⟨_, rfl, rfl, rfl, _, rfl, rfl⟩

end Descent

/-- The values of sources evaluated one after the other in the global frame, up to one that
is not read or does not end. -/
def Interpreter.answers (budget : Nat) : List Text → Interpreter → List Value
  | [], _ => []
  | source :: rest, ip =>
    match ip.interpret budget source with
    | .ok (some (value, after)) => value :: answers budget rest after
    | _ => []

/-- Calls of the function give their answers one after the other. -/
theorem Descent.Ready.answers {limit : Nat} {stamp : Stamp} {ip : Interpreter}
    (h : Ready limit stamp ip) (hlimit : 0 < limit) (budget : Nat) {ns : List Nat}
    (hns : ∀ n ∈ ns, n < 2 ^ 63) :
    ip.answers budget (ns.map callSource) = ns.map (answer limit) := by
  induction ns generalizing ip with
  | nil => rfl
  | cons n ns ih =>
      rw [List.forall_mem_cons] at hns
      obtain ⟨after, hinterpret, hready⟩ := h.interpret hlimit budget hns.1
      rw [List.map_cons, List.map_cons, Interpreter.answers, hinterpret]
      exact congrArg _ (ih hready hns.2)

/-- **The limit on nested calls is exact and leaves no trace.**  On an interpreter with a
limit, a function is bound that calls itself as many times as its argument says.  Whatever
calls of it are made one after the other, each gives zero if its argument is less than the
limit, and the error of the limit otherwise. -/
theorem call_limit_is_exact (limit : Nat) (hlimit : 0 < limit) (budget : Nat) (ns : List Nat)
    (hns : ∀ n ∈ ns, n < 2 ^ 63) :
    ∃ ip, (Interpreter.new limit).interpret budget Descent.source = .ok (some (.null, ip)) ∧
      ip.answers budget (ns.map Descent.callSource) =
        ns.map (fun n => if n < limit then .integer 0 else .error (.callDepth limit)) ∧
      (RuntimeError.callDepth limit).message =
        Text.ofString "maximum call depth exceeded (" ++ Text.ofNat limit ++
          Text.ofString ")" := by
  obtain ⟨ip, hsource, hready⟩ := Descent.interpret_source limit budget
  exact ⟨ip, hsource, hready.answers hlimit budget hns, rfl⟩

theorem call_limit_is_exact_around_three :
    (0 < 3 ∧ ∀ n ∈ [2, 3, 9223372036854775807, 0], n < 2 ^ 63) ∧
      ∃ ip, (Interpreter.new 3).interpret 0 Descent.source = .ok (some (.null, ip)) ∧
        ip.answers 0 ([2, 3, 9223372036854775807, 0].map Descent.callSource) =
          [.integer 0, .error (.callDepth 3), .error (.callDepth 3), .integer 0] := by
  have hns : ∀ n ∈ [2, 3, 9223372036854775807, 0], n < 2 ^ 63 := by simp
  obtain ⟨ip, hsource, hanswers, _⟩ := call_limit_is_exact 3 (by decide) 0 _ hns
  exact ⟨⟨by decide, hns⟩, ip, hsource, hanswers⟩

end MonkeyLang
