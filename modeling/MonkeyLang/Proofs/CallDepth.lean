import Mathlib.Logic.ExistsUnique
import MonkeyLang.Proofs.FrameEffect
import MonkeyLang.Proofs.TwinTrials

/-!
# The limit on nested calls

A function may call itself without end, and a call runs a body taken from a value,
which may be of any size.  What bounds an evaluation under a limit is the depth of
calls: inside a call the depth is one more than around it, everything else leaves
the depth as it was, and at the limit no call is made.  So calls nest at most as
often as the depth is below the limit, and in between evaluation follows the tree.

Two main statements are drawn from this.  `eval_terminates` says that under a limit
every evaluation ends: calls need no budget, since the equation by which they are
made has exactly one solution.  `limit_shows_only_as_its_error` compares two limits:
an evaluation that does not end in the error of the smaller limit ends in the same
way under the larger one, or under none.
-/

namespace MonkeyLang

/-! ## Evaluations that end -/

/-- From every state of the given depth the trial ends, and ends at that depth. -/
def Trial.EndsAt {α : Type} (depth : Nat) (m : Trial α) : Prop :=
  ∀ s, s.depth = depth → ∃ r s', m.run s = some (r, s') ∧ s'.depth = depth

namespace Trial.EndsAt

variable {α β : Type} {depth : Nat}

/-- One trial after another. -/
theorem bind {m : Trial α} {f : α → Trial β} (hm : EndsAt depth m)
    (hf : ∀ a, EndsAt depth (f a)) : EndsAt depth (m >>= f) := by
  intro s hs
  obtain ⟨cause | a, t, hrun, ht⟩ := hm s hs
  · exact ⟨.error cause, t, bind_run_of_error hrun f, ht⟩
  · obtain ⟨r, s', hrest, hs'⟩ := hf a t ht
    exact ⟨r, s', by rw [bind_run_of_ok hrun, hrest], hs'⟩

/-- A run within a trial, if it ends and leaves the depth as it is. -/
theorem ofRun {x : Run α} (h : ∀ s, ∃ a s', x s = some (a, s') ∧ s'.depth = s.depth) :
    EndsAt depth (Trial.ofRun x) := by
  intro s hs
  obtain ⟨a, s', hx, hs'⟩ := h s
  exact ⟨.ok a, s', ofRun_run_of_some hx, hs'.trans hs⟩

/-- Every single step ends, and so does a sequence of trials that end. -/
theorem twinned (depth : Nat) : Twinned fun _ m _ => EndsAt depth m where
  pure a := fun s hs => ⟨.ok a, s, rfl, hs⟩
  throw cause := fun s hs => ⟨.error cause, s, rfl, hs⟩
  bind := bind
  lift _ := ofRun fun _ => ⟨_, _, rfl, rfl⟩
  lookup _ _ := ofRun fun _ => ⟨_, _, rfl, rfl⟩
  bindName _ _ _ := ofRun fun _ => ⟨_, _, rfl, rfl⟩

/-- What ends one call deeper ends here. -/
theorem deeper {m : Trial α} (h : EndsAt (depth + 1) m) : EndsAt depth (Trial.deeper m) := by
  intro s hs
  obtain ⟨r, s', hrun, hs'⟩ := h { s with depth := s.depth + 1 } (by simp [hs])
  refine ⟨r, _, Run.deeper_run_of_some hrun, ?_⟩
  simp [hs']

end Trial.EndsAt

/-- A run ends when a trial it agrees with does. -/
theorem Agrees.endsAt {r : Run Value} {m : Trial Value} {depth : Nat} (h : Agrees r m)
    (hm : Trial.EndsAt depth m) (s : State) (hs : s.depth = depth) :
    ∃ value s', r s = some (value, s') ∧ s'.depth = depth := by
  obtain ⟨cause | value, s', hrun, hs'⟩ := hm s hs
  · exact ⟨.error cause, s', ((h s).error_iff cause s').2 hrun, hs'⟩
  · exact ⟨value, s', ((h s).value_iff value s').2 hrun |>.1, hs'⟩

namespace Host

variable {host : Host}

/-- A call at the given depth ends if the calls inside it, one deeper, end, and if
there are such calls wherever they are allowed. -/
theorem attemptWith_endsAt {inner : Option TrialCall} {depth : Nat}
    (hinner : host.forbids depth = false → ∃ call ∈ inner, ∀ f arguments,
      Trial.EndsAt (depth + 1) (call f arguments))
    (callee : Value) (arguments : List Value) :
    Trial.EndsAt depth (host.attemptWith inner callee arguments) := by
  have hsteps := Trial.EndsAt.twinned depth
  unfold attemptWith
  cases callee with
  | function _ parameters body frame =>
      dsimp only
      split
      · exact hsteps.throw _
      · intro s hs
        have hdepth : Run.depth s = some (depth, s) := by
          rw [← hs]
          rfl
        rw [Trial.bind_run_of_ok (Trial.ofRun_run_of_some hdepth)]
        cases hforbids : host.forbids depth with
        | true => exact hsteps.throw _ s hs
        | false =>
            obtain ⟨call, hcall, hends⟩ := hinner hforbids
            cases hcall
            have hcalls : TwinCalls (fun _ m _ => Trial.EndsAt (depth + 1) m) call call :=
              ⟨Trial.EndsAt.twinned (depth + 1), hends⟩
            refine Trial.EndsAt.deeper (Trial.EndsAt.bind ?_ fun own => ?_) s hs
            · exact Trial.EndsAt.ofRun fun _ => ⟨_, _, rfl, rfl⟩
            · exact Trial.EndsAt.bind (body.attempt_twin hcalls own) fun _ => hcalls.give _
  | builtin _ code => exact Trial.EndsAt.bind (hsteps.lift _) hsteps.give
  | _ => exact hsteps.throw _

/-- Calls end when as many may nest as the depth is below the limit. -/
theorem attempt_endsAt (hlimit : 0 < host.limit) {n depth : Nat}
    (hn : host.limit ≤ depth + n) (callee : Value) (arguments : List Value) :
    Trial.EndsAt depth (host.attempt n callee arguments) := by
  have hallowed {depth : Nat} (h : host.forbids depth = false) : depth < host.limit := by
    simp only [forbids, Bool.and_eq_false_iff, decide_eq_false_iff_not] at h
    omega
  induction n generalizing depth callee arguments with
  | zero =>
      refine attemptWith_endsAt (fun hforbids => ?_) callee arguments
      have hlt := hallowed hforbids
      omega
  | succ n ih =>
      refine attemptWith_endsAt (fun _ => ⟨host.attempt n, rfl, ?_⟩) callee arguments
      exact fun f arguments => ih (by omega) f arguments

/-- Under a limit, an evaluation ends when as many calls may nest as its depth is
below the limit, and it ends at that depth. -/
theorem eval_ends (hlimit : 0 < host.limit) {n : Nat} {s : State}
    (hn : host.limit ≤ s.depth + n) (node : Node) (frame : FrameId) :
    ∃ value s', node.eval (host.call n) frame s = some (value, s') ∧ s'.depth = s.depth := by
  have hcalls : TwinCalls (fun _ m _ => Trial.EndsAt s.depth m) (host.attempt n)
      (host.attempt n) :=
    ⟨Trial.EndsAt.twinned s.depth, attempt_endsAt hlimit hn⟩
  exact (node.agrees (host.call_agrees n) frame).endsAt (node.attempt_twin hcalls frame) s rfl

/-- Under a limit, a call ends when as many calls may nest as its depth is below the
limit. -/
theorem call_ends (hlimit : 0 < host.limit) {n : Nat} {s : State}
    (hn : host.limit ≤ s.depth + n) (callee : Value) (arguments : List Value) :
    ∃ value s', host.call n callee arguments s = some (value, s') := by
  have hends := attempt_endsAt hlimit hn callee arguments
  obtain ⟨value, s', hcall, _⟩ := (host.call_agrees n callee arguments).endsAt hends s rfl
  exact ⟨value, s', hcall⟩

/-! ## Calls without a budget -/

/-- How calls are made under a limit: as many may nest as the depth is below it. -/
def limited (host : Host) : Call := fun callee arguments s =>
  host.call (host.limit - s.depth) callee arguments s

/-- A host allows what it allows. -/
theorem Grants.refl (host : Host) : Grants (fun _ => False) host host :=
  ⟨rfl, fun _ h => h, Or.inl rfl⟩

/-- However many calls may nest, a call that ends gives what it gives under the
limit alone. -/
theorem call_endsLike_limited (hlimit : 0 < host.limit) (n : Nat) (callee : Value)
    (arguments : List Value) :
    Run.EndsLike (fun _ => False) (host.call n callee arguments)
      (host.limited callee arguments) := by
  intro s value s' hcall
  -- Both numbers of nested calls are at most their sum, with which nothing changes.
  let k := host.limit - s.depth
  obtain ⟨other, t, hother⟩ : ∃ other t, host.call k callee arguments s = some (other, t) :=
    call_ends hlimit (by omega) callee arguments
  have hmore : host.call (n + k) callee arguments s = some (value, s') :=
    (call_endsLike (Grants.refl host) (Nat.le_add_right n k) callee arguments).eq_some hcall
  have hsame : host.call (n + k) callee arguments s = some (other, t) :=
    (call_endsLike (Grants.refl host) (Nat.le_add_left k n) callee arguments).eq_some hother
  have heq : some (other, t) = some (value, s') := hsame.symm.trans hmore
  exact Or.inl (hother.trans heq)

/-- Under a limit calls are made as the calls inside them are. -/
theorem limited_eq (hlimit : 0 < host.limit) :
    host.limited = host.callWith (some host.limited) := by
  funext callee arguments s
  let k := host.limit - s.depth
  obtain ⟨value, s', hcall⟩ : ∃ value s', host.call (k + 1) callee arguments s = some (value, s') :=
    call_ends hlimit (by omega) callee arguments
  have hleft : host.limited callee arguments s = some (value, s') :=
    (call_endsLike_limited hlimit (k + 1) callee arguments).eq_some hcall
  have hinner : ∀ call ∈ some (host.call k), ∃ call' ∈ some host.limited, ∀ f arguments,
      Run.EndsLike (fun _ => False) (call f arguments) (call' f arguments) := by
    intro call hmem
    cases hmem
    exact ⟨host.limited, rfl, call_endsLike_limited hlimit k⟩
  have hright : host.callWith (some host.limited) callee arguments s = some (value, s') :=
    (callWith_endsLike (Grants.refl host) hinner callee arguments).eq_some hcall
  rw [hleft, hright]

/-- Calls made as the calls inside them are give whatever a call gives that ends with
a number of calls that may nest. -/
theorem call_endsLike_of_eq {call : Call} (h : call = host.callWith (some call)) (n : Nat)
    (callee : Value) (arguments : List Value) :
    Run.EndsLike (fun _ => False) (host.call n callee arguments) (call callee arguments) := by
  induction n generalizing callee arguments with
  | zero =>
      rw [h]
      exact callWith_endsLike (Grants.refl host) (by simp) callee arguments
  | succ n ih =>
      rw [h]
      refine callWith_endsLike (Grants.refl host) (fun inner hinner => ?_) callee arguments
      cases hinner
      exact ⟨call, rfl, ih⟩

/-- There is no other way to make calls as the calls inside them are. -/
theorem eq_limited_of_eq (hlimit : 0 < host.limit) {call : Call}
    (h : call = host.callWith (some call)) : call = host.limited := by
  funext callee arguments s
  obtain ⟨value, s', hcall⟩ : ∃ value s', host.limited callee arguments s = some (value, s') :=
    call_ends hlimit (by omega) callee arguments
  rw [hcall]
  exact (call_endsLike_of_eq h _ callee arguments).eq_some hcall

end Host

/-- Under a limit the calls of an evaluation have no use for its budget. -/
theorem Interpreter.call_eq {ip : Interpreter} (hlimit : 0 < ip.host.limit) (budget : Nat) :
    ip.call budget = ip.host.call (ip.host.limit - ip.state.depth) := by
  have hne : ip.host.limit ≠ 0 := by omega
  simp [Interpreter.call, Interpreter.reach, hne]

/-- **Under a limit on nested calls every evaluation ends.**  Calls are made as the
calls inside them are, which is an equation between ways to make calls; under a
limit it has exactly one solution.  Every node ends in every frame and state,
whatever functions the frames hold: with any budget, with any number of calls that
may nest from the limit less the depth on, and with calls that solve the equation,
always in the same value and state, at the depth it started from. -/
theorem eval_terminates (ip : Interpreter) (hlimit : 0 < ip.host.limit) :
    (∃! call : Call, call = ip.host.callWith (some call)) ∧
    ∀ (node : Node) (frame : FrameId), ∃ value s', s'.depth = ip.state.depth ∧
      (∀ budget, node.eval (ip.call budget) frame ip.state = some (value, s')) ∧
      (∀ n, ip.host.limit - ip.state.depth ≤ n →
        node.eval (ip.host.call n) frame ip.state = some (value, s')) ∧
      ∀ call : Call, call = ip.host.callWith (some call) →
        node.eval call frame ip.state = some (value, s') := by
  refine ⟨⟨ip.host.limited, Host.limited_eq hlimit, fun call => Host.eq_limited_of_eq hlimit⟩, ?_⟩
  intro node frame
  let k := ip.host.limit - ip.state.depth
  obtain ⟨value, s', hends, hdepth⟩ :
      ∃ value s', node.eval (ip.host.call k) frame ip.state = some (value, s') ∧
        s'.depth = ip.state.depth :=
    Host.eval_ends hlimit (by omega) node frame
  refine ⟨value, s', hdepth, fun budget => ?_, fun n hn => ?_, fun call hcall => ?_⟩
  · rw [Interpreter.call_eq hlimit]
    exact hends
  · have hcalls := ip.host.call_endsLike (Host.Grants.refl ip.host) hn
    exact (node.eval_endsLike hcalls frame).eq_some hends
  · exact (node.eval_endsLike (Host.call_endsLike_of_eq hcall k) frame).eq_some hends

/-- A function that calls itself without end. -/
def runaway : Program := (parse "let f = fn(x) \x7b f([x]) \x7d; f(1)").1

theorem eval_terminates_on_runaway :
    0 < (Interpreter.new 3).host.limit ∧
      ∃ value s', (Node.program runaway).eval ((Interpreter.new 3).call 0) Frames.global
          (Interpreter.new 3).state = some (value, s') ∧
        value.inspect = Text.ofString "ERROR: maximum call depth exceeded (3)" := by
  have hlimit : 0 < (Interpreter.new 3).host.limit := by decide
  obtain ⟨value, s', _, hends, _⟩ :=
    (eval_terminates (Interpreter.new 3) hlimit).2 (.program runaway) Frames.global
  refine ⟨hlimit, value, s', hends 0, ?_⟩
  have hvalue : ((Node.program runaway).eval ((Interpreter.new 3).call 0) Frames.global
      (Interpreter.new 3).state).all (fun out =>
        out.1.inspect = Text.ofString "ERROR: maximum call depth exceeded (3)") = true := by
    decide +kernel
  rw [hends 0] at hvalue
  simpa using hvalue

/-! ## Two limits -/

/-- A larger limit, or none, allows all calls that a smaller one does. -/
theorem Host.grants_of_le {n m : Nat} (hn : 0 < n) (hm : m = 0 ∨ n ≤ m) (supplied : List Native) :
    Host.Grants (· = .callDepth n) ⟨n, supplied⟩ ⟨m, supplied⟩ := by
  refine ⟨rfl, fun depth h => ?_, Or.inr rfl⟩
  simp only [forbids, Bool.and_eq_false_iff, decide_eq_false_iff_not] at h ⊢
  omega

/-- **A limit on nested calls shows in nothing but its own error.**  A program that
ends in anything else under a limit ends under a larger limit, or under none, in the
same value, with the same output and the same global bindings. -/
theorem limit_shows_only_as_its_error (program : Program) (n : Nat) (hn : 0 < n) (m : Int)
    (hm : m ≤ 0 ∨ (n : Int) ≤ m) (budget : Nat) (value : Value) (ip : Interpreter)
    (h : (Interpreter.new n).evalGlobal budget program = some (value, ip))
    (hvalue : value ≠ .error (.callDepth n)) :
    ∀ budget', n ≤ budget' →
      ∃ ip', (Interpreter.new m.toNat).evalGlobal budget' program = some (value, ip') ∧
        ip'.output = ip.output ∧
        ip'.bindings Frames.global = ip.bindings Frames.global ∧
        ip'.state = ip.state := by
  intro budget' hbudget
  have hsmall : (Node.program program).eval ((Interpreter.new n).host.call n) Frames.global
      (Interpreter.new n).state = some (value, ip.state) := by
    have hrun := Interpreter.runWith_eq_some h
    rwa [Interpreter.call_eq hn] at hrun
  have hreach : n ≤ (Interpreter.new m.toNat).reach budget' := by
    have hnew : (Interpreter.new m.toNat).reach budget' =
        if m.toNat = 0 then budget' else m.toNat := rfl
    rw [hnew]
    split <;> omega
  have hgrants := Host.grants_of_le hn (show m.toNat = 0 ∨ n ≤ m.toNat by omega) []
  have hcalls := Host.call_endsLike hgrants hreach
  have hlarge : (Node.program program).eval ((Interpreter.new m.toNat).call budget')
      Frames.global (Interpreter.new m.toNat).state = some (value, ip.state) := by
    rcases Node.eval_endsLike hcalls Frames.global (.program program) _ value _ hsmall with
      hsame | ⟨cause, hcause, rfl⟩
    · exact hsame
    · exact absurd hcause hvalue
  refine ⟨⟨(Interpreter.new m.toNat).host, ip.state⟩, ?_, rfl, rfl, rfl⟩
  exact Option.map_eq_some_iff.2 ⟨_, hlarge, rfl⟩

/-- A function that calls itself as often as it is told and prints on the way. -/
def countdown : Program :=
  (parse "let f = fn(n) \x7b puts(n); if (n > 0) \x7b f(n - 1) \x7d else \x7b n \x7d \x7d; f(2)").1

theorem limit_shows_only_as_its_error_on_countdown :
    ∃ value ip, (Interpreter.new 3).evalGlobal 0 countdown = some (value, ip) ∧
      value ≠ .error (.callDepth 3) ∧ ip.output = Text.ofString "2\n1\n0\n" ∧
      ∃ ip', (Interpreter.new (-1 : Int).toNat).evalGlobal 3 countdown = some (value, ip') ∧
        ip'.output = ip.output ∧
        ip'.bindings Frames.global = ip.bindings Frames.global ∧
        ip'.state = ip.state := by
  have hchecked : ((Interpreter.new 3).evalGlobal 0 countdown).any (fun out =>
      !out.1.isError && out.2.output = Text.ofString "2\n1\n0\n") = true := by
    decide +kernel
  rcases hrun : (Interpreter.new 3).evalGlobal 0 countdown with _ | ⟨value, ip⟩
  · simp [hrun] at hchecked
  · simp only [hrun, Option.any_some, Bool.and_eq_true, Bool.not_eq_true', decide_eq_true_eq]
      at hchecked
    have hvalue : value ≠ .error (.callDepth 3) := by
      rintro rfl
      simp [Value.isError] at hchecked
    refine ⟨value, ip, rfl, hvalue, hchecked.2, ?_⟩
    exact limit_shows_only_as_its_error countdown 3 (by decide) (-1) (by decide) 0 value ip hrun
      hvalue 3 (by decide)

end MonkeyLang
