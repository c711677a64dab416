import MonkeyLang.Proofs.ErrorPropagation
import MonkeyLang.Proofs.LikeValues
import MonkeyLang.Proofs.TreeCopy

/-!
# Evaluations that go alike

Two evaluations start in states that are alike, on trees that are copies of each other.
If looking up a name, binding one, making a function, entering one and running a
built-in function keep the two alike, so does evaluation as a whole: both end in nothing,
both are cut short by the same error, or both end in like values, and in like states.

How states are alike may change as frames are made.  So a likeness has worlds, and what
is alike in one world is alike in every later one.  `Likeness.Lawful` collects what has
to be known of the single steps, `Likeness.Lawful.program` is what follows from it.
-/

namespace MonkeyLang

/-- What two evaluations have in common at each moment. -/
structure Likeness where
  World : Type
  /-- The second world comes after the first. -/
  le : World → World → Prop
  spelling : Spelling
  /-- Frames that stand for each other. -/
  frame : World → FrameId → FrameId → Prop
  frames : World → Frames → Frames → Prop
  error : RuntimeError → Prop
  builtin : BuiltinCode → Prop

namespace Likeness

/-- Functions are alike that were made from copies of a tree in frames that stand for
each other. -/
def manner (L : Likeness) (w : L.World) : Manner where
  closure c c' := CopyNames L.spelling c.parameters c'.parameters ∧
    c.body.Copy L.spelling c'.body ∧ L.frame w c.frame c'.frame
  returned := True
  error := L.error
  builtin := L.builtin

/-- States that differ in their frames alone. -/
structure States (L : Likeness) (w : L.World) (s s' : State) : Prop where
  frames : L.frames w s.frames s'.frames
  effects : s'.effects = s.effects
  depth : s'.depth = s.depth

/-- What the single steps of two evaluations under two hosts keep. -/
structure Lawful (L : Likeness) (host host' : Host) : Prop where
  refl : ∀ w, L.le w w
  trans : ∀ {u v w}, L.le u v → L.le v w → L.le u w
  frame_mono : ∀ {w w' f f'}, L.le w w' → L.frame w f f' → L.frame w' f f'
  name : ∀ {t t'}, L.spelling.name t t' → t'.literal = t.literal
  mark : ∀ {t t'}, L.spelling.mark t t' → t'.literal = t.literal
  enter : ∀ {w F F' f f' own own'}, L.frames w F F' → L.frame w f f' →
    own.outer = some f → own'.outer = some f' →
    BindingsLike (L.manner w) own.bindings own'.bindings →
    ∃ w', L.le w w' ∧ L.frame w' F.size F'.size ∧ L.frames w' (F.push own) (F'.push own')
  lookup : ∀ {w s s' f f' t t'}, L.States w s s' → L.frame w f f' → L.spelling.name t t' →
    ∃ v v', Run.lookup f t.literal s = some (v, s) ∧ Run.lookup f' t'.literal s' = some (v', s') ∧
      v.Given (L.manner w) v'
  bind : ∀ {w F F' f f' t t' v v'}, L.frames w F F' → L.frame w f f' → L.spelling.name t t' →
    v.Like (L.manner w) v' → L.frames w (F.bind f t.literal v) (F'.bind f' t'.literal v')
  limit : host'.limit = host.limit
  native : ∀ {w code arguments arguments'}, L.builtin code →
    AllLike (L.manner w) arguments arguments' →
    (host.native code arguments).Alike (L.manner w) (host'.native code arguments')

variable {L : Likeness} {α α' β β' : Type}

/-- Two trials have ended alike, in a world that comes after the given one. -/
inductive Ends (L : Likeness) (w : L.World) (R : L.World → α → α' → Prop) :
    Option (Except RuntimeError α × State) → Option (Except RuntimeError α' × State) → Prop
  | unfinished : Ends L w R none none
  | raised {w' : L.World} {s s' : State} (cause : RuntimeError) (hle : L.le w w')
      (hs : L.States w' s s') : Ends L w R (some (.error cause, s)) (some (.error cause, s'))
  | given {w' : L.World} {a : α} {a' : α'} {s s' : State} (hle : L.le w w') (h : R w' a a')
      (hs : L.States w' s s') : Ends L w R (some (.ok a, s)) (some (.ok a', s'))

/-- From like states the trials end alike. -/
def Follows (L : Likeness) (w : L.World) (R : L.World → α → α' → Prop) (m : Trial α)
    (m' : Trial α') : Prop :=
  ∀ s s', L.States w s s' → L.Ends w R (m.run s) (m'.run s')

/-- Like values, as what trials end in. -/
def Values (L : Likeness) (w : L.World) (v v' : Value) : Prop := v.Like (L.manner w) v'

/-- Calls of like values with like arguments end alike. -/
def Calls (L : Likeness) (call call' : TrialCall) : Prop :=
  ∀ w f f' arguments arguments', f.Like (L.manner w) f' →
    AllLike (L.manner w) arguments arguments' →
    L.Follows w L.Values (call f arguments) (call' f' arguments')

namespace Lawful

variable {host host' : Host} {w : L.World} {R : L.World → α → α' → Prop}
  {Q : L.World → β → β' → Prop}

/-- What was alike stays alike. -/
theorem within (hL : L.Lawful host host') {w' : L.World} (hle : L.le w w') :
    (L.manner w).Within (L.manner w') where
  closure _ _ h := ⟨h.1, h.2.1, hL.frame_mono hle h.2.2⟩
  returned h := h
  error _ h := h
  builtin _ h := h

/-- A world after a later world is a later world. -/
theorem ends_of_le (hL : L.Lawful host host') {w' : L.World} (hle : L.le w w')
    {x : Option (Except RuntimeError α × State)} {x' : Option (Except RuntimeError α' × State)}
    (h : L.Ends w' R x x') : L.Ends w R x x' := by
  cases h with
  | unfinished => exact .unfinished
  | raised cause hle' hs => exact .raised cause (hL.trans hle hle') hs
  | given hle' h hs => exact .given (hL.trans hle hle') h hs

theorem pure (hL : L.Lawful host host') {a : α} {a' : α'} (h : R w a a') :
    L.Follows w R (pure a) (pure a') :=
  fun _ _ hs => .given (hL.refl w) h hs

theorem throw (hL : L.Lawful host host') (cause : RuntimeError) :
    L.Follows w R (throw cause) (throw cause) :=
  fun _ _ hs => .raised cause (hL.refl w) hs

/-- One trial after another.  What was alike before is alike in the world after the
first one. -/
theorem andThen (hL : L.Lawful host host') {m : Trial α} {m' : Trial α'} {f : α → Trial β}
    {f' : α' → Trial β'} (hm : L.Follows w R m m')
    (hf : ∀ w', L.le w w' → ∀ a a', R w' a a' → L.Follows w' Q (f a) (f' a')) :
    L.Follows w Q (m >>= f) (m' >>= f') := by
  intro s s' hs
  have hends := hm s s' hs
  generalize hx : m.run s = x at hends
  generalize hx' : m'.run s' = x' at hends
  cases hends with
  | unfinished =>
      rw [Trial.bind_run_of_none hx, Trial.bind_run_of_none hx']
      exact .unfinished
  | raised cause hle ht =>
      rw [Trial.bind_run_of_error hx, Trial.bind_run_of_error hx']
      exact .raised cause hle ht
  | given hle h ht =>
      rw [Trial.bind_run_of_ok hx, Trial.bind_run_of_ok hx']
      exact hL.ends_of_le hle (hf _ hle _ _ h _ _ ht)

/-- Handing a value on, or raising the same error. -/
theorem give (hL : L.Lawful host host') {v v' : Value} (h : v.Given (L.manner w) v') :
    L.Follows w L.Values (Trial.give v) (Trial.give v') := by
  rcases h with h | ⟨cause, rfl, rfl⟩
  · cases h with
    | error _ => exact hL.throw _
    | integer n => exact hL.pure (.integer n)
    | boolean b => exact hL.pure (.boolean b)
    | string t => exact hL.pure (.string t)
    | null => exact hL.pure .null
    | returned hr h => exact hL.pure (.returned hr h)
    | function h => exact hL.pure (.function h)
    | builtin h => exact hL.pure (.builtin h)
    | array h => exact hL.pure (.array h)
    | hash h => exact hL.pure (.hash h)
  · exact hL.throw cause

/-- A value handed on after a step that may have made an error. -/
theorem andGive (hL : L.Lawful host host') {m m' : Trial Value}
    (h : L.Follows w (fun w v v' => v.Given (L.manner w) v') m m') :
    L.Follows w L.Values (m >>= Trial.give) (m' >>= Trial.give) :=
  hL.andThen h fun _ _ _ _ hv => hL.give hv

/-- A run within a trial that ends from like states in like states, perhaps of a
later world. -/
theorem ofRun_later {m : Run α} {m' : Run α'}
    (h : ∀ s s', L.States w s s' → ∃ w' a a' t t', L.le w w' ∧ m s = some (a, t) ∧
      m' s' = some (a', t') ∧ R w' a a' ∧ L.States w' t t') :
    L.Follows w R (Trial.ofRun m) (Trial.ofRun m') := by
  intro s s' hs
  obtain ⟨w', a, a', t, t', hle, hm, hm', hr, ht⟩ := h s s' hs
  rw [Trial.ofRun_run_of_some hm, Trial.ofRun_run_of_some hm']
  exact .given hle hr ht

/-- A run within a trial that ends from like states in like states. -/
theorem ofRun (hL : L.Lawful host host') {m : Run α} {m' : Run α'}
    (h : ∀ s s', L.States w s s' → ∃ a a' t t', m s = some (a, t) ∧ m' s' = some (a', t') ∧
      R w a a' ∧ L.States w t t') : L.Follows w R (Trial.ofRun m) (Trial.ofRun m') := by
  refine ofRun_later fun s s' hs => ?_
  obtain ⟨a, a', t, t', hrest⟩ := h s s' hs
  exact ⟨w, a, a', t, t', hL.refl w, hrest⟩

/-- What sees no frame and has the same effects. -/
theorem lift (hL : L.Lawful host host') {x : Effect α} {x' : Effect α'}
    (h : ∀ e, R w (x e).1 (x' e).1 ∧ (x' e).2 = (x e).2) :
    L.Follows w R (Trial.lift x) (Trial.lift x') := by
  refine hL.ofRun fun s s' hs => ?_
  obtain ⟨hvalue, heffects⟩ := h s.effects
  refine ⟨_, _, _, _, rfl, rfl, ?_, hs.frames, ?_, hs.depth⟩
  · rw [hs.effects]
    exact hvalue
  · change (x' s'.effects).2 = (x s.effects).2
    rw [hs.effects]
    exact heffects

/-- One call deeper. -/
theorem deeper {m : Trial α} {m' : Trial α'} (h : L.Follows w R m m') :
    L.Follows w R (Trial.deeper m) (Trial.deeper m') := by
  intro s s' hs
  have hends := h { s with depth := s.depth + 1 } { s' with depth := s'.depth + 1 }
    ⟨hs.frames, hs.effects, by rw [hs.depth]⟩
  change L.Ends w R (Run.deeper m.run s) (Run.deeper m'.run s')
  generalize hx : m.run { s with depth := s.depth + 1 } = x at hends
  generalize hx' : m'.run { s' with depth := s'.depth + 1 } = x' at hends
  cases hends with
  | unfinished =>
      rw [Run.deeper_run_of_none hx, Run.deeper_run_of_none hx']
      exact .unfinished
  | raised cause hle ht =>
      rw [Run.deeper_run_of_some hx, Run.deeper_run_of_some hx']
      exact .raised cause hle ⟨ht.frames, ht.effects, by rw [ht.depth]⟩
  | given hle h ht =>
      rw [Run.deeper_run_of_some hx, Run.deeper_run_of_some hx']
      exact .given hle h ⟨ht.frames, ht.effects, by rw [ht.depth]⟩

end Lawful
end Likeness

theorem Frame.outer_setAll (f : Frame) (names : List Token) (arguments : List Value) :
    (f.setAll names arguments).outer = f.outer := by
  fun_induction Frame.setAll f names arguments with
  | case1 f name names argument arguments ih => exact ih
  | case2 => rfl

/-- Copies of names bound to like arguments. -/
theorem CopyNames.setAll {c : Spelling} {m : Manner}
    (hname : ∀ {t t'}, c.name t t' → t'.literal = t.literal) {names names' : List Token}
    (h : CopyNames c names names') {arguments arguments' : List Value}
    (harguments : AllLike m arguments arguments') (f f' : Frame)
    (hf : BindingsLike m f.bindings f'.bindings) :
    BindingsLike m (f.setAll names arguments).bindings (f'.setAll names' arguments').bindings := by
  induction h generalizing arguments arguments' f f' with
  | nil => exact hf
  | cons ht _ ih =>
      cases harguments with
      | nil => exact hf
      | cons hv hrest =>
          unfold Frame.setAll
          apply ih hrest
          simp only [Frame.set]
          rw [hname ht]
          exact hf.rebind _ hv

theorem Value.Like.leaves_eq {m : Manner} {v v' : Value} (h : v.Like m v') :
    v'.leaves = v.leaves := by
  cases h <;> rfl

section Tree

open Likeness

variable {L : Likeness} {host host' : Host} {call call' : TrialCall}

mutual

/-- Copies of an expression. -/
theorem Expr.Copy.follows (hL : L.Lawful host host') (hcalls : L.Calls call call')
    {w : L.World} {f f' : FrameId} (hf : L.frame w f f') {e e' : Expr}
    (h : e.Copy L.spelling e') :
    L.Follows w L.Values (e.attempt call f) (e'.attempt call' f') := by
  match h with
  | .ident ht =>
      rw [Expr.attempt, Expr.attempt]
      refine hL.andGive (hL.ofRun fun s s' hs => ?_)
      obtain ⟨v, v', hv, hv', hgiven⟩ := hL.lookup hs hf ht
      exact ⟨v, v', s, s', hv, hv', hgiven, hs⟩
  | .int _ value =>
      rw [Expr.attempt, Expr.attempt]
      exact hL.pure (.integer value)
  | .string ht =>
      rw [Expr.attempt, Expr.attempt, hL.mark ht]
      exact hL.pure (.string _)
  | .bool _ value =>
      rw [Expr.attempt, Expr.attempt]
      exact hL.pure (.boolean value)
  | .unary ht ha =>
      rw [Expr.attempt, Expr.attempt, hL.mark ht]
      exact hL.andThen (ha.follows hL hcalls hf) fun w' _ v v' hv => hL.give (hv.unary _)
  | .binary ht ha hb =>
      rw [Expr.attempt, Expr.attempt, hL.mark ht]
      refine hL.andThen (ha.follows hL hcalls hf) fun w' hle a a' hva => ?_
      refine hL.andThen (hb.follows hL hcalls (hL.frame_mono hle hf)) fun w'' hle' b b' hvb => ?_
      exact hL.give ((hva.within (hL.within hle')).binary _ hvb)
  | .cond _ htest hyes =>
      rw [Expr.attempt, Expr.attempt]
      refine hL.andThen (htest.follows hL hcalls hf) fun w' hle v v' hv => ?_
      rw [hv.isTruthy_eq]
      cases v.isTruthy with
      | true => exact hyes.follows hL hcalls (hL.frame_mono hle hf)
      | false => exact hL.pure .null
  | .condElse _ htest hyes hno =>
      rw [Expr.attempt, Expr.attempt]
      refine hL.andThen (htest.follows hL hcalls hf) fun w' hle v v' hv => ?_
      rw [hv.isTruthy_eq]
      cases v.isTruthy with
      | true => exact hyes.follows hL hcalls (hL.frame_mono hle hf)
      | false => exact hno.follows hL hcalls (hL.frame_mono hle hf)
  | .function _ hnames hbody =>
      rw [Expr.attempt, Expr.attempt]
      exact hL.lift fun _ => ⟨.function ⟨hnames, hbody, hf⟩, rfl⟩
  | .call _ hcallee harguments =>
      rw [Expr.attempt, Expr.attempt]
      refine hL.andThen (hcallee.follows hL hcalls hf) fun w' hle g g' hg => ?_
      refine hL.andThen (harguments.follows hL hcalls (hL.frame_mono hle hf))
        fun w'' hle' values values' hvalues => ?_
      exact hcalls w'' g g' values values' (hg.within (hL.within hle')) hvalues
  | .array _ helements =>
      rw [Expr.attempt, Expr.attempt]
      refine hL.andThen (helements.follows hL hcalls hf) fun w' _ values values' hvalues => ?_
      exact hL.lift fun _ => ⟨.array hvalues, rfl⟩
  | .index _ ha hb =>
      rw [Expr.attempt, Expr.attempt]
      refine hL.andThen (ha.follows hL hcalls hf) fun w' hle a a' hva => ?_
      refine hL.andThen (hb.follows hL hcalls (hL.frame_mono hle hf)) fun w'' hle' b b' hvb => ?_
      exact hL.give ((hva.within (hL.within hle')).index hvb)
  | .hash _ hpairs =>
      rw [Expr.attempt, Expr.attempt]
      exact hpairs.follows hL hcalls hf .nil

/-- Arguments and elements. -/
theorem CopyAll.follows (hL : L.Lawful host host') (hcalls : L.Calls call call')
    {w : L.World} {f f' : FrameId} (hf : L.frame w f f') {es es' : List Expr}
    (h : CopyAll L.spelling es es') :
    L.Follows w (fun w => AllLike (L.manner w)) (attemptAll call f es)
      (attemptAll call' f' es') := by
  match h with
  | .nil =>
      rw [attemptAll, attemptAll]
      exact hL.pure .nil
  | .cons h hrest =>
      rw [attemptAll, attemptAll]
      refine hL.andThen (h.follows hL hcalls hf) fun w' hle v v' hv => ?_
      refine hL.andThen (hrest.follows hL hcalls (hL.frame_mono hle hf))
        fun w'' hle' values values' hvalues => ?_
      exact hL.pure (.cons (hv.within (hL.within hle')) hvalues)

/-- The entries of a hash literal, after the ones that were made. -/
theorem CopyPairs.follows (hL : L.Lawful host host') (hcalls : L.Calls call call')
    {w : L.World} {f f' : FrameId} (hf : L.frame w f f') {pairs pairs' : List (Expr × Expr)}
    (h : CopyPairs L.spelling pairs pairs') {entries entries' : Table Value}
    (hentries : EntriesLike (L.manner w) entries entries') :
    L.Follows w L.Values (attemptPairs call f pairs entries)
      (attemptPairs call' f' pairs' entries') := by
  match h with
  | .nil =>
      rw [attemptPairs, attemptPairs]
      exact hL.lift fun _ => ⟨.hash hentries, rfl⟩
  | .cons hkey hvalue hrest =>
      rw [attemptPairs, attemptPairs]
      refine hL.andThen (hkey.follows hL hcalls hf) fun w' hle k k' hk => ?_
      rw [hk.key?_eq, hk.kind_eq]
      cases k.key? with
      | none => exact hL.throw _
      | some found =>
          refine hL.andThen (hvalue.follows hL hcalls (hL.frame_mono hle hf))
            fun w'' hle' v v' hv => ?_
          have hlater := hL.trans hle hle'
          exact hrest.follows hL hcalls (hL.frame_mono hlater hf)
            ((hentries.within (hL.within hlater)).set found hv)

/-- Copies of a statement. -/
theorem Stmt.Copy.follows (hL : L.Lawful host host') (hcalls : L.Calls call call')
    {w : L.World} {f f' : FrameId} (hf : L.frame w f f') {s s' : Stmt}
    (h : s.Copy L.spelling s') :
    L.Follows w L.Values (s.attempt call f) (s'.attempt call' f') := by
  match h with
  | .bind _ hname hvalue =>
      rw [Stmt.attempt, Stmt.attempt]
      refine hL.andThen (hvalue.follows hL hcalls hf) fun w' hle v v' hv => ?_
      refine hL.andThen (R := fun _ _ _ => True) (hL.ofRun fun s s' hs => ?_)
        fun w'' _ _ _ _ => hL.pure .null
      exact ⟨(), (), _, _, rfl, rfl, trivial,
        hL.bind hs.frames (hL.frame_mono hle hf) hname hv, hs.effects, hs.depth⟩
  | .leave _ =>
      rw [Stmt.attempt, Stmt.attempt]
      exact hL.lift fun _ => ⟨.returned trivial .null, rfl⟩
  | .leaveWith _ hvalue =>
      rw [Stmt.attempt, Stmt.attempt]
      refine hL.andThen (hvalue.follows hL hcalls hf) fun w' _ v v' hv => ?_
      exact hL.lift fun _ => ⟨.returned trivial hv, rfl⟩
  | .expr _ hvalue =>
      rw [Stmt.attempt, Stmt.attempt]
      exact hvalue.follows hL hcalls hf

/-- Copies of statements in a row, after like values. -/
theorem CopyStatements.follows (hL : L.Lawful host host') (hcalls : L.Calls call call')
    {w : L.World} {f f' : FrameId} (hf : L.frame w f f') {list list' : List Stmt}
    (h : CopyStatements L.spelling list list') {last last' : Value}
    (hlast : last.Like (L.manner w) last') :
    L.Follows w L.Values (attemptStatements call f list last)
      (attemptStatements call' f' list' last') := by
  match h with
  | .nil =>
      rw [attemptStatements, attemptStatements]
      exact hL.pure hlast
  | .cons h hrest =>
      rw [attemptStatements, attemptStatements]
      refine hL.andThen (h.follows hL hcalls hf) fun w' hle v v' hv => ?_
      rw [hv.leaves_eq]
      cases v.leaves with
      | true => exact hL.pure hv
      | false => exact hrest.follows hL hcalls (hL.frame_mono hle hf) hv

/-- Copies of a block. -/
theorem Block.Copy.follows (hL : L.Lawful host host') (hcalls : L.Calls call call')
    {w : L.World} {f f' : FrameId} (hf : L.frame w f f') {b b' : Block}
    (h : b.Copy L.spelling b') :
    L.Follows w L.Values (b.attempt call f) (b'.attempt call' f') := by
  match h with
  | .mk _ hstatements =>
      rw [Block.attempt, Block.attempt]
      exact hstatements.follows hL hcalls hf .null

end

end Tree

namespace Likeness.Lawful

variable {L : Likeness} {host host' : Host}

/-- One call ends alike if the calls inside it do. -/
theorem attemptWith (hL : L.Lawful host host') {inner inner' : Option TrialCall}
    (h : Option.Rel L.Calls inner inner') :
    L.Calls (host.attemptWith inner) (host'.attemptWith inner') := by
  intro w callee callee' arguments arguments' hcallee harguments
  unfold Host.attemptWith
  cases hcallee with
  | function hclosure =>
      dsimp only
      obtain ⟨hnames, hbody, hframe⟩ := hclosure
      simp only at hnames hbody hframe
      rw [harguments.length_eq, hnames.length_eq]
      split
      · exact hL.throw _
      · refine hL.andThen (R := fun _ depth depth' => depth' = depth) ?_
          fun w' hle depth depth' hd => ?_
        · exact hL.ofRun fun s s' hs => ⟨_, _, s, s', rfl, rfl, hs.depth, hs⟩
        · have hforbids : host'.forbids depth = host.forbids depth := by
            simp only [Host.forbids, hL.limit]
          rw [hd, hforbids, hL.limit]
          split
          · exact hL.throw _
          · cases h with
            | none => exact fun s s' hs => .unfinished
            | some hcalls =>
                refine deeper (hL.andThen (R := L.frame) (ofRun_later fun s s' hs => ?_) ?_)
                · obtain ⟨u, hu, hown, hframes⟩ :=
                    hL.enter hs.frames (hL.frame_mono hle hframe) (Frame.outer_setAll _ _ _)
                      (Frame.outer_setAll _ _ _)
                      (hnames.setAll hL.name (harguments.within (hL.within hle))
                        (Frame.empty _) (Frame.empty _) .nil)
                  exact ⟨u, _, _, _, _, hu, rfl, rfl, hown, hframes, hs.effects, hs.depth⟩
                · intro u _ own own' hown
                  refine hL.andThen (hbody.follows hL hcalls hown)
                    fun u' _ v v' hv => ?_
                  exact hL.give hv.landed.given
  | builtin hbuiltin =>
      dsimp only
      exact hL.andGive (hL.lift fun e => hL.native hbuiltin harguments e)
  | integer | boolean | string | null | returned | error | array | hash => exact hL.throw _

/-- However many calls may nest, like calls end alike. -/
theorem attempt (hL : L.Lawful host host') (n : Nat) :
    L.Calls (host.attempt n) (host'.attempt n) := by
  induction n with
  | zero => exact hL.attemptWith .none
  | succ n ih => exact hL.attemptWith (.some ih)

end Likeness.Lawful

/-- Runs that agree with trials that end alike: neither ends, or both end in like values
or the same error, and in like states. -/
theorem Likeness.Follows.runs {L : Likeness} {w : L.World} {m m' : Trial Value}
    (h : L.Follows w L.Values m m') {r r' : Run Value} (hr : Agrees r m) (hr' : Agrees r' m')
    {s s' : State} (hs : L.States w s s') :
    (r s = none ∧ r' s' = none) ∨
      ∃ w' v v' t t', L.le w w' ∧ r s = some (v, t) ∧ r' s' = some (v', t') ∧
        v.Given (L.manner w') v' ∧ L.States w' t t' := by
  have hends := h s s' hs
  have hrun := hr s
  have hrun' := hr' s'
  generalize m.run s = x at hends hrun
  generalize m'.run s' = x' at hends hrun'
  cases hends with
  | unfinished => exact Or.inl ⟨hrun.none_iff.2 rfl, hrun'.none_iff.2 rfl⟩
  | @raised w' t t' cause hle ht =>
      refine Or.inr ⟨w', .error cause, .error cause, t, t', hle, ?_, ?_, .error cause, ht⟩
      · exact (hrun.error_iff cause t).2 rfl
      · exact (hrun'.error_iff cause t').2 rfl
  | @given w' v v' t t' hle hv ht =>
      refine Or.inr ⟨w', v, v', t, t', hle, ?_, ?_, hv.given, ht⟩
      · exact ((hrun.value_iff v t).2 rfl).1
      · exact ((hrun'.value_iff v' t').2 rfl).1

namespace Likeness.Lawful

variable {L : Likeness} {host host' : Host}

/-- Trials of copies of a program end alike. -/
theorem attemptProgram (hL : L.Lawful host host') (n : Nat) {w : L.World} {f f' : FrameId}
    (hf : L.frame w f f') {p p' : Program}
    (hp : CopyStatements L.spelling p.statements p'.statements) :
    L.Follows w L.Values (p.attempt (host.attempt n) f) (p'.attempt (host'.attempt n) f') := by
  unfold Program.attempt
  refine hL.andThen (hp.follows hL (hL.attempt n) hf .null) fun w' _ v v' hv => ?_
  exact hL.give hv.landed.given

/-- **Evaluations of copies of a program go alike**, however many calls may nest: both
end in nothing, or both end in like values or the same error, and in like states. -/
theorem program (hL : L.Lawful host host') (n : Nat) {w : L.World} {f f' : FrameId}
    (hf : L.frame w f f') {p p' : Program}
    (hp : CopyStatements L.spelling p.statements p'.statements) {s s' : State}
    (hs : L.States w s s') :
    (p.eval (host.call n) f s = none ∧ p'.eval (host'.call n) f' s' = none) ∨
      ∃ w' v v' t t', L.le w w' ∧ p.eval (host.call n) f s = some (v, t) ∧
        p'.eval (host'.call n) f' s' = some (v', t') ∧ v.Given (L.manner w') v' ∧
        L.States w' t t' :=
  (hL.attemptProgram n hf hp).runs (p.agrees (host.call_agrees n) f)
    (p'.agrees (host'.call_agrees n) f') hs

end Likeness.Lawful
end MonkeyLang
