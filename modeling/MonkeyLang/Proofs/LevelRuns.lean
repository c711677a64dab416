import MonkeyLang.Proofs.FrameEffect
import MonkeyLang.Proofs.LikeTrials

/-!
# Evaluations in the same frames

Two evaluations of copies of a program are level when they make the same frames in the
same order, and frames with the same number bind like values.  How much they may differ
is their leeway: how the tokens of the two programs are spelled, which errors and which
built-in functions may stand in values, and which frames bind the very same names.  In a
frame that does not, the names that programs are written with still mean the same.

Nothing but the built-in functions has to be looked at to know that interpreters which
are level stay level: `Interpreter.Level.evalIn` follows from `Leeway.Allows`.
-/

namespace MonkeyLang

/-- How two evaluations in the same frames may differ. -/
structure Leeway where
  spelling : Spelling
  error : RuntimeError → Prop
  builtin : BuiltinCode → Prop
  /-- The frames that bind the same names in the same order. -/
  whole : FrameId → Prop

/-- How values differ in two such evaluations. -/
def Leeway.manner (l : Leeway) : Manner where
  closure c c' := CopyNames l.spelling c.parameters c'.parameters ∧
    c.body.Copy l.spelling c'.body ∧ c'.frame = c.frame
  returned := True
  error := l.error
  builtin := l.builtin

/-! ## Frames with the same number -/

namespace Frame

/-- Frames with the given number in two evaluations. -/
structure Level (l : Leeway) (id : FrameId) (f f' : Frame) : Prop where
  outer : f'.outer = f.outer
  /-- The names of programs mean the same. -/
  named : ∀ {t t'}, l.spelling.name t t' →
    Option.Rel (Value.Like l.manner) (f.get? t.literal) (f'.get? t'.literal)
  listed : l.whole id → BindingsLike l.manner f.bindings f'.bindings

variable {l : Leeway} {id : FrameId} {f f' : Frame}

/-- Frames that bind the same names to like values. -/
theorem level_of_bindings (hname : ∀ {t t'}, l.spelling.name t t' → t'.literal = t.literal)
    (houter : f'.outer = f.outer) (h : BindingsLike l.manner f.bindings f'.bindings) :
    f.Level l id f' where
  outer := houter
  named ht := by
    rw [hname ht]
    exact h.lookup _
  listed _ := h

/-- Binding a name to like values. -/
theorem Level.set (h : f.Level l id f')
    (hname : ∀ {t t'}, l.spelling.name t t' → t'.literal = t.literal) (name : Text)
    {v v' : Value} (hv : v.Like l.manner v') : (f.set name v).Level l id (f'.set name v') where
  outer := h.outer
  named ht := by
    have hold := h.named ht
    rw [hname ht] at hold ⊢
    unfold get? at hold ⊢
    simp only [Frame.set, lookup_rebind]
    split
    · exact .some hv
    · exact hold
  listed hid := (h.listed hid).rebind name hv

end Frame

/-- The frames of two evaluations, number by number. -/
structure Frames.Level (l : Leeway) (F F' : Frames) : Prop where
  size : F'.size = F.size
  frame : ∀ {id : FrameId} {f f' : Frame}, F[id]? = some f → F'[id]? = some f' →
    f.Level l id f'

namespace Frames.Level

variable {l : Leeway} {F F' : Frames}

/-- A number is that of a frame in both evaluations, or in none. -/
theorem cases (h : Level l F F') (id : FrameId) :
    (∃ f f', F[id]? = some f ∧ F'[id]? = some f' ∧ f.Level l id f') ∨
      (F[id]? = none ∧ F'[id]? = none) := by
  have hsize := h.size
  cases hf : F[id]? with
  | none =>
      rw [Array.getElem?_eq_none_iff] at hf
      refine Or.inr ⟨rfl, ?_⟩
      rw [Array.getElem?_eq_none_iff]
      omega
  | some f =>
      have hid := (Array.getElem?_eq_some_iff.1 hf).1
      cases hf' : F'[id]? with
      | none =>
          rw [Array.getElem?_eq_none_iff] at hf'
          omega
      | some f' => exact Or.inl ⟨f, f', rfl, rfl, h.frame hf hf'⟩

/-- A name of a program means the same through any number of frames. -/
theorem lookupWithin (h : Level l F F') {t t' : Token} (ht : l.spelling.name t t') (n : Nat)
    (id : FrameId) :
    Option.Rel (Value.Like l.manner) (F.lookupWithin t.literal n id)
      (F'.lookupWithin t'.literal n id) := by
  induction n generalizing id with
  | zero => exact .none
  | succ n ih =>
      rw [Frames.lookupWithin, Frames.lookupWithin]
      rcases h.cases id with ⟨f, f', hf, hf', hlevel⟩ | ⟨hf, hf'⟩
      · rw [hf, hf']
        have hown := hlevel.named ht
        dsimp only
        generalize f.get? t.literal = x at hown
        generalize f'.get? t'.literal = x' at hown
        cases hown with
        | some hv => exact .some hv
        | none =>
            dsimp only
            rw [hlevel.outer]
            cases f.outer with
            | none => exact .none
            | some outer => exact ih outer
      · rw [hf, hf']
        exact .none

/-- Binding a name in frames with the same number. -/
theorem bind (h : Level l F F')
    (hname : ∀ {t t'}, l.spelling.name t t' → t'.literal = t.literal) (id : FrameId)
    (name : Text) {v v' : Value} (hv : v.Like l.manner v') :
    Level l (F.bind id name v) (F'.bind id name v') := by
  constructor
  · simpa [Frames.bind] using h.size
  · intro k f f' hf hf'
    simp only [Frames.bind, Array.getElem?_modify] at hf hf'
    by_cases hk : id = k
    · rw [if_pos hk] at hf hf'
      obtain ⟨g, hg, rfl⟩ := Option.map_eq_some_iff.1 hf
      obtain ⟨g', hg', rfl⟩ := Option.map_eq_some_iff.1 hf'
      exact (h.frame hg hg').set hname name hv
    · rw [if_neg hk] at hf hf'
      exact h.frame hf hf'

/-- Making frames that are level. -/
theorem push (h : Level l F F') {own own' : Frame} (hown : own.Level l F.size own') :
    Level l (F.push own) (F'.push own') := by
  constructor
  · simpa using h.size
  · intro k f f' hf hf'
    rw [Array.getElem?_push] at hf hf'
    rw [h.size] at hf'
    by_cases hk : k = F.size
    · rw [if_pos hk] at hf hf'
      cases hf
      cases hf'
      rw [hk]
      exact hown
    · rw [if_neg hk] at hf hf'
      exact h.frame hf hf'

end Frames.Level

/-! ## Level interpreters -/

namespace Leeway

/-- The likeness of two evaluations in the same frames. -/
def likeness (l : Leeway) : Likeness where
  World := Unit
  le _ _ := True
  spelling := l.spelling
  frame _ f f' := f' = f
  frames _ := Frames.Level l
  error := l.error
  builtin := l.builtin

/-- What has to be known of two hosts: copies of a token have the same literal, and the
built-in functions treat like arguments alike. -/
structure Allows (l : Leeway) (host host' : Host) : Prop where
  name : ∀ {t t'}, l.spelling.name t t' → t'.literal = t.literal
  mark : ∀ {t t'}, l.spelling.mark t t' → t'.literal = t.literal
  limit : host'.limit = host.limit
  native : ∀ {code arguments arguments'}, l.builtin code →
    AllLike l.manner arguments arguments' →
    (host.native code arguments).Alike l.manner (host'.native code arguments')

theorem Allows.lawful {l : Leeway} {host host' : Host} (h : l.Allows host host') :
    l.likeness.Lawful host host' where
  refl _ := trivial
  trans _ _ := trivial
  frame_mono _ hf := hf
  name := h.name
  mark := h.mark
  enter := by
    rintro _ F F' _ f own own' hframes rfl houter houter' hbindings
    refine ⟨(), trivial, hframes.size, hframes.push ?_⟩
    exact Frame.level_of_bindings h.name (houter'.trans houter.symm) hbindings
  lookup := by
    rintro _ s s' _ f t t' hs rfl ht
    have hchain := hs.frames.lookupWithin ht (f + 1) f
    have hcore := hs.frames.lookupWithin ht (Frames.core + 1) Frames.core
    refine ⟨_, _, rfl, rfl, ?_⟩
    unfold Frames.lookup
    generalize s.frames.lookupWithin t.literal (f + 1) f = x at hchain ⊢
    generalize s'.frames.lookupWithin t'.literal (f + 1) f = x' at hchain ⊢
    generalize s.frames.lookupWithin t.literal (Frames.core + 1) Frames.core = y at hcore ⊢
    generalize s'.frames.lookupWithin t'.literal (Frames.core + 1) Frames.core = y' at hcore ⊢
    cases hchain with
    | some hv => exact hv.given
    | none =>
        cases hcore with
        | some hv => exact hv.given
        | none =>
            rw [h.name ht]
            exact Value.Given.error _
  bind := by
    rintro _ F F' _ f t t' v v' hframes rfl ht hv
    rw [h.name ht]
    exact hframes.bind h.name f t.literal hv
  limit := h.limit
  native hcode harguments := h.native hcode harguments

end Leeway

namespace Interpreter

/-- Interpreters whose evaluations are level. -/
structure Level (l : Leeway) (ip ip' : Interpreter) : Prop where
  host : l.Allows ip.host ip'.host
  state : l.likeness.States () ip.state ip'.state

namespace Level

variable {l : Leeway} {ip ip' : Interpreter}

theorem frames (h : ip.Level l ip') : Frames.Level l ip.state.frames ip'.state.frames :=
  h.state.frames

theorem effects (h : ip.Level l ip') : ip'.state.effects = ip.state.effects := h.state.effects

theorem output_eq (h : ip.Level l ip') : ip'.output = ip.output := by
  simp only [output, h.effects]

/-- As many calls may nest. -/
theorem reach_eq (h : ip.Level l ip') (budget : Nat) : ip'.reach budget = ip.reach budget := by
  simp only [reach, h.host.limit, h.state.depth]

/-- **Level interpreters stay level.**  Evaluating copies of a program in the same frame,
either both end in nothing, or both end in like values or the same error, and are level
again. -/
theorem evalIn (h : ip.Level l ip') (budget : Nat) (frame : FrameId) {p p' : Program}
    (hp : CopyStatements l.spelling p.statements p'.statements) :
    (ip.evalIn budget p frame = none ∧ ip'.evalIn budget p' frame = none) ∨
      ∃ v v' after after', ip.evalIn budget p frame = some (v, after) ∧
        ip'.evalIn budget p' frame = some (v', after') ∧ v.Given l.manner v' ∧
        after.Level l after' := by
  have hruns := h.host.lawful.program (ip.reach budget) (f := frame) rfl hp h.state
  unfold Interpreter.evalIn runWith call
  rw [h.reach_eq]
  rcases hruns with ⟨hrun, hrun'⟩ | ⟨_, v, v', t, t', _, hrun, hrun', hv, hstates⟩
  · rw [hrun, hrun']
    exact Or.inl ⟨rfl, rfl⟩
  · rw [hrun, hrun']
    exact Or.inr ⟨v, v', _, _, rfl, rfl, hv, h.host, hstates⟩

end Level
end Interpreter
end MonkeyLang
