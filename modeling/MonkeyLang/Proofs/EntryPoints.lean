import MonkeyLang.Proofs.FrameEffect
import MonkeyLang.Proofs.LikeTrials

/-!
# In the global frame and apart from it

A source can be evaluated in the global frame, where its bindings stay, or in a fresh
frame inside it.  The second evaluation has one frame more in every chain of frames, and
every frame made on the way has another number.  Nothing else differs: `Frames.aside`
says which frame of the one stands for which frame of the other, and under this renaming
the results, the bindings and what was printed are the same.

Built-in functions supplied from outside may take part, as long as they do not look at
the numbers of frames: renaming the frames in their arguments renames those in the
outcome, and that is all.
-/

namespace MonkeyLang

/-! ## Renaming frames -/

mutual

/-- The value with other numbers for its frames. -/
def Value.rename (r : FrameId → FrameId) : Value → Value
  | .integer n => .integer n
  | .boolean b => .boolean b
  | .string s => .string s
  | .null => .null
  | .returned stamp value => .returned stamp (value.rename r)
  | .error cause => .error cause
  | .function stamp parameters body frame => .function stamp parameters body (r frame)
  | .builtin name code => .builtin name code
  | .array stamp elements => .array stamp (renameAll r elements)
  | .hash stamp entries => .hash stamp (renameEntries r entries)

/-- Values with other numbers for their frames. -/
def renameAll (r : FrameId → FrameId) : List Value → List Value
  | [] => []
  | value :: rest => value.rename r :: renameAll r rest

/-- Entries with other numbers for the frames in their values. -/
def renameEntries (r : FrameId → FrameId) : List (Key × Value) → List (Key × Value)
  | [] => []
  | (key, value) :: rest => (key, value.rename r) :: renameEntries r rest

end

/-- Bindings with other numbers for the frames in their values. -/
def renameBindings (r : FrameId → FrameId) (bindings : List (Text × Value)) :
    List (Text × Value) :=
  bindings.map fun binding => (binding.1, binding.2.rename r)

/-- The function does not look at the numbers of frames, and knows no frame but those
of its arguments. -/
def Native.Blind (f : Native) : Prop :=
  ∀ r : FrameId → FrameId, Function.Injective r → ∀ arguments e,
    f (renameAll r arguments) e = ((f arguments e).1.rename r, (f arguments e).2)

namespace Frames

/-- The frame of the evaluation apart that stands for a frame of the evaluation in the
global frame: the fresh frame for the global one, and each later frame for the one made
in its place. -/
def aside (id : FrameId) : FrameId :=
  if id = core then core else id + 1

theorem aside_lt {a b : FrameId} (h : a < b) : aside a < aside b := by
  grind [aside, core]

theorem aside_le {a b : FrameId} (h : a ≤ b) : aside a ≤ aside b := by
  grind [aside, core]

theorem aside_injective : Function.Injective aside := by
  intro a b h
  grind [aside, core]

/-- Leaves the frames below a number where they are and moves all others. -/
def above (w : Nat) (id : FrameId) : FrameId :=
  if id < w then id else id + 1

theorem above_injective (w : Nat) : Function.Injective (above w) := by
  intro a b h
  grind [above]

theorem above_eq_iff (w : Nat) (id : FrameId) : above w id = id ↔ id < w := by
  grind [above]

/-- The frame around a frame, and the one around the frame that stands for it. -/
inductive Around : FrameId → Option FrameId → Option FrameId → Prop
  | root (id : FrameId) : Around id none none
  | global : Around global (some core) (some global)
  | inner {id outer : FrameId} (h : outer < id) : Around id (some outer) (some (aside outer))

end Frames

/-- How values differ when the evaluation in the global frame has made so many frames. -/
def asideManner (w : Nat) : Manner where
  closure c c' := CopyNames .same c.parameters c'.parameters ∧ c.body.Copy .same c'.body ∧
    c.frame < w ∧ c'.frame = Frames.aside c.frame
  returned := True
  error _ := True
  builtin _ := True

mutual

/-- A like value is the value with its frames renamed, all of which have been made. -/
theorem Value.Like.eq_rename {w : Nat} {v v' : Value} (h : v.Like (asideManner w) v') :
    v' = v.rename Frames.aside ∧ v.rename (Frames.above w) = v := by
  match h with
  | .integer _ | .boolean _ | .string _ | .null | .error _ | .builtin _ => exact ⟨rfl, rfl⟩
  | .returned _ h => simp only [Value.rename, ← h.eq_rename.1, h.eq_rename.2, and_self]
  | .function h =>
      obtain ⟨hnames, hbody, hlt, hframe⟩ := h
      simp only at hnames hbody hlt hframe
      simp only [Value.rename, hnames.eq, hbody.eq, hframe, (Frames.above_eq_iff w _).2 hlt,
        and_self]
  | .array h => simp only [Value.rename, ← h.eq_renameAll.1, h.eq_renameAll.2, and_self]
  | .hash h => simp only [Value.rename, ← h.eq_renameEntries.1, h.eq_renameEntries.2, and_self]

theorem AllLike.eq_renameAll {w : Nat} {list list' : List Value}
    (h : AllLike (asideManner w) list list') :
    list' = renameAll Frames.aside list ∧ renameAll (Frames.above w) list = list := by
  match h with
  | .nil => exact ⟨rfl, rfl⟩
  | .cons h hrest =>
      simp only [renameAll, ← h.eq_rename.1, h.eq_rename.2, ← hrest.eq_renameAll.1,
        hrest.eq_renameAll.2, and_self]

theorem EntriesLike.eq_renameEntries {w : Nat} {list list' : List (Key × Value)}
    (h : EntriesLike (asideManner w) list list') :
    list' = renameEntries Frames.aside list ∧ renameEntries (Frames.above w) list = list := by
  match h with
  | .nil => exact ⟨rfl, rfl⟩
  | .cons h hrest =>
      simp only [renameEntries, ← h.eq_rename.1, h.eq_rename.2, ← hrest.eq_renameEntries.1,
        hrest.eq_renameEntries.2, and_self]

end

mutual

/-- Conversely, a value all of whose frames have been made is like the renamed one. -/
theorem Value.like_rename {w : Nat} (v : Value) (h : v.rename (Frames.above w) = v) :
    v.Like (asideManner w) (v.rename Frames.aside) := by
  match v with
  | .integer n => exact .integer n
  | .boolean b => exact .boolean b
  | .string s => exact .string s
  | .null => exact .null
  | .error _ => exact .error trivial
  | .builtin _ _ => exact .builtin trivial
  | .returned _ v =>
      simp only [Value.rename, Value.returned.injEq, true_and] at h ⊢
      exact .returned trivial (v.like_rename h)
  | .function _ names body frame =>
      simp only [Value.rename, Value.function.injEq, true_and] at h ⊢
      exact .function ⟨copyNames_refl names, body.copy_refl, (Frames.above_eq_iff w _).1 h, rfl⟩
  | .array _ elements =>
      simp only [Value.rename, Value.array.injEq, true_and] at h ⊢
      exact .array (allLike_rename elements h)
  | .hash _ entries =>
      simp only [Value.rename, Value.hash.injEq, true_and] at h ⊢
      exact .hash (entriesLike_rename entries h)

theorem allLike_rename {w : Nat} (list : List Value)
    (h : renameAll (Frames.above w) list = list) :
    AllLike (asideManner w) list (renameAll Frames.aside list) := by
  match list with
  | [] => exact .nil
  | v :: rest =>
      simp only [renameAll, List.cons.injEq] at h ⊢
      exact .cons (v.like_rename h.1) (allLike_rename rest h.2)

theorem entriesLike_rename {w : Nat} (list : List (Key × Value))
    (h : renameEntries (Frames.above w) list = list) :
    EntriesLike (asideManner w) list (renameEntries Frames.aside list) := by
  match list with
  | [] => exact .nil
  | (_, v) :: rest =>
      simp only [renameEntries, List.cons.injEq, Prod.mk.injEq, true_and] at h ⊢
      exact .cons (v.like_rename h.1) (entriesLike_rename rest h.2)

end

theorem BindingsLike.eq_renameBindings {w : Nat} {list list' : List (Text × Value)}
    (h : BindingsLike (asideManner w) list list') : list' = renameBindings Frames.aside list := by
  induction h with
  | nil => rfl
  | cons h _ ih =>
      rw [ih, h.eq_rename.1]
      rfl

/-- A blind function treats like arguments alike: the frames in its outcome have been
made, since moving those that have not does not change the outcome. -/
theorem Native.Blind.alike {f : Native} (hf : f.Blind) {w : Nat} {arguments arguments' : List Value}
    (h : AllLike (asideManner w) arguments arguments') :
    (f arguments).Alike (asideManner w) (f arguments') := by
  intro e
  obtain ⟨rfl, hmade⟩ := h.eq_renameAll
  have hfixed := hf (Frames.above w) (Frames.above_injective w) arguments e
  rw [hmade] at hfixed
  rw [hf Frames.aside Frames.aside_injective]
  exact ⟨((f arguments e).1.like_rename (congrArg Prod.fst hfixed).symm).given, rfl⟩

theorem asideManner_shows (w : Nat) : (asideManner w).Shows := by
  rintro c c' ⟨hnames, hbody, _, _⟩
  rw [hnames.eq, hbody.eq]
  exact ⟨rfl, rfl⟩

theorem Value.Given.rename_and_inspect {w : Nat} {v v' : Value}
    (h : v.Given (asideManner w) v') :
    v' = v.rename Frames.aside ∧ v'.inspect = v.inspect := by
  rcases h with h | ⟨cause, rfl, rfl⟩
  · exact ⟨h.eq_rename.1, h.inspect_eq (asideManner_shows w)⟩
  · exact ⟨rfl, rfl⟩

/-! ## Frames that stand for each other -/

/-- The frames of the evaluation in the global frame and those of the evaluation apart,
whose global frame is never bound in. -/
structure Frames.Aside (w : Nat) (F F' : Frames) : Prop where
  size : F.size = w
  size' : F'.size = w + 1
  room : Frames.global < w
  spared : F'[Frames.global]? = some (Frame.empty (some Frames.core))
  frame : ∀ id < w, ∃ g g', F[id]? = some g ∧ F'[Frames.aside id]? = some g' ∧
    BindingsLike (asideManner w) g.bindings g'.bindings ∧ Frames.Around id g.outer g'.outer

theorem asideManner_within {w w' : Nat} (h : w ≤ w') :
    (asideManner w).Within (asideManner w') where
  closure _ _ hc := ⟨hc.1, hc.2.1, Nat.lt_of_lt_of_le hc.2.2.1 h, hc.2.2.2⟩
  returned hr := hr
  error _ he := he
  builtin _ hb := hb

theorem Frames.getElem?_push_of_some {F : Frames} {id : FrameId} {g : Frame}
    (h : F[id]? = some g) (own : Frame) : (F.push own)[id]? = some g := by
  obtain ⟨hlt, -⟩ := Array.getElem?_eq_some_iff.1 h
  rw [Array.getElem?_push, if_neg (Nat.ne_of_lt hlt), h]

namespace Frames.Aside

variable {w : Nat} {F F' : Frames}

theorem core_lt (h : Aside w F F') : core < w := Nat.lt_trans Nat.one_pos h.room

/-- The frames made next stand for each other. -/
theorem size_eq_aside (h : Aside w F F') : F'.size = aside F.size := by
  rw [h.size, h.size']
  exact (if_neg (Nat.ne_of_gt h.core_lt)).symm

/-- A name means the same through as many frames as the numbers say, or more.  The one
frame more in between binds nothing. -/
theorem lookupWithin (h : Aside w F F') (name : Text) {n n' id : Nat} (hn : id < n)
    (hn' : aside id < n') (hid : id < w) :
    Option.Rel (Value.Like (asideManner w)) (F.lookupWithin name n id)
      (F'.lookupWithin name n' (aside id)) := by
  induction n generalizing n' id with
  | zero => exact absurd hn (Nat.not_lt_zero _)
  | succ n ih =>
      cases n' with
      | zero => exact absurd hn' (Nat.not_lt_zero _)
      | succ n' =>
          obtain ⟨g, g', hg, hg', hbindings, haround⟩ := h.frame id hid
          have hown := hbindings.lookup name
          rw [Frames.lookupWithin, Frames.lookupWithin, hg, hg']
          unfold Frame.get?
          dsimp only
          generalize g.bindings.lookup name = x at hown
          generalize g'.bindings.lookup name = x' at hown
          cases hown with
          | some hv => exact .some hv
          | none =>
              dsimp only
              generalize g.outer = o at haround
              generalize g'.outer = o' at haround
              cases haround with
              | root => exact .none
              | inner hlt =>
                  exact ih (Nat.lt_of_lt_of_le hlt (Nat.le_of_lt_succ hn))
                    (Nat.lt_of_lt_of_le (aside_lt hlt) (Nat.le_of_lt_succ hn'))
                    (Nat.lt_trans hlt hid)
              | global =>
                  -- the global frame of the evaluation apart, on the way to the core
                  have htwo : 2 ≤ n' := Nat.le_of_lt_succ hn'
                  obtain ⟨k, rfl⟩ : ∃ k, n' = k + 2 := ⟨n' - 2, by omega⟩
                  have hspared : F'.lookupWithin name (k + 2) global =
                      F'.lookupWithin name (k + 1) (aside core) := by
                    rw [Frames.lookupWithin, h.spared]
                    rfl
                  dsimp only
                  rw [hspared]
                  exact ih (Nat.lt_of_succ_lt_succ hn) (Nat.succ_pos k) h.core_lt

theorem lookup (h : Aside w F F') {id : FrameId} (hid : id < w) (name : Text) :
    Option.Rel (Value.Like (asideManner w)) (F.lookup id name) (F'.lookup (aside id) name) :=
  h.lookupWithin name (Nat.lt_succ_self _) (Nat.lt_succ_self _) hid

/-- Binding a name in frames that stand for each other. -/
theorem bind (h : Aside w F F') {id : FrameId} (name : Text) {v v' : Value}
    (hv : v.Like (asideManner w) v') : Aside w (F.bind id name v) (F'.bind (aside id) name v') := by
  have hglobal : aside id ≠ global := by grind [aside, core, global]
  refine ⟨?_, ?_, h.room, ?_, fun k hk => ?_⟩
  · simpa [Frames.bind] using h.size
  · simpa [Frames.bind] using h.size'
  · simp only [Frames.bind, Array.getElem?_modify, hglobal, if_false]
    exact h.spared
  · obtain ⟨g, g', hg, hg', hbindings, haround⟩ := h.frame k hk
    simp only [Frames.bind, Array.getElem?_modify, aside_injective.eq_iff, hg, hg']
    by_cases hid : id = k
    · refine ⟨g.set name v, g'.set name v', ?_, ?_, hbindings.rebind name hv, haround⟩
      · simp [hid]
      · simp [hid]
    · exact ⟨g, g', by simp [hid], by simp [hid], hbindings, haround⟩

theorem push (h : Aside w F F') {id : FrameId} (hid : id < w) {own own' : Frame}
    (houter : own.outer = some id) (houter' : own'.outer = some (aside id))
    (hbindings : BindingsLike (asideManner w) own.bindings own'.bindings) :
    Aside (w + 1) (F.push own) (F'.push own') := by
  have hlater : (asideManner w).Within (asideManner (w + 1)) := asideManner_within (Nat.le_succ w)
  refine ⟨?_, ?_, Nat.lt_succ_of_lt h.room, getElem?_push_of_some h.spared own', ?_⟩
  · rw [Array.size_push, h.size]
  · rw [Array.size_push, h.size']
  · intro k hk
    by_cases hlast : k = w
    · refine ⟨own, own', ?_, ?_, hbindings.within hlater, ?_⟩
      · rw [hlast, ← h.size, Array.getElem?_push_size]
      · rw [hlast, ← h.size, ← h.size_eq_aside, Array.getElem?_push_size]
      · rw [houter, houter', hlast]
        exact .inner hid
    · obtain ⟨g, g', hg, hg', hb, haround⟩ := h.frame k (by omega)
      exact ⟨g, g', getElem?_push_of_some hg own, getElem?_push_of_some hg' own',
        hb.within hlater, haround⟩

/-- Every number is that of two frames that stand for each other, or of none. -/
theorem frame_or_none (h : Aside w F F') (id : FrameId) :
    (∃ g g', F[id]? = some g ∧ F'[aside id]? = some g' ∧
      BindingsLike (asideManner w) g.bindings g'.bindings ∧ Around id g.outer g'.outer) ∨
    (F[id]? = none ∧ F'[aside id]? = none) := by
  by_cases hid : id < w
  · exact Or.inl (h.frame id hid)
  · refine Or.inr ⟨?_, ?_⟩
    · rw [Array.getElem?_eq_none_iff, h.size]
      exact Nat.le_of_not_lt hid
    · rw [Array.getElem?_eq_none_iff, h.size_eq_aside, h.size]
      exact aside_le (Nat.le_of_not_lt hid)

end Frames.Aside

/-- The likeness of the two evaluations.  Its worlds are the numbers of frames made. -/
def asideLikeness : Likeness where
  World := Nat
  le := (· ≤ ·)
  spelling := .same
  frame w f f' := f < w ∧ f' = Frames.aside f
  frames := Frames.Aside
  error _ := True
  builtin _ := True

theorem asideLikeness_lawful {host : Host} (hblind : ∀ f ∈ host.supplied, f.Blind) :
    asideLikeness.Lawful host host where
  refl := Nat.le_refl
  trans := Nat.le_trans
  frame_mono hle h := ⟨Nat.lt_of_lt_of_le h.1 hle, h.2⟩
  name h := congrArg Token.literal (Eq.symm h)
  mark h := congrArg Token.literal (Eq.symm h)
  enter := by
    rintro w F F' f _ own own' hframes ⟨hf, rfl⟩ houter houter' hbindings
    refine ⟨Nat.succ w, Nat.le_succ w, ⟨?_, hframes.size_eq_aside⟩, ?_⟩
    · exact hframes.size ▸ Nat.lt_succ_self _
    · exact hframes.push hf houter houter' hbindings
  lookup := by
    rintro w s s' f _ t _ hs ⟨hf, rfl⟩ rfl
    have hchain := hs.frames.lookup hf t.literal
    have hcore := hs.frames.lookup hs.frames.core_lt t.literal
    refine ⟨_, _, rfl, rfl, ?_⟩
    change Option.Rel _ _ (s'.frames.lookup Frames.core t.literal) at hcore
    generalize s.frames.lookup f t.literal = x at hchain ⊢
    generalize s'.frames.lookup (Frames.aside f) t.literal = x' at hchain ⊢
    generalize s.frames.lookup Frames.core t.literal = y at hcore ⊢
    generalize s'.frames.lookup Frames.core t.literal = y' at hcore ⊢
    cases hchain with
    | some hv => exact hv.given
    | none =>
        cases hcore with
        | some hv => exact hv.given
        | none => exact Value.Given.error _
  bind := by
    rintro w F F' f _ t _ v v' hframes ⟨_, rfl⟩ rfl hv
    exact hframes.bind t.literal hv
  limit := rfl
  native := by
    intro w code arguments arguments' _ h
    apply Host.native_alike (asideManner_shows w) h
    intro f hf
    exact (hblind f hf).alike h

/-! ## The two evaluations -/

namespace Interpreter

/-- A new interpreter with functions supplied from outside bound, in the order given,
among the built-in ones. -/
def withBuiltins (limit : Nat) (builtins : List (Text × Native)) : Interpreter :=
  builtins.foldl (fun ip builtin => ip.register builtin.1 builtin.2) (new limit)

/-- Nothing is bound but built-in functions, and those supplied are blind. -/
structure Unused (ip : Interpreter) : Prop where
  frames : ∃ bindings, ip.state.frames = #[⟨none, bindings⟩, Frame.empty (some Frames.core)] ∧
    BindingsLike (asideManner 2) bindings bindings
  blind : ∀ f ∈ ip.host.supplied, f.Blind

theorem unused_new (limit : Nat) : (new limit).Unused := by
  refine ⟨⟨_, rfl, ?_⟩, by simp [new]⟩
  induction CoreFunction.all with
  | nil => exact .nil
  | cons _ _ ih => exact .cons (.builtin trivial) ih

theorem Unused.register {ip : Interpreter} (h : ip.Unused) (name : Text) {f : Native}
    (hf : f.Blind) : (ip.register name f).Unused := by
  obtain ⟨bindings, hframes, hbindings⟩ := h.frames
  refine ⟨⟨Frame.rebind name (.builtin name (.supplied ip.host.supplied.length)) bindings, ?_,
    hbindings.rebind name (.builtin trivial)⟩, ?_⟩
  · simp only [Interpreter.register, Interpreter.bind, hframes]
    rfl
  · intro g hg
    rcases List.mem_append.1 hg with hold | hnew
    · exact h.blind g hold
    · rw [List.mem_singleton.1 hnew]
      exact hf

theorem unused_withBuiltins (limit : Nat) {builtins : List (Text × Native)}
    (hblind : ∀ builtin ∈ builtins, builtin.2.Blind) : (withBuiltins limit builtins).Unused := by
  have hfold : ∀ (rest : List (Text × Native)) (ip : Interpreter), ip.Unused →
      (∀ builtin ∈ rest, builtin.2.Blind) →
      (rest.foldl (fun ip builtin => ip.register builtin.1 builtin.2) ip).Unused := by
    intro rest
    induction rest with
    | nil => exact fun ip h _ => h
    | cons builtin rest ih =>
        intro ip h hrest
        rw [List.forall_mem_cons] at hrest
        exact ih _ (h.register builtin.1 hrest.1) hrest.2
  exact hfold builtins (new limit) (unused_new limit) hblind

/-- The frames before the two evaluations, the fresh one added to the second. -/
theorem Unused.aside {ip : Interpreter} (h : ip.Unused) :
    Frames.Aside 2 ip.state.frames (ip.addFrame (some Frames.global)).2.state.frames := by
  obtain ⟨bindings, hframes, hbindings⟩ := h.frames
  simp only [Interpreter.addFrame, hframes]
  refine ⟨rfl, rfl, Nat.lt_succ_self 1, rfl, fun id hid => ?_⟩
  match id with
  | 0 => exact ⟨_, _, rfl, rfl, hbindings, .root _⟩
  | 1 => exact ⟨_, _, rfl, rfl, .nil, .global⟩
  | _ + 2 => omega

/-- Frames that stand for each other show the same bindings. -/
theorem bindings_aside {ip ip' : Interpreter} {w : Nat}
    (h : Frames.Aside w ip.state.frames ip'.state.frames) (id : FrameId) :
    ip'.bindings (Frames.aside id) = renameBindings Frames.aside (ip.bindings id) := by
  unfold bindings
  rcases h.frame_or_none id with ⟨g, g', hg, hg', hbindings, _⟩ | ⟨hnone, hnone'⟩
  · rw [hg, hg']
    dsimp only
    rw [hbindings.eq_renameBindings]
    unfold renameBindings
    rw [List.map_mergeSort]
    exact fun _ _ _ _ => rfl
  · rw [hnone, hnone']
    rfl

/-- They lie inside frames that stand for each other, but for the global frame and the
fresh one. -/
theorem outer_aside {ip ip' : Interpreter} {w : Nat}
    (h : Frames.Aside w ip.state.frames ip'.state.frames) {id : FrameId}
    (hid : id ≠ Frames.global) :
    ip'.outer (Frames.aside id) = (ip.outer id).map Frames.aside := by
  unfold outer
  rcases h.frame_or_none id with ⟨g, g', hg, hg', _, haround⟩ | ⟨hnone, hnone'⟩
  · rw [hg, hg']
    change g'.outer = g.outer.map Frames.aside
    generalize g.outer = o at haround
    generalize g'.outer = o' at haround
    cases haround with
    | root | inner => rfl
    | global => exact absurd rfl hid
  · rw [hnone, hnone']
    rfl

/-- The global frame and the fresh one stand for each other. -/
theorem Unused.aside_global {ip : Interpreter} (h : ip.Unused) :
    Frames.aside Frames.global = (ip.addFrame (some Frames.global)).1 := by
  change Frames.aside Frames.global = ip.state.frames.size
  rw [h.aside.size]
  rfl

/-- A program evaluated in the global frame and apart from it: neither evaluation ends, or
both do, with the same effects and in frames that stand for each other. -/
theorem Unused.program_aside {ip : Interpreter} (h : ip.Unused) (budget : Nat)
    (program : Program) :
    (ip.evalGlobal budget program = none ∧ ip.evalApart budget program = none) ∨
      ∃ value kept apart w, ip.evalGlobal budget program = some (value, kept) ∧
        ip.evalApart budget program = some (value.rename Frames.aside, apart) ∧
        (value.rename Frames.aside).inspect = value.inspect ∧
        apart.state.effects = kept.state.effects ∧
        Frames.Aside w kept.state.frames apart.state.frames := by
  have hruns := (asideLikeness_lawful h.blind).program (ip.reach budget) ⟨h.aside.room, rfl⟩
    (copyStatements_refl program.statements) ⟨h.aside, rfl, rfl⟩
  have hapart : ip.evalApart budget program = (ip.addFrame (some Frames.global)).2.runWith
      (program.eval (ip.call budget) (Frames.aside Frames.global)) := by
    rw [h.aside_global]
    rfl
  rw [hapart]
  unfold evalGlobal evalIn runWith call
  rcases hruns with ⟨hnone, hnone'⟩ | ⟨w, value, value', t, t', _, hrun, hrun', hvalue, hstates⟩
  · rw [hnone, hnone']
    exact Or.inl ⟨rfl, rfl⟩
  · obtain ⟨rfl, hinspect⟩ := hvalue.rename_and_inspect
    rw [hrun, hrun']
    exact Or.inr ⟨value, _, _, w, rfl, rfl, hinspect, hstates.effects, hstates.frames⟩

end Interpreter

/-- **Evaluating a source in the global frame and apart from it differ only in where its
bindings land.**  For every source without syntax errors, every limit and all blind
functions bound among the built-in ones of a new interpreter: either neither evaluation
ends, or both do, and then, up to one renaming of frames that takes the global frame to
the fresh one, they end in the same value, which shows the same text; they have printed
the same; every frame of the first, the global one among them, has the bindings of the
frame that stands for it and, the global one apart, lies inside the same; and the second
has bound nothing in the global frame. -/
theorem entry_points_differ_in_place (limit budget : Nat) (builtins : List (Text × Native))
    (hblind : ∀ builtin ∈ builtins, builtin.2.Blind) (source : Text) (program : Program)
    (hparse : parse? source = .ok program) :
    let ip := Interpreter.withBuiltins limit builtins
    let fresh := (ip.addFrame (some Frames.global)).1
    Function.Injective Frames.aside ∧ Frames.aside Frames.global = fresh ∧
    ((ip.interpret budget source = .ok none ∧ ip.interpretApart budget source = .ok none) ∨
      ∃ value kept apart, ip.interpret budget source = .ok (some (value, kept)) ∧
        ip.interpretApart budget source = .ok (some (value.rename Frames.aside, apart)) ∧
        (value.rename Frames.aside).inspect = value.inspect ∧ apart.output = kept.output ∧
        (∀ id, apart.bindings (Frames.aside id) =
          renameBindings Frames.aside (kept.bindings id)) ∧
        (∀ id, id ≠ Frames.global →
          apart.outer (Frames.aside id) = (kept.outer id).map Frames.aside) ∧
        apart.bindings fresh = renameBindings Frames.aside (kept.bindings Frames.global) ∧
        apart.bindings Frames.global = []) := by
  intro ip fresh
  have hunused : ip.Unused := Interpreter.unused_withBuiltins limit hblind
  have hfresh : Frames.aside Frames.global = fresh := hunused.aside_global
  refine ⟨Frames.aside_injective, hfresh, ?_⟩
  have hinterpret : ip.interpret budget source = .ok (ip.evalGlobal budget program) := by
    rw [Interpreter.interpret, hparse]
    rfl
  have hapart : ip.interpretApart budget source = .ok (ip.evalApart budget program) := by
    rw [Interpreter.interpretApart, hparse]
    rfl
  rw [hinterpret, hapart]
  rcases hunused.program_aside budget program with
    ⟨hnone, hnone'⟩ | ⟨value, kept, apart, w, hrun, hrun', hinspect, heffects, hframes⟩
  · exact Or.inl ⟨congrArg Except.ok hnone, congrArg Except.ok hnone'⟩
  · have hbindings := Interpreter.bindings_aside hframes
    refine Or.inr ⟨value, kept, apart, congrArg Except.ok hrun, congrArg Except.ok hrun', hinspect,
      ?_, hbindings, fun id hid => Interpreter.outer_aside hframes hid,
      hfresh ▸ hbindings Frames.global, ?_⟩
    · simp only [Interpreter.output, heffects]
    · simp only [Interpreter.bindings, hframes.spared]
      exact List.mergeSort_nil

/-- A source with functions that outlive the calls they were made in. -/
def lastingFunctions : Text :=
  "let make = fn(x) \x7b fn(y) \x7b puts(x); box(x, y) \x7d \x7d; let f = make(2); [make, f, f(3)]"

/-- A function that puts its arguments into an array. -/
def box : Native := fun arguments => Effect.newArray arguments

theorem box_blind : box.Blind := by
  intro r _ arguments e
  simp only [box, Effect.newArray]
  rfl

theorem entry_points_differ_in_place_on_functions :
    let ip := Interpreter.withBuiltins 9 [("box", box)]
    box.Blind ∧ (∃ program, parse? lastingFunctions = .ok program) ∧
      ∃ value kept apart, ip.interpret 0 lastingFunctions = .ok (some (value, kept)) ∧
        value.kind = .array ∧
        ip.interpretApart 0 lastingFunctions = .ok (some (value.rename Frames.aside, apart)) ∧
        (value.rename Frames.aside).inspect = value.inspect ∧ apart.output = kept.output ∧
        apart.bindings 2 = renameBindings Frames.aside (kept.bindings Frames.global) := by
  intro ip
  have hblind : ∀ builtin ∈ [(("box" : Text), box)], builtin.2.Blind := by
    intro builtin hbuiltin
    rw [List.mem_singleton.1 hbuiltin]
    exact box_blind
  have hany : ((ip.interpret 0 lastingFunctions).toOption.join.any
      fun out => out.1.kind == .array) = true := by decide +kernel
  obtain ⟨value, kept, hrun, hkind⟩ :=
    Interpreter.exists_of_any (p := fun value => value.kind == .array) hany
  cases hparse : parse? lastingFunctions with
  | error errors => simp [Interpreter.interpret, hparse, Except.map] at hrun
  | ok program =>
      refine ⟨box_blind, ⟨program, rfl⟩, ?_⟩
      obtain ⟨_, _, ⟨hnone, _⟩ | ⟨value', kept', apart, hrun', hapart, hinspect, houtput, _, _,
        hbindings, _⟩⟩ := entry_points_differ_in_place 9 0 _ hblind lastingFunctions program hparse
      · rw [hnone] at hrun
        cases hrun
      · rw [hrun'] at hrun
        cases hrun
        exact ⟨value, kept, apart, hrun', of_decide_eq_true hkind, hapart, hinspect, houtput,
          hbindings⟩

end MonkeyLang
