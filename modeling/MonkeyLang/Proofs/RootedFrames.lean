import Mathlib.Logic.Relation
import MonkeyLang.Proofs.FrameGraph

/-!
# Rooted frames

Functions are bound in the very frames they capture, so through values frames refer to each
other in circles; through links they do not.  What is done with an interpreter, as long as
programs are evaluated in frames that descend from the core, keeps the frames rooted
(`Frames.Rooted`): links lead to older frames and never change, and every function, wherever
it is bound and whatever value it stands in, captures a frame that descends from the core.

So the core is part of every chain that a name is looked up in, and looking there once more
after the chain finds nothing.  That this is so at every single step of an evaluation is
said without steps: behind a screen, where nothing is to be found in the place of the core
(`Interpreter.screened`), every evaluation goes exactly the same way.
-/

namespace MonkeyLang

/-! ## The likeness of an evaluation behind a screen -/

/-- The evaluation behind a screen, next to the one before it.  Worlds are the links of the
frames made. -/
def screenedLikeness : Likeness where
  World := List (Option FrameId)
  le links links' := links <+: links'
  spelling := .same
  frame links f f' := Descends links f ∧ f' = f + 1
  frames links F F' := F.links = links ∧ F.Rooted ∧ F' = F.screened
  error _ := True
  builtin _ := True

/-- How values differ behind a screen. -/
abbrev screenedManner (links : List (Option FrameId)) : Manner := screenedLikeness.manner links

variable {links : List (Option FrameId)}

mutual

/-- Behind a screen a value has the frames moved up by one, and all of them descend from the
core. -/
theorem Value.Like.of_screened {v v' : Value} (h : v.Like (screenedManner links) v') :
    v' = v.rename (· + 1) ∧ ∀ f ∈ v.captured, Descends links f := by
  match h with
  | .integer _ | .boolean _ | .string _ | .null | .error _ | .builtin _ =>
      exact ⟨rfl, by simp [Value.captured]⟩
  | .returned _ h =>
      rw [Value.rename, Value.captured, ← h.of_screened.1]
      exact ⟨rfl, h.of_screened.2⟩
  | .function h =>
      obtain ⟨hnames, hbody, hframe, heq⟩ := h
      simp only at hnames hbody hframe heq
      rw [Value.rename, hnames.eq, hbody.eq, heq]
      exact ⟨rfl, by simpa [Value.captured] using hframe⟩
  | .array h =>
      rw [Value.rename, Value.captured, ← h.of_screened.1]
      exact ⟨rfl, h.of_screened.2⟩
  | .hash h =>
      rw [Value.rename, Value.captured, ← h.of_screened.1]
      exact ⟨rfl, h.of_screened.2⟩

theorem AllLike.of_screened {list list' : List Value}
    (h : AllLike (screenedManner links) list list') :
    list' = renameAll (· + 1) list ∧ ∀ f ∈ capturedByAll list, Descends links f := by
  match h with
  | .nil => exact ⟨rfl, by simp [capturedByAll]⟩
  | .cons h hrest =>
      rw [renameAll, capturedByAll, ← h.of_screened.1, ← hrest.of_screened.1]
      exact ⟨rfl, List.forall_mem_append.2 ⟨h.of_screened.2, hrest.of_screened.2⟩⟩

theorem EntriesLike.of_screened {list list' : List (Key × Value)}
    (h : EntriesLike (screenedManner links) list list') :
    list' = renameEntries (· + 1) list ∧ ∀ f ∈ capturedByEntries list, Descends links f := by
  match h with
  | .nil => exact ⟨rfl, by simp [capturedByEntries]⟩
  | .cons h hrest =>
      rw [renameEntries, capturedByEntries, ← h.of_screened.1, ← hrest.of_screened.1]
      exact ⟨rfl, List.forall_mem_append.2 ⟨h.of_screened.2, hrest.of_screened.2⟩⟩

end

mutual

/-- Conversely, a value that captures frames only that descend from the core is like the one
behind the screen. -/
theorem Value.like_screened (v : Value) (h : ∀ f ∈ v.captured, Descends links f) :
    v.Like (screenedManner links) (v.rename (· + 1)) := by
  match v with
  | .integer n => exact .integer n
  | .boolean b => exact .boolean b
  | .string s => exact .string s
  | .null => exact .null
  | .error _ => exact .error trivial
  | .builtin _ _ => exact .builtin trivial
  | .returned _ v => exact .returned trivial (v.like_screened h)
  | .function _ names body frame =>
      exact .function ⟨copyNames_refl names, body.copy_refl, h frame (List.mem_singleton_self _),
        rfl⟩
  | .array _ elements => exact .array (allLike_screened elements h)
  | .hash _ entries => exact .hash (entriesLike_screened entries h)

theorem allLike_screened (list : List Value) (h : ∀ f ∈ capturedByAll list, Descends links f) :
    AllLike (screenedManner links) list (renameAll (· + 1) list) := by
  match list with
  | [] => exact .nil
  | v :: rest =>
      rw [capturedByAll, List.forall_mem_append] at h
      exact .cons (v.like_screened h.1) (allLike_screened rest h.2)

theorem entriesLike_screened (list : List (Key × Value))
    (h : ∀ f ∈ capturedByEntries list, Descends links f) :
    EntriesLike (screenedManner links) list (renameEntries (· + 1) list) := by
  match list with
  | [] => exact .nil
  | (_, v) :: rest =>
      rw [capturedByEntries, List.forall_mem_append] at h
      exact .cons (v.like_screened h.1) (entriesLike_screened rest h.2)

end

theorem BindingsLike.of_screened {list list' : List (Text × Value)}
    (h : BindingsLike (screenedManner links) list list') :
    list' = renameBindings (· + 1) list ∧ CapturedBelow links list := by
  induction h with
  | nil => exact ⟨rfl, by simp [CapturedBelow]⟩
  | cons h _ ih =>
      rw [ih.1, h.of_screened.1]
      exact ⟨rfl, List.forall_mem_cons.2 ⟨h.of_screened.2, ih.2⟩⟩

theorem Value.Given.of_screened {v v' : Value} (h : v.Given (screenedManner links) v') :
    v' = v.rename (· + 1) ∧ ∀ f ∈ v.captured, Descends links f := by
  rcases h with h | ⟨cause, rfl, rfl⟩
  · exact h.of_screened
  · exact ⟨rfl, by simp [Value.captured]⟩

theorem screenedManner_shows (links : List (Option FrameId)) : (screenedManner links).Shows := by
  rintro c c' ⟨hnames, hbody, _⟩
  rw [hnames.eq, hbody.eq]
  exact ⟨rfl, rfl⟩

theorem Descends.le_length {id : FrameId} (h : Descends links id) : id ≤ links.length := by
  cases h with
  | core => exact Nat.zero_le _
  | inner hlink _ => exact Nat.le_of_lt (List.getElem?_eq_some_iff.1 hlink).1

/-- Some renaming of frames leaves alone exactly those that descend from the core. -/
theorem exists_sparing (links : List (Option FrameId)) :
    ∃ r : FrameId → FrameId, Function.Injective r ∧ ∀ id, r id = id ↔ Descends links id := by
  classical
  refine ⟨fun id => if Descends links id then id else id + (links.length + 1), ?_, fun id => ?_⟩
  · intro a b hab
    have hle : ∀ id, Descends links id → id ≤ links.length := fun _ => Descends.le_length
    grind
  · by_cases h : Descends links id <;> simp [h]

/-- A blind function treats like arguments alike: the frames in its outcome descend from the
core, since moving those that do not does not change the outcome. -/
theorem Native.Blind.alike_screened {f : Native} (hf : f.Blind) {arguments arguments' : List Value}
    (h : AllLike (screenedManner links) arguments arguments') :
    (f arguments).Alike (screenedManner links) (f arguments') := by
  intro e
  obtain ⟨rfl, hcaptured⟩ := h.of_screened
  obtain ⟨r, hr, hspared⟩ := exists_sparing links
  have hmade : renameAll r arguments = arguments :=
    (renameAll_eq_self_iff r arguments).2 fun id hid => (hspared id).2 (hcaptured id hid)
  have hfixed := hf r hr arguments e
  rw [hmade] at hfixed
  have houtcome : ∀ id ∈ (f arguments e).1.captured, Descends links id := fun id hid =>
    (hspared id).1 ((Value.rename_eq_self_iff r _).1 (congrArg Prod.fst hfixed).symm id hid)
  rw [hf (· + 1) fun _ _ heq => Nat.succ.inj heq]
  exact ⟨((f arguments e).1.like_screened houtcome).given, rfl⟩

theorem screenedLikeness_lawful {host : Host} (hblind : ∀ f ∈ host.supplied, f.Blind) :
    screenedLikeness.Lawful host host where
  refl links := List.prefix_refl links
  trans h h' := List.IsPrefix.trans h h'
  frame_mono hle h := ⟨h.1.mono hle, h.2⟩
  name h := congrArg Token.literal (Eq.symm h)
  mark h := congrArg Token.literal (Eq.symm h)
  enter := by
    rintro _ F _ f _ own own' ⟨rfl, hrooted, rfl⟩ ⟨hf, rfl⟩ houter houter' hbindings
    obtain ⟨hown', hcaptured⟩ := hbindings.of_screened
    have hscreened : own' = own.screened := by
      obtain ⟨outer', bindings'⟩ := own'
      simp only at houter' hown'
      simp only [Frame.screened, houter, houter', hown', Option.map_some]
    have hlinks := Frames.links_push F own
    have hlast : (F.links ++ [some f])[F.size]? = some (some f) := by
      rw [← Frames.length_links, List.getElem?_concat_length]
    have hle : F.links <+: F.links ++ [some f] := List.prefix_append _ _
    refine ⟨F.links ++ [some f], hle, ⟨.inner hlast (hf.mono hle), ?_⟩, ?_, ?_, ?_⟩
    · exact Frames.size_screened F
    · rw [hlinks, houter]
    · refine hrooted.push (fun id hid => ?_) hcaptured
      rw [houter] at hid
      cases hid
      exact hrooted.lt_size hf
    · rw [hscreened, Frames.screened_push]
  lookup := by
    rintro _ s s' f _ t _ ⟨⟨rfl, hrooted, hscreened⟩, _, _⟩ ⟨hf, rfl⟩ rfl
    have hlookup := hrooted.backward.lookup_screened (hrooted.lt_size hf) t.literal
    have hcore := Frames.lookup_core_screened s.frames t.literal
    refine ⟨_, _, rfl, rfl, ?_⟩
    rw [hscreened, hlookup, hcore]
    cases hchain : s.frames.lookup f t.literal with
    | none =>
        rw [hrooted.lookup_core_of_none hf hchain]
        exact Value.Given.error _
    | some v =>
        have hfinds := hrooted.backward.finds_lookup (hrooted.lt_size hf) t.literal
        rw [hchain] at hfinds
        exact (v.like_screened (hrooted.captured_of_finds hfinds)).given
  bind := by
    rintro _ F _ f _ t _ v v' ⟨rfl, hrooted, rfl⟩ ⟨_, rfl⟩ rfl hv
    obtain ⟨rfl, hcaptured⟩ := hv.of_screened
    exact ⟨Frames.links_bind F f t.literal v, hrooted.bind f t.literal hcaptured,
      (Frames.screened_bind F f t.literal v).symm⟩
  limit := rfl
  native := by
    intro links code arguments arguments' _ h
    apply Host.native_alike (screenedManner_shows links) h
    intro f hf
    exact (hblind f hf).alike_screened h

/-! ## What is done with an interpreter -/

/-- A node is tried alike in front of a screen and behind it. -/
theorem Node.attempt_screened {host : Host} (hblind : ∀ f ∈ host.supplied, f.Blind) (n : Nat)
    (node : Node) {f : FrameId} (hf : Descends links f) :
    screenedLikeness.Follows links screenedLikeness.Values (node.attempt (host.attempt n) f)
      (node.attempt (host.attempt n) (f + 1)) := by
  have hL := screenedLikeness_lawful hblind
  have hframe : screenedLikeness.frame links f (f + 1) := ⟨hf, rfl⟩
  have hcalls := hL.attempt n
  cases node with
  | program p => exact hL.attemptProgram n hframe (copyStatements_refl p.statements)
  | statement s =>
      have hcopy : s.Copy .same s := s.copy_self (fun _ => rfl) fun _ _ => rfl
      exact hcopy.follows hL hcalls hframe
  | block b => exact b.copy_refl.follows hL hcalls hframe
  | expression e =>
      have hcopy : e.Copy .same e := e.copy_self (fun _ => rfl) fun _ _ => rfl
      exact hcopy.follows hL hcalls hframe

namespace Interpreter

/-- The chain of a frame ends in the core. -/
def Descends (ip : Interpreter) (frame : FrameId) : Prop :=
  MonkeyLang.Descends ip.state.frames.links frame

/-- Evaluates a node in a frame. -/
def evaluate (budget : Nat) (node : Node) (frame : FrameId) (ip : Interpreter) :
    Option (Value × Interpreter) :=
  ip.runWith (node.eval (ip.call budget) frame)

/-- The interpreter behind a screen: an empty frame stands in the place of the core, and
all frames are moved up by one. -/
def screened (ip : Interpreter) : Interpreter :=
  { ip with state := { ip.state with frames := ip.state.frames.screened } }

/-- What is done with an interpreter, and the value it gives.  Nodes are evaluated in frames
that descend from the core.  Values handed in from outside capture no other frames, frames
are made inside frames that are there, and functions supplied are blind. -/
inductive Step (ip : Interpreter) : Value → Interpreter → Prop
  | evaluation {budget : Nat} {node : Node} {frame : FrameId} {value : Value}
      {after : Interpreter} (hframe : ip.Descends frame)
      (h : ip.evaluate budget node frame = some (value, after)) : Step ip value after
  | application {budget : Nat} {callee : Value} {arguments : List Value} {value : Value}
      {after : Interpreter} (hcallee : ∀ f ∈ callee.captured, ip.Descends f)
      (harguments : ∀ f ∈ capturedByAll arguments, ip.Descends f)
      (h : ip.apply budget (some callee) arguments = some (value, after)) : Step ip value after
  | frame (outer : Option FrameId) (h : ∀ f ∈ outer, f < ip.state.frames.size) :
      Step ip .null (ip.addFrame outer).2
  | binding (frame : FrameId) (name : Text) {value : Value}
      (h : ∀ f ∈ value.captured, ip.Descends f) : Step ip .null (ip.bind frame name value)
  | supply (name : Text) {f : Native} (h : f.Blind) : Step ip .null (ip.register name f)

/-- The interpreter becomes the other one by what is done with it. -/
def Becomes : Interpreter → Interpreter → Prop :=
  Relation.ReflTransGen fun ip after => ∃ value, ip.Step value after

/-- The frames are rooted and the functions supplied are blind. -/
structure Rooted (ip : Interpreter) : Prop where
  frames : ip.state.frames.Rooted
  blind : ∀ f ∈ ip.host.supplied, f.Blind

/-- A run that goes alike in front of a screen and behind it ends with the frames moved up by
one behind it, and keeps frames rooted. -/
theorem Rooted.runWith {ip : Interpreter} (h : ip.Rooted) {m m' : Trial Value}
    (hm : screenedLikeness.Follows ip.state.frames.links screenedLikeness.Values m m')
    {r r' : Run Value} (hr : Agrees r m) (hr' : Agrees r' m') :
    ip.screened.runWith r' =
        (ip.runWith r).map (fun out => (out.1.rename (· + 1), out.2.screened)) ∧
      ∀ value after, ip.runWith r = some (value, after) →
        after.Rooted ∧ ip.state.frames.links <+: after.state.frames.links ∧
          ∀ f ∈ value.captured, after.Descends f := by
  have hstates : screenedLikeness.States ip.state.frames.links ip.state ip.screened.state :=
    ⟨⟨rfl, h.frames, rfl⟩, rfl, rfl⟩
  unfold Interpreter.runWith
  rcases hm.runs hr hr' hstates with
    ⟨hnone, hnone'⟩ | ⟨w, v, v', t, t', hle, hrun, hrun', hvalue, ⟨rfl, hrooted, hscreened⟩,
      heffects, hdepth⟩
  · rw [hnone, hnone']
    exact ⟨rfl, by simp⟩
  · obtain ⟨rfl, hcaptured⟩ := hvalue.of_screened
    have ht' : t' = { t with frames := t.frames.screened } := by
      obtain ⟨frames', effects', depth'⟩ := t'
      simp only at hscreened heffects hdepth
      rw [hscreened, heffects, hdepth]
    rw [hrun, hrun', ht']
    refine ⟨rfl, fun value after heq => ?_⟩
    cases heq
    exact ⟨⟨hrooted, h.blind⟩, hle, hcaptured⟩

variable {ip after : Interpreter} {value : Value}

/-- Evaluating a node. -/
theorem Rooted.evaluate (h : ip.Rooted) (budget : Nat) (node : Node) {frame : FrameId}
    (hframe : ip.Descends frame) :
    ip.screened.evaluate budget node (frame + 1) = (ip.evaluate budget node frame).map
        (fun out => (out.1.rename (· + 1), out.2.screened)) ∧
      ∀ value after, ip.evaluate budget node frame = some (value, after) →
        after.Rooted ∧ ip.state.frames.links <+: after.state.frames.links ∧
          ∀ f ∈ value.captured, after.Descends f :=
  h.runWith (node.attempt_screened h.blind (ip.reach budget) hframe)
    (node.agrees (ip.host.call_agrees _) frame) (node.agrees (ip.host.call_agrees _) (frame + 1))

theorem rooted_new (limit : Nat) : (new limit).Rooted := by
  refine ⟨⟨rfl, ?_, ?_⟩, by simp [new]⟩
  · intro id outer hlink
    rcases id with _ | _ | id
    · cases hlink
    · cases hlink
      exact Nat.zero_lt_one
    · cases hlink
  · intro id g hg binding hbinding f hf
    rcases id with _ | _ | id
    · cases hg
      obtain ⟨function, _, rfl⟩ := List.mem_map.1 hbinding
      cases hf
    · cases hg
      cases hbinding
    · cases hg

/-- **One step keeps frames rooted.**  No link changes, and the value given captures frames
only that descend from the core. -/
theorem Rooted.step (h : ip.Rooted) (hstep : ip.Step value after) :
    after.Rooted ∧ ip.state.frames.links <+: after.state.frames.links ∧
      ∀ f ∈ value.captured, after.Descends f := by
  cases hstep with
  | evaluation hframe hrun => exact (h.evaluate _ _ hframe).2 value after hrun
  | @application budget callee arguments value after hcallee harguments hrun =>
      have hcalls := (screenedLikeness_lawful h.blind).attempt (ip.reach budget) _ _ _ _ _
        (callee.like_screened hcallee) (allLike_screened arguments harguments)
      exact (h.runWith hcalls (ip.host.call_agrees _ callee arguments)
        (ip.host.call_agrees _ _ _)).2 value after hrun
  | frame outer houter =>
      refine ⟨⟨h.frames.push houter (by simp [CapturedBelow, Frame.empty]), h.blind⟩, ?_, ?_⟩
      · exact ⟨[outer], (Frames.links_push ip.state.frames (Frame.empty outer)).symm⟩
      · simp [Value.captured]
  | binding frame name hvalue =>
      refine ⟨⟨h.frames.bind frame name hvalue, h.blind⟩, ?_, by simp [Value.captured]⟩
      exact (Frames.links_bind _ frame name _).symm ▸ List.prefix_refl _
  | supply name hblind =>
      refine ⟨⟨h.frames.bind _ name (by simp [Value.captured]), ?_⟩, ?_,
        by simp [Value.captured]⟩
      · exact List.forall_mem_append.2 ⟨h.blind, List.forall_mem_singleton.2 hblind⟩
      · exact (Frames.links_bind _ _ name _).symm ▸ List.prefix_refl _

/-- Whatever is done keeps frames rooted and links as they are. -/
theorem Rooted.becomes (h : ip.Rooted) (hafter : ip.Becomes after) :
    after.Rooted ∧ ip.state.frames.links <+: after.state.frames.links := by
  induction hafter with
  | refl => exact ⟨h, List.prefix_refl _⟩
  | tail _ hstep ih =>
      obtain ⟨value, hstep⟩ := hstep
      obtain ⟨hrooted, hle, _⟩ := ih.1.step hstep
      exact ⟨hrooted, ih.2.trans hle⟩

theorem outer_eq_join (ip : Interpreter) (id : FrameId) :
    ip.outer id = ip.state.frames.links[id]?.join := by
  rw [Interpreter.outer, Frames.getElem?_links]
  cases ip.state.frames[id]? <;> rfl

theorem outer_eq_some_iff {id outer : FrameId} :
    ip.outer id = some outer ↔ ip.state.frames.links[id]? = some (some outer) := by
  rw [outer_eq_join, Option.join_eq_some_iff]

/-- Links that are there stay as they are. -/
theorem outer_eq_of_prefix (hle : ip.state.frames.links <+: after.state.frames.links)
    {id : FrameId} (hid : id < ip.state.frames.size) : after.outer id = ip.outer id := by
  obtain ⟨more, hmore⟩ := hle
  have hlt : id < ip.state.frames.links.length := by
    rw [Frames.length_links]
    exact hid
  rw [outer_eq_join, outer_eq_join, ← hmore, List.getElem?_append_left hlt]

theorem mem_bindings {id : FrameId} {binding : Text × Value} (h : binding ∈ ip.bindings id) :
    ∃ g, ip.state.frames[id]? = some g ∧ binding ∈ g.bindings := by
  unfold bindings at h
  split at h
  · cases h
  · next g hg => exact ⟨g, hg, List.mem_mergeSort.1 h⟩

end Interpreter

/-- **The graph of frames is well founded and rooted.**  Whatever is done with a new
interpreter, as long as nodes are evaluated in frames that descend from the core: every
frame lies inside one made before it, the core inside none, and none is ever moved.  Every
function that is bound, stands in a bound value or is given as a value captures a frame that
descends from the core, which is there.  So looking a name up comes to an end in every
frame; what is not found along a chain that ends in the core is not found in the core
either; and evaluations go exactly the same way behind a screen, where nothing is found in
the place of the core. -/
theorem frames_are_rooted {limit : Nat} {ip : Interpreter}
    (h : (Interpreter.new limit).Becomes ip) :
    ip.outer Frames.core = none ∧
    (∀ id outer, ip.outer id = some outer → outer < id) ∧
    (∀ after, ip.Becomes after →
      ∀ id < ip.state.frames.size, after.outer id = ip.outer id) ∧
    (∀ id, ∀ binding ∈ ip.bindings id, ∀ f ∈ binding.2.captured, ip.Descends f) ∧
    (∀ value after, ip.Step value after → ∀ f ∈ value.captured, after.Descends f) ∧
    (∀ f, ip.Descends f → f < ip.state.frames.size) ∧
    (∀ id < ip.state.frames.size, ∀ name,
      ip.state.frames.Finds name id (ip.lookup id name)) ∧
    (∀ f, ip.Descends f → ∀ name,
      ip.lookup f name = none → ip.lookup Frames.core name = none) ∧
    (∀ name, ip.screened.lookup Frames.core name = none) ∧
    ∀ f, ip.Descends f → ∀ budget node,
      ip.screened.evaluate budget node (f + 1) = (ip.evaluate budget node f).map
        fun out => (out.1.rename (· + 1), out.2.screened) := by
  obtain ⟨hrooted, _⟩ := (Interpreter.rooted_new limit).becomes h
  refine ⟨?_, ?_, ?_, ?_, ?_, ?_, ?_, ?_, ?_, ?_⟩
  · rw [Interpreter.outer_eq_join, hrooted.frames.core]
    rfl
  · exact fun id outer houter => hrooted.frames.backward (Interpreter.outer_eq_some_iff.1 houter)
  · exact fun after hafter id hid =>
      Interpreter.outer_eq_of_prefix (hrooted.becomes hafter).2 hid
  · intro id binding hbinding
    obtain ⟨g, hg, hmem⟩ := Interpreter.mem_bindings hbinding
    exact hrooted.frames.captured hg binding hmem
  · exact fun value after hstep => (hrooted.step hstep).2.2
  · exact fun f hf => hrooted.frames.lt_size hf
  · exact fun id hid name => hrooted.frames.backward.finds_lookup hid name
  · exact fun f hf name hnone => hrooted.frames.lookup_core_of_none hf hnone
  · exact Frames.lookup_core_screened ip.state.frames
  · exact fun f hf budget node => (hrooted.evaluate budget node hf).1

/-- A source with a function in a hash that was made in a call and outlives it. -/
def capturingSource : Text :=
  "let make = fn(x) \x7b fn(y) \x7b puts(x); make \x7d \x7d; \x7b1: [make, make(2)]\x7d"

theorem frames_are_rooted_after_captures :
    ∃ value after, (Interpreter.new 9).interpret 0 capturingSource = .ok (some (value, after)) ∧
      (Interpreter.new 9).Becomes after ∧ value.captured = [1, 2] ∧
      (∀ f ∈ value.captured, after.Descends f) ∧
      (∀ id outer, after.outer id = some outer → outer < id) ∧
      ∀ name, after.lookup 2 name = none → after.lookup Frames.core name = none := by
  have hany : (((Interpreter.new 9).interpret 0 capturingSource).toOption.join.any
      fun out => out.1.captured == [1, 2]) = true := by decide +kernel
  obtain ⟨value, after, hrun, hcaptured⟩ :=
    Interpreter.exists_of_any (p := fun value => value.captured == [1, 2]) hany
  obtain ⟨program, _, heval⟩ := Interpreter.interpret_eq_some hrun
  have hglobal : (Interpreter.new 9).Descends Frames.global := .inner rfl .core
  have hnode : (Interpreter.new 9).evaluate 0 (.program program) Frames.global =
      some (value, after) := heval
  have hstep : (Interpreter.new 9).Step value after := .evaluation hglobal hnode
  have hbecomes : (Interpreter.new 9).Becomes after := .single ⟨value, hstep⟩
  have hdescends := (frames_are_rooted (.refl : (Interpreter.new 9).Becomes _)).2.2.2.2.1
    value after hstep
  obtain ⟨_, hbackward, _, _, _, _, _, hfallback, _⟩ := frames_are_rooted hbecomes
  rw [beq_iff_eq] at hcaptured
  exact ⟨value, after, hrun, hbecomes, hcaptured, hdescends, hbackward,
    hfallback 2 (hdescends 2 (by simp [hcaptured]))⟩

end MonkeyLang
