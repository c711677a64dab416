import MonkeyLang.Proofs.EntryPoints

/-!
# The graph of frames

Each frame lies inside another one or inside none, and a frame once made stays where it is.
So the frames are a graph that grows at its end, `Frames.links`, and a frame descends from
the core when its chain of links ends there.  Looking a name up is a walk along the chain,
stated here without a bound on its length (`Frames.Finds`); where links lead to older frames
only, the walk ends and the bounded look-up is its outcome.

Putting an empty frame before all others, and moving the numbers up by one, leaves every
walk as it was.  But it takes away what is found in frame zero, where names are looked for
that no frame of the chain binds.
-/

namespace MonkeyLang

/-! ## Links -/

namespace Frames

/-- For each frame, in the order in which they were made, the frame it lies inside. -/
def links (F : Frames) : List (Option FrameId) := F.toList.map Frame.outer

theorem getElem?_links (F : Frames) (id : FrameId) : F.links[id]? = F[id]?.map Frame.outer := by
  simp [links]

theorem length_links (F : Frames) : F.links.length = F.size := by
  simp [links]

theorem links_push (F : Frames) (own : Frame) :
    links (F.push own) = F.links ++ [own.outer] := by
  simp [links]

theorem links_bind (F : Frames) (id : FrameId) (name : Text) (value : Value) :
    (F.bind id name value).links = F.links := by
  apply List.ext_getElem?
  intro k
  rw [getElem?_links, getElem?_links]
  simp only [bind, Array.getElem?_modify]
  split
  · cases F[k]? <;> rfl
  · rfl

end Frames

/-- The chain of links from a frame outwards ends in the core. -/
inductive Descends (links : List (Option FrameId)) : FrameId → Prop
  | core : Descends links Frames.core
  | inner {id outer : FrameId} (h : links[id]? = some (some outer))
      (hrest : Descends links outer) : Descends links id

/-- What descends from the core goes on doing so when frames are made. -/
theorem Descends.mono {links links' : List (Option FrameId)} (hle : links <+: links')
    {id : FrameId} (h : Descends links id) : Descends links' id := by
  induction h with
  | core => exact .core
  | inner h _ ih =>
      obtain ⟨more, rfl⟩ := hle
      have hlt := (List.getElem?_eq_some_iff.1 h).1
      exact .inner (by rw [List.getElem?_append_left hlt, h]) ih

/-! ## Captured frames -/

mutual

/-- The frames that the functions in a value were made in. -/
def Value.captured : Value → List FrameId
  | .integer _ | .boolean _ | .string _ | .null | .error _ | .builtin .. => []
  | .returned _ value => value.captured
  | .function _ _ _ frame => [frame]
  | .array _ elements => capturedByAll elements
  | .hash _ entries => capturedByEntries entries

def capturedByAll : List Value → List FrameId
  | [] => []
  | value :: rest => value.captured ++ capturedByAll rest

def capturedByEntries : List (Key × Value) → List FrameId
  | [] => []
  | (_, value) :: rest => value.captured ++ capturedByEntries rest

end

mutual

/-- Renaming frames changes a value unless it leaves the captured ones alone. -/
theorem Value.rename_eq_self_iff (r : FrameId → FrameId) (v : Value) :
    v.rename r = v ↔ ∀ f ∈ v.captured, r f = f := by
  match v with
  | .integer _ | .boolean _ | .string _ | .null | .error _ | .builtin .. =>
      simp [Value.rename, Value.captured]
  | .returned _ v => simp [Value.rename, Value.captured, v.rename_eq_self_iff r]
  | .function .. => simp [Value.rename, Value.captured]
  | .array _ elements => simp [Value.rename, Value.captured, renameAll_eq_self_iff r elements]
  | .hash _ entries => simp [Value.rename, Value.captured, renameEntries_eq_self_iff r entries]

theorem renameAll_eq_self_iff (r : FrameId → FrameId) (list : List Value) :
    renameAll r list = list ↔ ∀ f ∈ capturedByAll list, r f = f := by
  match list with
  | [] => simp [renameAll, capturedByAll]
  | v :: rest =>
      rw [renameAll, capturedByAll, List.cons.injEq, v.rename_eq_self_iff r,
        renameAll_eq_self_iff r rest, List.forall_mem_append]

theorem renameEntries_eq_self_iff (r : FrameId → FrameId) (list : List (Key × Value)) :
    renameEntries r list = list ↔ ∀ f ∈ capturedByEntries list, r f = f := by
  match list with
  | [] => simp [renameEntries, capturedByEntries]
  | (_, v) :: rest =>
      rw [renameEntries, capturedByEntries, List.cons.injEq, Prod.mk.injEq,
        v.rename_eq_self_iff r, renameEntries_eq_self_iff r rest, List.forall_mem_append]
      simp

end

/-- Only frames that descend from the core are captured by what is bound. -/
def CapturedBelow (links : List (Option FrameId)) (bindings : List (Text × Value)) : Prop :=
  ∀ binding ∈ bindings, ∀ f ∈ binding.2.captured, Descends links f

theorem mem_rebind {name : Text} {value : Value} {binding : Text × Value}
    {bindings : List (Text × Value)} (h : binding ∈ Frame.rebind name value bindings) :
    binding = (name, value) ∨ binding ∈ bindings := by
  fun_induction Frame.rebind name value bindings with
  | case1 => exact Or.inl (List.mem_singleton.1 h)
  | case2 old rest =>
      rcases List.mem_cons.1 h with h | h
      · exact Or.inl h
      · exact Or.inr (List.mem_cons_of_mem _ h)
  | case3 bound old rest _ ih =>
      rcases List.mem_cons.1 h with h | h
      · exact Or.inr (h ▸ List.mem_cons_self)
      · exact (ih h).imp_right (List.mem_cons_of_mem _)

theorem mem_of_lookup {name : Text} {value : Value} {bindings : List (Text × Value)}
    (h : bindings.lookup name = some value) : (name, value) ∈ bindings := by
  induction bindings with
  | nil => cases h
  | cons binding rest ih =>
      obtain ⟨bound, old⟩ := binding
      rw [List.lookup_cons] at h
      split at h
      · next heq =>
          cases h
          rw [eq_of_beq heq]
          exact List.mem_cons_self
      · exact List.mem_cons_of_mem _ (ih h)

/-! ## Walks -/

/-- Looking a name up from a frame outwards, through as many frames as there are, comes to
an end with this outcome. -/
inductive Frames.Finds (F : Frames) (name : Text) : FrameId → Option Value → Prop
  | here {id : FrameId} {g : Frame} {value : Value} (hg : F[id]? = some g)
      (hown : g.get? name = some value) : Finds F name id (some value)
  | outward {id outer : FrameId} {g : Frame} {result : Option Value} (hg : F[id]? = some g)
      (hown : g.get? name = none) (houter : g.outer = some outer)
      (hrest : Finds F name outer result) : Finds F name id result
  | nowhere {id : FrameId} {g : Frame} (hg : F[id]? = some g) (hown : g.get? name = none)
      (houter : g.outer = none) : Finds F name id none

namespace Frames

/-- Links lead to frames that were made before. -/
def Backward (F : Frames) : Prop :=
  ∀ ⦃id outer : FrameId⦄, F.links[id]? = some (some outer) → outer < id

theorem Backward.outer_lt {F : Frames} (h : F.Backward) {id outer : FrameId} {g : Frame}
    (hg : F[id]? = some g) (houter : g.outer = some outer) : outer < id :=
  h (by rw [getElem?_links, hg, Option.map_some, houter])

variable {F : Frames} {name : Text} {id : FrameId}

/-- A bound on the walk above the number of the frame is no bound. -/
theorem Backward.finds_lookupWithin (h : F.Backward) {n : Nat} (hn : id < n) (hid : id < F.size) :
    F.Finds name id (F.lookupWithin name n id) := by
  induction n generalizing id with
  | zero => exact absurd hn (Nat.not_lt_zero id)
  | succ n ih =>
      obtain ⟨g, hg⟩ : ∃ g, F[id]? = some g := ⟨_, Array.getElem?_eq_getElem hid⟩
      rw [lookupWithin, hg]
      dsimp only
      cases hown : g.get? name with
      | some value => exact .here hg hown
      | none =>
          cases houter : g.outer with
          | none => exact .nowhere hg hown houter
          | some outer =>
              have hlt := h.outer_lt hg houter
              exact .outward hg hown houter
                (ih (Nat.lt_of_lt_of_le hlt (Nat.le_of_lt_succ hn)) (Nat.lt_trans hlt hid))

/-- **Every walk ends**, and its outcome is that of looking the name up. -/
theorem Backward.finds_lookup (h : F.Backward) (hid : id < F.size) (name : Text) :
    F.Finds name id (F.lookup id name) :=
  h.finds_lookupWithin (Nat.lt_succ_self id) hid

theorem Finds.unique {result other : Option Value} (h : F.Finds name id result)
    (hother : F.Finds name id other) : result = other := by
  induction h with
  | here hg hown =>
      cases hother with
      | here hg' hown' => grind
      | outward hg' hown' _ _ => grind
      | nowhere hg' hown' _ => grind
  | outward hg hown houter _ ih =>
      cases hother with
      | here hg' hown' => grind
      | outward hg' hown' houter' hrest' => grind
      | nowhere hg' hown' houter' => grind
  | nowhere hg hown houter =>
      cases hother with
      | here hg' hown' => grind
      | outward hg' hown' houter' _ => grind
      | nowhere hg' hown' _ => rfl

/-- A walk through a frame that descends from the core reaches the core, unless it ends with
a value before. -/
theorem Finds.core_of_none (hid : Descends F.links id) (h : F.Finds name id none) :
    F.Finds name core none := by
  induction hid with
  | core => exact h
  | inner hlink _ ih =>
      cases h with
      | outward hg _ houter hrest => 
          rw [getElem?_links, hg, Option.map_some, houter] at hlink
          cases hlink
          exact ih hrest
      | nowhere hg _ houter =>
          rw [getElem?_links, hg, Option.map_some, houter] at hlink
          cases hlink

end Frames

/-! ## Rooted frames -/

/-- The core lies inside no frame, every other frame inside one made before it or inside
none, and all that is bound captures frames only that descend from the core. -/
structure Frames.Rooted (F : Frames) : Prop where
  core : F.links[Frames.core]? = some none
  backward : F.Backward
  captured : ∀ ⦃id : FrameId⦄ ⦃g : Frame⦄, F[id]? = some g → CapturedBelow F.links g.bindings

namespace Frames.Rooted

variable {F : Frames}

theorem lt_size (h : F.Rooted) {id : FrameId} (hid : Descends F.links id) : id < F.size := by
  rw [← length_links]
  cases hid with
  | core => exact (List.getElem?_eq_some_iff.1 h.core).1
  | inner hlink _ => exact (List.getElem?_eq_some_iff.1 hlink).1

/-- What the core binds is found from every frame that descends from it. -/
theorem lookup_core_of_none (h : F.Rooted) {id : FrameId} (hid : Descends F.links id)
    {name : Text} (hnone : F.lookup id name = none) : F.lookup Frames.core name = none := by
  have hwalk := h.backward.finds_lookup (h.lt_size hid) name
  rw [hnone] at hwalk
  exact (h.backward.finds_lookup (h.lt_size .core) name).unique (hwalk.core_of_none hid)

/-- What is found captures frames only that descend from the core. -/
theorem captured_of_finds (h : F.Rooted) {name : Text} {id : FrameId} {value : Value}
    (hfinds : F.Finds name id (some value)) : ∀ f ∈ value.captured, Descends F.links f := by
  generalize hresult : some value = result at hfinds
  induction hfinds with
  | here hg hown =>
      cases hresult
      exact h.captured hg (name, value) (mem_of_lookup hown)
  | outward _ _ _ _ ih => exact ih hresult
  | nowhere => cases hresult

/-- A frame is made inside one that is there, or inside none. -/
theorem push (h : F.Rooted) {own : Frame} (houter : ∀ f ∈ own.outer, f < F.size)
    (hbindings : CapturedBelow F.links own.bindings) : Frames.Rooted (F.push own) := by
  have hle : F.links <+: Frames.links (F.push own) := ⟨[own.outer], (links_push F own).symm⟩
  have hlt : Frames.core < F.links.length := (List.getElem?_eq_some_iff.1 h.core).1
  refine ⟨?_, ?_, ?_⟩
  · rw [links_push, List.getElem?_append_left hlt, h.core]
  · intro id outer hlink
    rw [links_push] at hlink
    by_cases hid : id < F.links.length
    · rw [List.getElem?_append_left hid] at hlink
      exact h.backward hlink
    · rw [List.getElem?_append_right (Nat.le_of_not_lt hid)] at hlink
      have hlast := List.mem_singleton.1 (List.mem_of_getElem? hlink)
      have hsize := houter outer hlast.symm
      rw [length_links] at hid
      exact Nat.lt_of_lt_of_le hsize (Nat.le_of_not_lt hid)
  · intro id g hg binding hbinding f hf
    rw [Array.getElem?_push] at hg
    split at hg
    · cases hg
      exact (hbindings binding hbinding f hf).mono hle
    · exact (h.captured hg binding hbinding f hf).mono hle

theorem bind (h : F.Rooted) (id : FrameId) (name : Text) {value : Value}
    (hvalue : ∀ f ∈ value.captured, Descends F.links f) : (F.bind id name value).Rooted := by
  refine ⟨by rw [links_bind]; exact h.core, ?_, ?_⟩
  · intro k outer hlink
    rw [links_bind] at hlink
    exact h.backward hlink
  · intro k g hg binding hbinding
    rw [links_bind]
    simp only [Frames.bind, Array.getElem?_modify] at hg
    split at hg
    · obtain ⟨old, hold, rfl⟩ := Option.map_eq_some_iff.1 hg
      rcases mem_rebind hbinding with rfl | hmem
      · exact hvalue
      · exact h.captured hold binding hmem
    · exact h.captured hg binding hbinding

end Frames.Rooted

/-! ## Frames behind a screen -/

/-- The frame with the number of every frame moved up by one. -/
def Frame.screened (g : Frame) : Frame :=
  ⟨g.outer.map (· + 1), renameBindings (· + 1) g.bindings⟩

/-- An empty frame before all others, which are moved up by one. -/
def Frames.screened (F : Frames) : Frames :=
  #[Frame.empty none] ++ F.map Frame.screened

theorem renameBindings_rebind (r : FrameId → FrameId) (name : Text) (value : Value)
    (bindings : List (Text × Value)) :
    renameBindings r (Frame.rebind name value bindings) =
      Frame.rebind name (value.rename r) (renameBindings r bindings) := by
  fun_induction Frame.rebind name value bindings with
  | case1 => rfl
  | case2 old rest => simp [renameBindings, Frame.rebind]
  | case3 bound old rest hbound ih =>
      simp only [renameBindings, List.map_cons] at ih ⊢
      rw [ih, Frame.rebind, if_neg hbound]

theorem lookup_renameBindings (r : FrameId → FrameId) (name : Text)
    (bindings : List (Text × Value)) :
    (renameBindings r bindings).lookup name = (bindings.lookup name).map (Value.rename r) := by
  induction bindings with
  | nil => rfl
  | cons binding rest ih =>
      obtain ⟨bound, value⟩ := binding
      simp only [renameBindings, List.map_cons, List.lookup_cons] at ih ⊢
      split
      · rfl
      · exact ih

namespace Frames

theorem getElem?_screened_succ (F : Frames) (id : FrameId) :
    F.screened[id + 1]? = F[id]?.map Frame.screened := by
  simp [screened, Array.getElem?_append]

theorem getElem?_screened_zero (F : Frames) : F.screened[0]? = some (Frame.empty none) := by
  rw [screened, Array.getElem?_append_left (by simp)]
  rfl

theorem size_screened (F : Frames) : F.screened.size = F.size + 1 := by
  simp [screened, Nat.add_comm]

theorem screened_push (F : Frames) (own : Frame) :
    screened (F.push own) = F.screened.push own.screened := by
  simp [screened]

theorem screened_bind (F : Frames) (id : FrameId) (name : Text) (value : Value) :
    (F.bind id name value).screened = F.screened.bind (id + 1) name (value.rename (· + 1)) := by
  apply Array.ext_getElem?
  intro k
  cases k with
  | zero => simp [bind, Array.getElem?_modify, getElem?_screened_zero]
  | succ k =>
      simp only [bind, Array.getElem?_modify, getElem?_screened_succ, Nat.add_right_cancel_iff]
      split
      · cases F[k]? with
        | none => rfl
        | some g => simp [Frame.screened, Frame.set, renameBindings_rebind]
      · rfl

/-- Nothing is found in frame zero. -/
theorem lookup_core_screened (F : Frames) (name : Text) :
    F.screened.lookup core name = none := by
  have hzero := getElem?_screened_zero F
  simp only [lookup, core, lookupWithin, hzero]
  rfl

/-- Every walk stays as it was. -/
theorem Finds.screened {F : Frames} {name : Text} {id : FrameId} {result : Option Value}
    (h : F.Finds name id result) :
    F.screened.Finds name (id + 1) (result.map (Value.rename (· + 1))) := by
  have hframe : ∀ {id g}, F[id]? = some g → F.screened[id + 1]? = some g.screened := by
    intro id g hg
    rw [getElem?_screened_succ, hg, Option.map_some]
  have hget : ∀ g : Frame, g.screened.get? name = (g.get? name).map (Value.rename (· + 1)) :=
    fun g => lookup_renameBindings _ name g.bindings
  induction h with
  | here hg hown => exact .here (hframe hg) (by rw [hget, hown]; rfl)
  | outward hg hown houter _ ih =>
      exact .outward (hframe hg) (by rw [hget, hown]; rfl)
        (by rw [Frame.screened, houter]; rfl) ih
  | nowhere hg hown houter =>
      exact .nowhere (hframe hg) (by rw [hget, hown]; rfl) (by rw [Frame.screened, houter]; rfl)

theorem Backward.screened {F : Frames} (h : F.Backward) : F.screened.Backward := by
  intro id outer hlink
  rw [getElem?_links] at hlink
  cases id with
  | zero => 
      rw [getElem?_screened_zero] at hlink
      cases hlink
  | succ id =>
      rw [getElem?_screened_succ] at hlink
      cases hg : F[id]? with
      | none => simp [hg] at hlink
      | some g =>
          simp only [hg, Option.map_some, Option.some.injEq, Frame.screened,
            Option.map_eq_some_iff] at hlink
          obtain ⟨old, houter, rfl⟩ := hlink
          exact Nat.succ_lt_succ (h.outer_lt hg houter)

theorem Backward.lookup_screened {F : Frames} (h : F.Backward) {id : FrameId}
    (hid : id < F.size) (name : Text) :
    F.screened.lookup (id + 1) name = (F.lookup id name).map (Value.rename (· + 1)) := by
  have hsize : id + 1 < F.screened.size := by
    rw [size_screened]
    exact Nat.succ_lt_succ hid
  exact (h.screened.finds_lookup hsize name).unique (h.finds_lookup hid name).screened

end Frames
end MonkeyLang
