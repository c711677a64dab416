import MonkeyLang.Files.Tree

/-!
# Clean paths

What cleaning leaves of the names of a path is clean: every name leads somewhere, and two dots
stand only in front of all other names, and not at all behind the root.  Cleaning takes one
name at a time and keeps this so (`Clean.step`); and it leaves names that are clean as they
are (`Clean.cleanNames_reverse`).  So it makes no difference whether a path is cleaned before
more names are put behind it (`clean_clean_append`).
-/

namespace MonkeyLang.Path

/-! ## Names -/

theorem names_eq_splitOn (path : Text) : names path = path.splitOn slash := by
  induction path with
  | nil => rfl
  | cons b rest ih =>
      rw [names, List.splitOn_cons_eq_if_modifyHead, ih]
      by_cases hb : b = slash
      · simp [hb]
      · simp only [hb, if_false, beq_iff_eq]
        cases hrest : rest.splitOn slash with
        | nil => exact absurd hrest (List.splitOn_ne_nil slash rest)
        | cons name more => rfl

/-- The names of two paths with a slash between them. -/
theorem names_append (path rest : Text) :
    names (path ++ slash :: rest) = names path ++ names rest := by
  simp only [names_eq_splitOn, List.splitOn]
  exact List.splitOnP_append_cons path rest (beq_self_eq_true slash)

/-- Names with slashes between them are found again. -/
theorem names_joined {list : List Text} (h : ∀ name ∈ list, slash ∉ name) (hne : list ≠ []) :
    names (Text.joined "/" list) = list := by
  rw [names_eq_splitOn]
  exact List.splitOn_intercalate slash h hne

theorem slash_not_mem_name {path name : Text} (h : name ∈ names path) : slash ∉ name := by
  induction path generalizing name with
  | nil =>
      rw [List.mem_singleton.1 h]
      exact List.not_mem_nil
  | cons b rest ih =>
      rw [names] at h
      split at h
      · rcases List.mem_cons.1 h with rfl | h
        · exact List.not_mem_nil
        · exact ih h
      · next hb =>
          split at h
          · next hnone => exact absurd hnone (by simp [names_eq_splitOn, List.splitOn_ne_nil])
          · next first more hnames =>
              rcases List.mem_cons.1 h with rfl | h
              · have hfirst := ih (hnames ▸ List.mem_cons_self)
                exact List.not_mem_cons_of_ne_of_not_mem (Ne.symm hb) hfirst
              · exact ih (hnames ▸ List.mem_cons_of_mem first h)

/-! ## Cleaning -/

/-- Names that are clean, the last one first. -/
inductive Clean (rooted : Bool) : List Text → Prop
  | nil : Clean rooted []
  | up {kept : List Text} (hrooted : rooted = false) (h : Clean rooted kept)
      (hall : ∀ name ∈ kept, name = above) : Clean rooted (above :: kept)
  | down {name : Text} {kept : List Text} (h : Clean rooted kept) (hslash : slash ∉ name)
      (hempty : name ≠ []) (hhere : name ≠ here) (habove : name ≠ above) :
      Clean rooted (name :: kept)

variable {rooted : Bool} {kept : List Text}

/-- Names are taken one after another. -/
theorem cleanNames_append (kept list rest : List Text) :
    cleanNames rooted kept (list ++ rest) =
      cleanNames rooted (cleanNames rooted kept list) rest := by
  fun_induction cleanNames rooted kept list <;> simp_all [cleanNames]

/-- One name more. -/
theorem Clean.step (h : Clean rooted kept) {name : Text} (hslash : slash ∉ name) :
    Clean rooted (Path.cleanNames rooted kept [name]) := by
  by_cases hidle : name = [] ∨ name = here
  · have hkept : Path.cleanNames rooted kept [name] = kept := by
      rcases hidle with rfl | rfl <;> simp [Path.cleanNames]
    rwa [hkept]
  · obtain ⟨hempty, hhere⟩ := not_or.1 hidle
    by_cases habove : name = above
    · subst habove
      cases h with
      | nil =>
          cases rooted with
          | true => simpa [Path.cleanNames, hempty, hhere] using Clean.nil
          | false => simpa [Path.cleanNames, hempty, hhere] using Clean.up rfl .nil (by simp)
      | up hrooted hkept hall =>
          simpa [Path.cleanNames, hempty, hhere] using
            Clean.up hrooted (.up hrooted hkept hall) (List.forall_mem_cons.2 ⟨rfl, hall⟩)
      | down hkept _ _ _ hlast =>
          simpa [Path.cleanNames, hempty, hhere, hlast] using hkept
    · simpa [Path.cleanNames, hempty, hhere, habove] using
        Clean.down h hslash hempty hhere habove

/-- Cleaning leaves names that are clean. -/
theorem Clean.cleanNames {list : List Text} (h : Clean rooted kept)
    (hslash : ∀ name ∈ list, slash ∉ name) : Clean rooted (cleanNames rooted kept list) := by
  induction list generalizing kept with
  | nil => exact h
  | cons name rest ih =>
      have hstep := h.step (hslash name List.mem_cons_self)
      rw [show name :: rest = [name] ++ rest from rfl, cleanNames_append]
      exact ih hstep fun other hother => hslash other (List.mem_cons_of_mem name hother)

/-- Names that are clean are left as they are. -/
theorem Clean.cleanNames_reverse (h : Clean rooted kept) :
    Path.cleanNames rooted [] kept.reverse = kept := by
  induction h with
  | nil => rfl
  | @up kept hrooted _ hall ih =>
      rw [List.reverse_cons, cleanNames_append, ih]
      cases kept with
      | nil => simp [Path.cleanNames, hrooted, above, here, Text.ofString]
      | cons last before =>
          have hlast : last = above := hall last List.mem_cons_self
          simp [Path.cleanNames, hlast, above, here, Text.ofString]
  | @down name kept _ _ hempty hhere habove ih =>
      rw [List.reverse_cons, cleanNames_append, ih]
      simp [Path.cleanNames, hempty, hhere, habove]

theorem Clean.slash_not_mem (h : Clean rooted kept) : ∀ name ∈ kept, slash ∉ name := by
  induction h with
  | nil => simp
  | up _ _ _ ih => exact List.forall_mem_cons.2 ⟨by decide, ih⟩
  | down _ hslash _ _ _ ih => exact List.forall_mem_cons.2 ⟨hslash, ih⟩

theorem Clean.ne_nil (h : Clean rooted kept) : ∀ name ∈ kept, name ≠ [] := by
  induction h with
  | nil => simp
  | up _ _ _ ih => exact List.forall_mem_cons.2 ⟨by decide, ih⟩
  | down _ _ hempty _ _ ih => exact List.forall_mem_cons.2 ⟨hempty, ih⟩

/-- Clean names are what cleaning makes of the path they are joined to. -/
theorem Clean.cleanNames_names_joined (h : Clean rooted kept) :
    Path.cleanNames rooted [] (names (Text.joined "/" kept.reverse)) = kept := by
  cases hkept : kept with
  | nil => rfl
  | cons last before =>
      rw [← hkept, names_joined, h.cleanNames_reverse]
      · exact fun name hname => h.slash_not_mem name (List.mem_reverse.1 hname)
      · simp [hkept]

/-! ## Paths -/

/-- The names that cleaning a path leaves, the last one first. -/
def cleaned (path : Text) : List Text := cleanNames (isRooted path) [] (names path)

theorem clean_cleaned (path : Text) : Clean (isRooted path) (cleaned path) :=
  Clean.nil.cleanNames fun _ => slash_not_mem_name

theorem clean_of_rooted {path : Text} (h : isRooted path = true) :
    clean path = slash :: Text.joined "/" (cleaned path).reverse := by
  rw [clean, cleaned, h]
  rfl

theorem clean_of_unrooted {path : Text} (h : isRooted path = false) :
    clean path = if (Text.joined "/" (cleaned path).reverse).isEmpty then here
      else Text.joined "/" (cleaned path).reverse := by
  rw [clean, cleaned, h]
  rfl

theorem isRooted_append {path : Text} (h : path ≠ []) (rest : Text) :
    isRooted (path ++ rest) = isRooted path := by
  cases path with
  | nil => exact absurd rfl h
  | cons b path => rfl

/-- Names joined by slashes start at the root only if the first one is empty. -/
theorem isRooted_joined {list : List Text} (hslash : ∀ name ∈ list, slash ∉ name)
    (hempty : ∀ name ∈ list, name ≠ []) : isRooted (Text.joined "/" list) = false := by
  match list with
  | [] => rfl
  | [] :: _ => exact absurd rfl (hempty [] List.mem_cons_self)
  | (b :: name) :: rest =>
      have hb : b ≠ slash := fun heq => hslash _ List.mem_cons_self (heq ▸ List.mem_cons_self)
      cases rest <;> simp [Text.joined, List.intercalate, isRooted, hb]

/-- Cleaning keeps the root. -/
theorem isRooted_clean (path : Text) : isRooted (clean path) = isRooted path := by
  have hclean := clean_cleaned path
  cases hrooted : isRooted path with
  | true =>
      rw [clean_of_rooted hrooted]
      rfl
  | false =>
      rw [clean_of_unrooted hrooted]
      split
      · rfl
      · refine isRooted_joined ?_ ?_
        · exact fun name hname => hclean.slash_not_mem name (List.mem_reverse.1 hname)
        · exact fun name hname => hclean.ne_nil name (List.mem_reverse.1 hname)

theorem clean_ne_nil (path : Text) : clean path ≠ [] := by
  cases hrooted : isRooted path with
  | true => simp [clean_of_rooted hrooted]
  | false =>
      rw [clean_of_unrooted hrooted]
      split
      · decide
      · next hbody => simpa using hbody

/-- A path that is clean keeps its names. -/
theorem cleaned_clean (path : Text) : cleaned (clean path) = cleaned path := by
  have hsame := (clean_cleaned path).cleanNames_names_joined
  rw [cleaned, isRooted_clean]
  cases hrooted : isRooted path with
  | true =>
      have hnames : names (slash :: Text.joined "/" (cleaned path).reverse) =
          [[]] ++ names (Text.joined "/" (cleaned path).reverse) := names_append [] _
      rw [hrooted] at hsame
      rw [clean_of_rooted hrooted, hnames, cleanNames_append]
      exact hsame
  | false =>
      rw [hrooted] at hsame
      rw [clean_of_unrooted hrooted]
      split
      · next hbody =>
          rw [List.isEmpty_iff.1 hbody] at hsame
          rw [← hsame]
          decide
      · exact hsame

/-- **It makes no difference whether a path is cleaned before more is put behind it.** -/
theorem clean_clean_append {path : Text} (h : path ≠ []) (rest : Text) :
    clean (clean path ++ slash :: rest) = clean (path ++ slash :: rest) := by
  have hrooted : isRooted (clean path ++ slash :: rest) = isRooted (path ++ slash :: rest) := by
    rw [isRooted_append (clean_ne_nil path), isRooted_append h, isRooted_clean]
  have hsame : cleaned (clean path ++ slash :: rest) = cleaned (path ++ slash :: rest) := by
    have hpath := cleaned_clean path
    rw [cleaned, isRooted_clean] at hpath
    rw [cleaned, cleaned, hrooted, isRooted_append h, names_append, names_append,
      cleanNames_append, cleanNames_append, hpath]
    rfl
  cases hroot : isRooted (path ++ slash :: rest) with
  | true => rw [clean_of_rooted (hrooted.trans hroot), clean_of_rooted hroot, hsame]
  | false => rw [clean_of_unrooted (hrooted.trans hroot), clean_of_unrooted hroot, hsame]

/-- A path behind the path of a directory that was joined of others. -/
theorem join_join {first : Text} (h : first ≠ []) (rest : List Text) (name : Text)
    (hname : name ≠ []) (hrest : ∀ part ∈ rest, part ≠ []) :
    join [join (first :: rest), name] =
      clean (Text.joined "/" (first :: rest) ++ slash :: name) := by
  have hall : (first :: rest).filter (fun part => !part.isEmpty) = first :: rest := by
    refine List.filter_eq_self.2 (List.forall_mem_cons.2 ⟨by simpa using h, ?_⟩)
    exact fun part hpart => by simpa using hrest part hpart
  have hjoin : join (first :: rest) = clean (Text.joined "/" (first :: rest)) := by
    rw [join, hall]
  have hjoined : Text.joined "/" (first :: rest) ≠ [] := by
    cases first with
    | nil => exact absurd rfl h
    | cons b first => cases rest <;> simp [Text.joined, List.intercalate]
  have hboth : join [clean (Text.joined "/" (first :: rest)), name] =
      clean (clean (Text.joined "/" (first :: rest)) ++ slash :: name) := by
    simp [join, clean_ne_nil, hname, Text.joined, List.intercalate]
    rfl
  rw [hjoin, hboth, clean_clean_append hjoined]

end MonkeyLang.Path
