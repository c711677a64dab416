import MonkeyLang.Command.Execute
import MonkeyLang.Proofs.Paths
import MonkeyLang.Settings.Toml
import MonkeyLang.Settings.Yaml

/-!
# Setting up

The settings of a run come from one source and have the flags laid over them.  What can be
a source is listed in order of precedence by `Settings.offers`; the first one offered is
used whatever comes of it.  Setting up fails exactly when that source is a broken file or
the level of the flags is not one of those listed, and a failure leaves the settings that
are in force alone.

All this holds for any decoders and for any logger that takes the listed levels.
-/

namespace MonkeyLang

namespace Settings

/-! ## Sources -/

/-- What settings can come from. -/
inductive Source where
  | file (path : Text)
  | defaults
  deriving DecidableEq

/-- The sources there are, the ones that take precedence first: the file that is asked for,
the one the environment names, the standard files that are there, if the home directory is
known, and the defaults. -/
def offers (around : Surroundings) (path : Text) (standard : List Text) : List Source :=
  let named := [path, around.named].filter fun name => !name.isEmpty
  let found := if around.home.isEmpty then [] else standard.filter around.files.isFile
  (named ++ found).map .file ++ [.defaults]

/-- The endings of the names of settings files. -/
def extensions : List Text := [Text.ofString ".toml", ".yaml", ".yml"]

/-- A document in a file with the given ending gives settings.  A TOML document has no key that
is not a setting; of a YAML document the end may have been found at once. -/
inductive Decodes (decoders : Decoders) (document : Text) : Text → Settings → Prop
  | toml {s : Settings} (h : decoders.toml document .default = .ok (s, [])) :
      Decodes decoders document ".toml" s
  | yaml {extension : Text} {s : Settings}
      (hextension : extension ∈ [Text.ofString ".yaml", ".yml"])
      (h : decoders.yaml document .default = (s, none) ∨
        decoders.yaml document .default = (s, some .ended)) :
      Decodes decoders document extension s

/-- A document in a file with the given ending is not taken. -/
inductive Refuses (decoders : Decoders) (document : Text) : Text → Prop
  | toml {reason : Text} (h : decoders.toml document .default = .error reason) :
      Refuses decoders document ".toml"
  | unknownKeys {s : Settings} {keys : List Text}
      (h : decoders.toml document .default = .ok (s, keys)) (hkeys : keys ≠ []) :
      Refuses decoders document ".toml"
  | yaml {extension : Text} {s : Settings} {reason : Text}
      (hextension : extension ∈ [Text.ofString ".yaml", ".yml"])
      (h : decoders.yaml document .default = (s, some (.failed reason))) :
      Refuses decoders document extension

variable {decoders : Decoders} {files : FileTree}

/-- A source gives settings: the defaults do, and a file that can be read and decoded to
settings without a fault. -/
inductive Source.Gives (decoders : Decoders) (files : FileTree) : Source → Settings → Prop
  | defaults : Gives decoders files .defaults .default
  | file {path document : Text} {s : Settings} (hread : files.read path = .ok document)
      (hdecodes : Decodes decoders document (Path.extension path).lower s)
      (hvalid : s.fault? = none) : Gives decoders files (.file path) s

/-- A file that cannot be used, with the reason why. -/
inductive Source.Broken (decoders : Decoders) (files : FileTree) : Source → Prop
  | unreadable {path : Text} {error : FileError} (hread : files.read path = .error error) :
      Broken decoders files (.file path)
  | unsupported {path document : Text} (hread : files.read path = .ok document)
      (hextension : (Path.extension path).lower ∉ extensions) :
      Broken decoders files (.file path)
  | undecodable {path document : Text} (hread : files.read path = .ok document)
      (hrefuses : Refuses decoders document (Path.extension path).lower) :
      Broken decoders files (.file path)
  | invalid {path document : Text} {s : Settings} {fault : Fault}
      (hread : files.read path = .ok document)
      (hdecodes : Decodes decoders document (Path.extension path).lower s)
      (hfault : s.fault? = some fault) : Broken decoders files (.file path)

/-! ## Documents -/

section Documents

variable {document extension : Text} {s base : Settings}

/-- A TOML document gives settings exactly if the decoder takes it and knows all its keys. -/
theorem readToml_eq_ok_iff :
    decoders.readToml document base = .ok s ↔ decoders.toml document base = .ok (s, []) := by
  unfold Decoders.readToml
  rcases decoders.toml document base with reason | ⟨after, _ | ⟨key, keys⟩⟩ <;> simp

theorem readToml_eq_error_iff :
    (∃ fault, decoders.readToml document base = .error fault) ↔
      (∃ reason, decoders.toml document base = .error reason) ∨
        ∃ s keys, decoders.toml document base = .ok (s, keys) ∧ keys ≠ [] := by
  unfold Decoders.readToml
  rcases decoders.toml document base with reason | ⟨after, _ | ⟨key, keys⟩⟩
  · simp
  · simp
  · exact ⟨fun _ => Or.inr ⟨after, key :: keys, rfl, by simp⟩, fun _ => ⟨_, rfl⟩⟩

/-- A YAML document gives settings unless the decoder fails. -/
theorem readYaml_eq_ok_iff :
    decoders.readYaml document base = .ok s ↔
      decoders.yaml document base = (s, none) ∨
        decoders.yaml document base = (s, some .ended) := by
  unfold Decoders.readYaml
  rcases decoders.yaml document base with ⟨after, _ | _ | reason⟩ <;> simp

theorem readYaml_eq_error_iff :
    (∃ fault, decoders.readYaml document base = .error fault) ↔
      ∃ s reason, decoders.yaml document base = (s, some (.failed reason)) := by
  unfold Decoders.readYaml
  rcases decoders.yaml document base with ⟨after, _ | _ | reason⟩ <;> simp

/-- What becomes of a document, by the ending of its file. -/
theorem decode?_cases (decoders : Decoders) (extension document : Text) :
    extension = ".toml" ∧
        decode? decoders extension document = some (decoders.readToml document .default) ∨
      extension ∈ [Text.ofString ".yaml", ".yml"] ∧
        decode? decoders extension document = some (decoders.readYaml document .default) ∨
      extension ∉ extensions ∧ decode? decoders extension document = none := by
  unfold decode?
  by_cases htoml : extension = (".toml" : Text)
  · exact Or.inl ⟨htoml, if_pos htoml⟩
  · rw [if_neg htoml]
    by_cases hyaml : extension ∈ [Text.ofString ".yaml", ".yml"]
    · exact Or.inr (Or.inl ⟨hyaml, if_pos (by simpa using hyaml)⟩)
    · exact Or.inr (Or.inr ⟨by simp_all [extensions], if_neg (by simpa using hyaml)⟩)

theorem toml_not_mem_yaml : Text.ofString ".toml" ∉ [Text.ofString ".yaml", ".yml"] := by decide

theorem decode?_eq_ok_iff :
    decode? decoders extension document = some (.ok s) ↔
      Decodes decoders document extension s := by
  rcases decode?_cases decoders extension document with
    ⟨rfl, hdecode⟩ | ⟨hyaml, hdecode⟩ | ⟨hother, hdecode⟩
  · rw [hdecode, Option.some.injEq, readToml_eq_ok_iff]
    constructor
    · exact .toml
    · rintro (h | ⟨hextension, _⟩)
      · exact h
      · exact absurd hextension toml_not_mem_yaml
  · rw [hdecode, Option.some.injEq, readYaml_eq_ok_iff]
    constructor
    · exact .yaml hyaml
    · rintro (_ | ⟨_, h⟩)
      · exact absurd hyaml toml_not_mem_yaml
      · exact h
  · simp only [hdecode, reduceCtorEq, false_iff]
    rintro (_ | ⟨hextension, _⟩)
    · exact hother (by simp [extensions])
    · exact hother (List.mem_cons_of_mem _ hextension)

theorem decode?_eq_error_iff :
    (∃ fault, decode? decoders extension document = some (.error fault)) ↔
      Refuses decoders document extension := by
  rcases decode?_cases decoders extension document with
    ⟨rfl, hdecode⟩ | ⟨hyaml, hdecode⟩ | ⟨hother, hdecode⟩
  · simp only [hdecode, Option.some.injEq, readToml_eq_error_iff]
    constructor
    · rintro (⟨reason, h⟩ | ⟨s, keys, h, hkeys⟩)
      · exact .toml h
      · exact .unknownKeys h hkeys
    · rintro (h | ⟨h, hkeys⟩ | ⟨hextension, _⟩)
      · exact Or.inl ⟨_, h⟩
      · exact Or.inr ⟨_, _, h, hkeys⟩
      · exact absurd hextension toml_not_mem_yaml
  · simp only [hdecode, Option.some.injEq, readYaml_eq_error_iff]
    constructor
    · rintro ⟨s, reason, h⟩
      exact .yaml hyaml h
    · rintro (_ | _ | ⟨_, h⟩)
      · exact absurd hyaml toml_not_mem_yaml
      · exact absurd hyaml toml_not_mem_yaml
      · exact ⟨_, _, h⟩
  · simp only [hdecode, reduceCtorEq, exists_false, false_iff]
    rintro (_ | _ | ⟨hextension, _⟩)
    · exact hother (by simp [extensions])
    · exact hother (by simp [extensions])
    · exact hother (List.mem_cons_of_mem _ hextension)

theorem decode?_eq_none_iff :
    decode? decoders extension document = none ↔ extension ∉ extensions := by
  rcases decode?_cases decoders extension document with
    ⟨rfl, hdecode⟩ | ⟨hyaml, hdecode⟩ | ⟨hother, hdecode⟩
  · simp [hdecode, extensions]
  · have hknown : extension ∈ extensions := List.mem_cons_of_mem _ hyaml
    simp [hdecode, hknown]
  · simp [hdecode, hother]

end Documents

/-! ## Files -/

variable {path : Text} {s : Settings}

/-- Reading the settings of a file succeeds with what the file gives. -/
theorem ofFile_eq_ok_iff :
    ofFile decoders files path = .ok s ↔ Source.Gives decoders files (.file path) s := by
  constructor
  · intro h
    unfold ofFile at h
    split at h
    · cases h
    · next document hread =>
        dsimp only at h
        split at h
        · cases h
        · cases h
        · next decoded hdecode =>
            split at h
            · cases h
            · next hvalid =>
                cases h
                exact .file hread (decode?_eq_ok_iff.1 hdecode) hvalid
  · rintro (_ | ⟨hread, hdecodes, hvalid⟩)
    simp only [ofFile, hread, decode?_eq_ok_iff.2 hdecodes, hvalid]

/-- A file that gives settings is not broken. -/
theorem Source.Gives.not_broken {source : Source} (h : source.Gives decoders files s) :
    ¬ source.Broken decoders files := by
  intro hbroken
  cases h with
  | defaults => cases hbroken
  | @file path document s hread hdecodes hvalid =>
      have hdecode := decode?_eq_ok_iff.2 hdecodes
      cases hbroken with
      | unreadable hfails => simp [hread] at hfails
      | unsupported _ hextension =>
          simp [decode?_eq_none_iff.2 hextension] at hdecode
      | undecodable hread' hrefuses =>
          obtain rfl : document = _ := Except.ok.inj (hread.symm.trans hread')
          obtain ⟨fault, hfault⟩ := decode?_eq_error_iff.2 hrefuses
          simp [hfault] at hdecode
      | invalid hread' hdecodes' hfault =>
          obtain rfl : document = _ := Except.ok.inj (hread.symm.trans hread')
          have hdecode' := decode?_eq_ok_iff.2 hdecodes'
          obtain rfl : s = _ := Except.ok.inj (Option.some.inj (hdecode.symm.trans hdecode'))
          simp [hvalid] at hfault

/-- A source gives one settings only. -/
theorem Source.Gives.unique {source : Source} {s' : Settings} (h : source.Gives decoders files s)
    (h' : source.Gives decoders files s') : s = s' := by
  cases h with
  | defaults => cases h' with | defaults => rfl
  | file hread hdecodes hvalid =>
      have hload := ofFile_eq_ok_iff.2 (.file hread hdecodes hvalid)
      exact Except.ok.inj (hload.symm.trans (ofFile_eq_ok_iff.2 h'))

/-- Reading the settings of a file fails when the file is broken. -/
theorem ofFile_eq_error_iff :
    (∃ error, ofFile decoders files path = .error error) ↔
      Source.Broken decoders files (.file path) := by
  constructor
  · rintro ⟨error, h⟩
    unfold ofFile at h
    split at h
    · next hread => exact .unreadable hread
    · next document hread =>
        dsimp only at h
        split at h
        · next hdecode => exact .unsupported hread (decode?_eq_none_iff.1 hdecode)
        · next hdecode => exact .undecodable hread (decode?_eq_error_iff.1 ⟨_, hdecode⟩)
        · next decoded hdecode =>
            split at h
            · next hfault => exact .invalid hread (decode?_eq_ok_iff.1 hdecode) hfault
            · cases h
  · intro hbroken
    cases hload : ofFile decoders files path with
    | error error => exact ⟨error, rfl⟩
    | ok s => exact absurd hbroken (ofFile_eq_ok_iff.1 hload).not_broken

/-! ## The source that is used -/

/-- Below a home directory settings files have three paths. -/
theorem candidates_eq {home : Text} (h : home ≠ []) :
    candidates home = [Text.ofString ".toml", ".yaml", ".yml"].map fun ending =>
      Path.clean (home ++ Text.ofString "/.config/monkey/config" ++ ending) := by
  have hdirectory : Text.joined "/" [home, ".config", "monkey"] =
      home ++ Text.ofString "/.config/monkey" := by
    have hnames : Text.ofString "/.config/monkey" =
        Text.ofString "/" ++ (Text.ofString ".config" ++ (Text.ofString "/" ++
          Text.ofString "monkey")) := by
      decide +kernel
    rw [hnames]
    simp [Text.joined, List.intercalate]
  have hpath (name ending : Text) (hname : name ≠ [])
      (htext : Text.ofString "/.config/monkey" ++ Path.slash :: name =
        Text.ofString "/.config/monkey/config" ++ ending) :
      Path.join [Path.join [home, ".config", "monkey"], name] =
        Path.clean (home ++ Text.ofString "/.config/monkey/config" ++ ending) := by
    rw [Path.join_join h _ _ hname (by decide), hdirectory, List.append_assoc, htext,
      ← List.append_assoc]
  unfold candidates
  simp only [List.map_cons, List.map_nil]
  rw [hpath "config.toml" ".toml" (by decide) (by decide +kernel),
    hpath "config.yaml" ".yaml" (by decide) (by decide +kernel),
    hpath "config.yml" ".yml" (by decide) (by decide +kernel)]

/-- What is found has a path. -/
theorem ne_nil_of_isFile (h : files.isFile path = true) : path ≠ [] := by
  rintro rfl
  cases h

/-- When none is named, the first standard file that is there is used. -/
theorem standardFile_eq_of_unnamed {around : Surroundings} (h : around.named = [])
    (hhome : around.home ≠ []) :
    standardFile around = ((candidates around.home).filter around.files.isFile).head?.getD [] := by
  simp [standardFile, h, hhome, List.head?_filter]

/-- The source of a settings file, the defaults when there is none. -/
def Source.ofPath (path : Text) : Source := if path.isEmpty then .defaults else .file path

/-- **The source that is used is the first one offered.** -/
theorem exists_offers (around : Surroundings) (path : Text) :
    ∃ rest, offers around path ([Text.ofString ".toml", ".yaml", ".yml"].map fun ending =>
        Path.clean (around.home ++ Text.ofString "/.config/monkey/config" ++ ending)) =
      Source.ofPath (chosen around path) :: rest := by
  cases path with
  | cons b path => exact ⟨_, rfl⟩
  | nil =>
      cases hnamed : around.named with
      | cons b name =>
          have hchosen : chosen around [] = b :: name := by simp [chosen, standardFile, hnamed]
          rw [hchosen]
          simp [offers, hnamed, Source.ofPath]
      | nil =>
          by_cases hhome : around.home = []
          · simp [offers, chosen, standardFile, hnamed, hhome, Source.ofPath]
          · have hchosen : chosen around [] = _ := standardFile_eq_of_unnamed hnamed hhome
            rw [← candidates_eq hhome, hchosen]
            cases hfound : (candidates around.home).filter around.files.isFile with
            | nil => simp [offers, hnamed, hhome, hfound, Source.ofPath]
            | cons first others =>
                have hfirst : first ∈ (candidates around.home).filter around.files.isFile :=
                  hfound ▸ List.mem_cons_self
                have hpath := ne_nil_of_isFile (List.mem_filter.1 hfirst).2
                simp [offers, hnamed, hhome, hfound, Source.ofPath, hpath]

/-- What comes of choosing settings is what the source gives. -/
theorem choose_eq_ok_iff {around : Surroundings} :
    (choose decoders around path).1 = .ok s ↔
      (Source.ofPath (chosen around path)).Gives decoders around.files s := by
  unfold choose Source.ofPath
  by_cases hempty : (chosen around path).isEmpty = true
  · simp only [hempty, if_true, Except.ok.injEq]
    constructor
    · rintro rfl
      exact .defaults
    · rintro ⟨⟩
      rfl
  · simp only [hempty, Bool.false_eq_true, if_false]
    exact ofFile_eq_ok_iff

theorem choose_eq_error_iff {around : Surroundings} :
    (∃ error, (choose decoders around path).1 = .error error) ↔
      (Source.ofPath (chosen around path)).Broken decoders around.files := by
  unfold choose Source.ofPath
  by_cases hempty : (chosen around path).isEmpty = true
  · simp only [hempty, if_true, reduceCtorEq, exists_false, false_iff]
    rintro ⟨⟩
  · simp only [hempty, Bool.false_eq_true, if_false]
    exact ofFile_eq_error_iff

/-- Settings that a source gives have no fault. -/
theorem Source.Gives.fault?_eq {source : Source} (h : source.Gives decoders files s) :
    s.fault? = none := by
  cases h with
  | defaults => decide +kernel
  | file _ _ hvalid => exact hvalid

/-! ## Flags -/

/-- Settings have no fault when the limit is not negative and the level is listed. -/
theorem fault?_eq_none_iff : s.fault? = none ↔ 0 ≤ s.callLimit ∧ s.level.lower ∈ levels := by
  unfold fault?
  split
  · next hlimit => simpa using fun h => absurd hlimit (by omega)
  · next hlimit =>
      split
      · next hlevel => simpa using ⟨by omega, by simpa using hlevel⟩
      · next hlevel => simpa using fun _ => by simpa using hlevel

/-- Settings with flags laid over them. -/
def withFlags (s : Settings) (flags : Command.Flags) : Settings :=
  { s with
    level := if flags.level = [] then s.level else flags.level
    colored := s.colored && !flags.noColor }

end Settings

namespace Command

open Settings

variable {decoders : Decoders} {around : Surroundings} {flags : Flags} {s : Settings}

/-- What comes of a source that gives settings is decided by the level of the flags. -/
theorem configure_of_choose {base : Settings}
    (h : (choose decoders around flags.settingsFile).1 = .ok base) (hvalid : base.fault? = none) :
    if flags.level = [] ∨ flags.level.lower ∈ levels then
      configure decoders around flags = .ok (base.withFlags flags)
    else ∃ error, configure decoders around flags = .error error := by
  by_cases hlevel : flags.level = []
  · rw [if_pos (Or.inl hlevel)]
    cases hcolor : flags.noColor <;> simp [configure, h, hlevel, hcolor, withFlags]
  · have hfault : ({ base with level := flags.level } : Settings).fault? = none ↔
        flags.level.lower ∈ levels := by
      rw [fault?_eq_none_iff]
      exact and_iff_right (fault?_eq_none_iff.1 hvalid).1
    by_cases hlisted : flags.level.lower ∈ levels
    · rw [if_pos (Or.inr hlisted)]
      cases hcolor : flags.noColor <;>
        simp [configure, h, hlevel, hcolor, withFlags, hfault.2 hlisted]
    · rw [if_neg (by simp [hlevel, hlisted])]
      obtain ⟨fault, hsome⟩ := Option.ne_none_iff_exists'.1 fun hnone => hlisted (hfault.1 hnone)
      exact ⟨.badLevel fault, by simp [configure, h, hlevel, hsome]⟩

/-- A logger takes the levels that settings may have. -/
def Logger.TakesListed (logger : Logger) : Prop :=
  ∀ level ∈ levels, logger.objection? level = none

/-- A failure to make the settings leaves those in force alone. -/
theorem setUp_of_error (logger : Logger) {error : LoadError}
    (h : configure decoders around flags = .error error) (inForce : Settings) :
    (setUp logger decoders around flags).run inForce = (.error error, inForce) := by
  simp only [setUp, h]
  rfl

/-- Settings with a level that the logger takes are put in force. -/
theorem setUp_of_ok {logger : Logger} (h : configure decoders around flags = .ok s)
    (hlevel : logger.objection? s.level.lower = none) (inForce : Settings) :
    (setUp logger decoders around flags).run inForce = (.ok (), s) := by
  have hset : setUp logger decoders around flags = set s := by
    unfold setUp
    rw [h]
    refine (pure_bind s _).trans ?_
    simp only [hlevel]
  rw [hset]
  rfl

/-- Flags with a listed level, or none, lay no fault over settings. -/
theorem fault?_withFlags {base : Settings} (hvalid : base.fault? = none)
    (hlevel : flags.level = [] ∨ flags.level.lower ∈ levels) :
    (base.withFlags flags).fault? = none := by
  obtain ⟨hlimit, hlisted⟩ := fault?_eq_none_iff.1 hvalid
  refine fault?_eq_none_iff.2 ⟨hlimit, ?_⟩
  by_cases hempty : flags.level = []
  · simpa [withFlags, hempty] using hlisted
  · simpa [withFlags, hempty] using hlevel

/-- **Settings follow one precedence and fail as a whole.**  The first source offered is
used: the file that is asked for, else the one the environment names, else the first of
`~/.config/monkey/config` with the ending `.toml`, `.yaml` or `.yml` that is there, else the
defaults.  Setting up fails exactly when that source is a broken file, which no later source
makes good, or when the flags name a level that is not listed.  A failure leaves the settings
in force as they were.  Otherwise those the source gives are put in force, with the level of
the flags if there is one and without colours if the flags say so; they have no fault, so
their limit on calls is not negative. -/
theorem settings_follow_precedence {logger : Logger} (hlogger : logger.TakesListed)
    (decoders : Decoders) (around : Surroundings) (flags : Flags) (inForce : Settings) :
    ∃ source rest outcome after,
      offers around flags.settingsFile ([Text.ofString ".toml", ".yaml", ".yml"].map fun ending =>
        Path.clean (around.home ++ Text.ofString "/.config/monkey/config" ++ ending)) =
          source :: rest ∧
      (setUp logger decoders around flags).run inForce = (outcome, after) ∧
      ((∃ error, outcome = .error error) ↔
        source.Broken decoders around.files ∨ flags.level ≠ [] ∧ flags.level.lower ∉ levels) ∧
      ((∃ error, outcome = .error error) → after = inForce) ∧
      (outcome = .ok () → ∃ base, source.Gives decoders around.files base ∧
        after = base.withFlags flags ∧ after.fault? = none ∧ 0 ≤ after.callLimit) := by
  obtain ⟨rest, hoffers⟩ := exists_offers around flags.settingsFile
  cases hchoose : (choose decoders around flags.settingsFile).1 with
  | error error =>
      have hbroken := choose_eq_error_iff.1 ⟨error, hchoose⟩
      have hconfigure : configure decoders around flags = .error error := by rw [configure, hchoose]
      refine ⟨_, rest, _, _, hoffers, setUp_of_error logger hconfigure inForce, ?_⟩
      simp [hbroken]
  | ok base =>
      have hgives := choose_eq_ok_iff.1 hchoose
      have hvalid := hgives.fault?_eq
      have hconfigure := configure_of_choose hchoose hvalid
      by_cases hlevel : flags.level = [] ∨ flags.level.lower ∈ levels
      · rw [if_pos hlevel] at hconfigure
        have hafter := fault?_withFlags hvalid hlevel
        obtain ⟨hlimit, hlisted⟩ := fault?_eq_none_iff.1 hafter
        have hgood : ¬ (flags.level ≠ [] ∧ flags.level.lower ∉ levels) := fun hbad =>
          hlevel.elim hbad.1 hbad.2
        refine ⟨_, rest, _, _, hoffers, setUp_of_ok hconfigure (hlogger _ hlisted) inForce,
          by simp [hgives.not_broken, hgood], by simp, fun _ => ?_⟩
        exact ⟨base, hgives, rfl, hafter, hlimit⟩
      · rw [if_neg hlevel] at hconfigure
        obtain ⟨error, hconfigure⟩ := hconfigure
        refine ⟨_, rest, _, _, hoffers, setUp_of_error logger hconfigure inForce, ?_⟩
        simp [not_or.1 hlevel]

theorem takesListed_listed : Logger.listed.TakesListed := by
  intro level hlevel
  simp [Logger.listed, hlevel]

/-- The decoders of the program. -/
def ownDecoders : Decoders := ⟨Toml.decode, Yaml.decode⟩

/-- A home directory with two settings files, and a third file elsewhere. -/
def atHome : Surroundings where
  files := FileTree.ofPaths
    [("/etc/loop.toml", "[eval]\nmax_call_depth = 5\n"),
      ("/home/ape/.config/monkey/config.toml", "[repl]\nbanner = false\n"),
      ("/home/ape/.config/monkey/config.yml", "log:\n  level: debug\n")] [] []
  home := "/home/ape/"
  named := []

/-- The same, but a directory has the place of the first file, and before the last one comes a
file that cannot be opened. -/
def lockedOut : Surroundings where
  files := FileTree.ofPaths
    [("/home/ape/.config/monkey/config.yml", "log:\n  level: debug\n")]
    ["/home/ape/.config/monkey/config.yaml"] ["/home/ape/.config/monkey/config.toml"]
  home := "/home/ape/"
  named := []

/-- The settings of a file, from what reading it gives when it is run. -/
theorem gives_of_toOption {files : FileTree} {path : Text} {s : Settings}
    (h : (ofFile ownDecoders files path).toOption = some s) :
    Source.Gives ownDecoders files (.file path) s := by
  refine ofFile_eq_ok_iff.1 ?_
  cases hfile : ofFile ownDecoders files path with
  | error error => simp [hfile, Except.toOption] at h
  | ok found => simpa [hfile, Except.toOption] using h

theorem gives_at_home : Source.Gives ownDecoders atHome.files
    (.file "/home/ape/.config/monkey/config.toml") { Settings.default with banner := false } :=
  gives_of_toOption (by decide +kernel)

theorem gives_loop : Source.Gives ownDecoders atHome.files (.file "/etc/loop.toml")
    { Settings.default with callLimit := 5 } :=
  gives_of_toOption (by decide +kernel)

/-- The first file in the home directory is read, with the level and the colours of the flags;
one that the environment names goes before it; one that is asked for and missing is not made
good by it; and neither is one that cannot be opened by the file behind it. -/
theorem settings_follow_precedence_at_home :
    Logger.listed.TakesListed ∧
      (setUp .listed ownDecoders atHome ⟨[], "DEBUG", true, false⟩).run .default =
        (.ok (), { Settings.default with level := "DEBUG", colored := false, banner := false }) ∧
      (setUp .listed ownDecoders { atHome with named := "/etc/loop.toml" }
        ⟨[], [], false, false⟩).run .default =
        (.ok (), { Settings.default with callLimit := 5 }) ∧
      (∃ error, (setUp .listed ownDecoders atHome ⟨"lost.toml", [], false, false⟩).run .default =
        (.error error, .default)) ∧
      ∃ error, (setUp .listed ownDecoders lockedOut ⟨[], [], false, false⟩).run .default =
        (.error error, .default) := by
  -- What the first source gives is put in force, and if it is broken nothing is.
  have hfirst : ∀ (around : Surroundings) (flags : Flags) (source : Source),
      (offers around flags.settingsFile ([Text.ofString ".toml", ".yaml", ".yml"].map fun ending =>
        Path.clean (around.home ++ Text.ofString "/.config/monkey/config" ++ ending))).head? =
          some source →
      (∀ base, source.Gives ownDecoders around.files base →
        (flags.level = [] ∨ flags.level.lower ∈ levels) →
        (setUp .listed ownDecoders around flags).run .default =
          (.ok (), base.withFlags flags)) ∧
      (source.Broken ownDecoders around.files → ∃ error,
        (setUp .listed ownDecoders around flags).run .default = (.error error, .default)) := by
    intro around flags source hhead
    obtain ⟨first, rest, outcome, after, hoffers, hrun, hfails, hkept, hgives⟩ :=
      settings_follow_precedence takesListed_listed ownDecoders around flags .default
    rw [hoffers, List.head?_cons, Option.some.injEq] at hhead
    subst hhead
    constructor
    · intro base hbase hlevel
      cases outcome with
      | error error =>
          rcases hfails.1 ⟨error, rfl⟩ with hbroken | hbad
          · exact absurd hbroken hbase.not_broken
          · exact absurd hlevel (not_or.2 hbad)
      | ok =>
          obtain ⟨given, hgiven, rfl, _⟩ := hgives rfl
          rw [hrun, hgiven.unique hbase]
    · intro hbroken
      obtain ⟨error, rfl⟩ := hfails.2 (Or.inl hbroken)
      exact ⟨error, by rw [hrun, hkept ⟨error, rfl⟩]⟩
  have hlocked : lockedOut.files.read "/home/ape/.config/monkey/config.yaml" =
      .error ⟨"open", "/home/ape/.config/monkey/config.yaml", .denied⟩ := rfl
  refine ⟨takesListed_listed, ?_, ?_, ?_, ?_⟩
  · exact (hfirst atHome ⟨[], "DEBUG", true, false⟩ _ (by decide +kernel)).1 _ gives_at_home
      (Or.inr (by decide +kernel))
  · exact (hfirst { atHome with named := "/etc/loop.toml" } ⟨[], [], false, false⟩ _ rfl).1 _
      gives_loop (Or.inl rfl)
  · exact (hfirst atHome ⟨"lost.toml", [], false, false⟩ (.file "lost.toml") rfl).2
      (.unreadable rfl)
  · exact (hfirst lockedOut ⟨[], [], false, false⟩ _ (by decide +kernel)).2 (.unreadable hlocked)

end Command

end MonkeyLang
