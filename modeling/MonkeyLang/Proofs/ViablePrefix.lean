import MonkeyLang.Proofs.Completion
import MonkeyLang.Proofs.CutReading

/-!
# Sources that can go on

A source that fails only where it ends has been read up to there, and what was read is
the beginning of a program.  The tokens that complete it have spellings, and these
spellings, on lines of their own behind the source, make a source that is accepted.
-/

namespace MonkeyLang

/-- A source is refused exactly when there are errors. -/
theorem parse?_eq_error_iff {source : Text} {errors : List SyntaxError} :
    parse? source = .error errors ↔ (parse source).2 = errors ∧ errors ≠ [] := by
  unfold parse?
  rcases parse source with ⟨p, _ | ⟨e, rest⟩⟩
  · simp
  · simp only [Except.error.injEq]
    constructor
    · rintro rfl
      exact ⟨rfl, by simp⟩
    · exact And.left

/-- The first error of a source is where its program stumbles. -/
theorem program_stumbles_of_error {source : Text} {errors : List SyntaxError} {e : SyntaxError}
    (h : parse? source = .error errors) (hfirst : errors.head? = some e) :
    Grammar.program.Stumbles (Cursor.ofTokens (scan source)) e := by
  have herrors := (parse?_eq_error_iff.1 h).1
  rw [← herrors] at hfirst
  exact hfirst

/-- A source whose tokens derive a program is accepted. -/
theorem accepted_of_derives {source : Text} {tokens : List Token} {last : Token}
    (hscan : scan source = tokens ++ [last]) (hlast : last.kind = .eof)
    (hreal : ∀ t ∈ tokens, t.kind ≠ .eof) {p : Program} (hp : p.Derives tokens) :
    parse? source = .ok p := by
  have hahead : (Cursor.ofTokens (scan source)).ahead = tokens := by
    rw [hscan, Cursor.ahead_ofTokens_concat _ hlast]
  have hbefore : beforeEnd tokens = tokens := by
    have happend := beforeEnd_append_of_real [] hreal
    simpa [beforeEnd] using happend
  refine parse?_eq_ok_iff.2 (parseTokens_eq_iff.2 (Grammar.exists_program_yields_iff.2 ?_))
  rw [hahead, hbefore]
  exact hp

/-- **Completions can be written down.**  If the first error of a source is mendable, and
tokens of any kinds that its cut admits can follow, then some source that goes on from
it is accepted. -/
theorem exists_accepted {source : Text} {errors : List SyntaxError} {e : SyntaxError}
    {loose : Loose} {shared : List Token} (h : parse? source = .error errors)
    (hfirst : errors.head? = some e) (he : e.Mendable loose)
    (hcut : (Cursor.ofTokens (scan source)).Cut loose shared)
    (hspelled : ∀ kinds, loose.Admits kinds → ∃ more x last,
      scan (source ++ Text.newline :: more) = shared ++ x ++ [last] ∧
        x.map Token.kind = kinds ∧ last.kind = .eof) :
    ∃ more program, parse? (source ++ Text.newline :: more) = .ok program := by
  obtain ⟨kinds, hadmits, hderived⟩ :=
    Grammar.program_completes hcut he (program_stumbles_of_error h hfirst)
  obtain ⟨more, x, last, hscan, hkinds, hlast⟩ := hspelled kinds hadmits
  obtain ⟨p, hp⟩ := hderived x hkinds
  refine ⟨more, p, accepted_of_derives hscan hlast ?_ hp⟩
  intro t ht
  rcases List.mem_append.1 ht with ht | ht
  · intro hend
    have hkept := hcut.kept t ht
    simp [Token.endsSource, hend] at hkept
  · have hmem : t.kind ∈ kinds := hkinds ▸ List.mem_map_of_mem ht
    exact Kind.ne_eof_of_completing (hadmits.completing _ hmem)

/-- **A source that fails only where it ends can go on.**  If no string literal is open
in it and every error found is at its end, then some source that goes on from it after a
newline is accepted. -/
theorem failing_at_end_can_go_on (source : Text) (errors : List SyntaxError)
    (hclosed : ∀ t ∈ scan source, t.isUnterminated = false)
    (h : parse? source = .error errors) (hend : ∀ e ∈ errors, e.token.kind = .eof) :
    SyntaxError.allIncomplete errors = true ∧
      ∃ more program, parse? (source ++ Text.newline :: more) = .ok program := by
  have hne := (parse?_eq_error_iff.1 h).2
  have hends (e : SyntaxError) (he : e ∈ errors) : e.token.endsSource = true := by
    simp [Token.endsSource, hend e he]
  refine ⟨SyntaxError.allIncomplete_iff.2 ⟨hne, hends⟩, ?_⟩
  obtain ⟨shared, last, hscan, hlast, hkept, hspelled⟩ := scan_closed hclosed
  have hcut : (Cursor.ofTokens (scan source)).Cut ⟨[], by simp⟩ shared := by
    refine ⟨?_, hkept⟩
    rw [hscan, Cursor.ahead_ofTokens_concat _ hlast, List.append_nil]
  have hfirst := List.head?_eq_some_head hne
  refine exists_accepted h hfirst ⟨hends _ (List.head_mem hne), by simp⟩ hcut ?_
  exact fun kinds hadmits => hspelled kinds hadmits.completing

/-- A source cut inside a group inside a block inside a hash literal inside an array. -/
def halfSource : Text := "let a = [1, \x7b\"k\": fn(x) \x7b x; if (x < ("

theorem failing_at_end_can_go_on_within_group :
    (∀ t ∈ scan halfSource, t.isUnterminated = false) ∧
      (∃ errors, parse? halfSource = .error errors ∧ ∀ e ∈ errors, e.token.kind = .eof) ∧
        ∃ more program, parse? (halfSource ++ Text.newline :: more) = .ok program := by
  have hclosed : ∀ t ∈ scan halfSource, t.isUnterminated = false := by decide +kernel
  have hend : ∀ e ∈ (parse halfSource).2, e.token.kind = .eof := by decide +kernel
  have hne : (parse halfSource).2 ≠ [] := by decide +kernel
  have h := parse?_eq_error_iff.2 ⟨rfl, hne⟩
  exact ⟨hclosed, ⟨_, h, hend⟩, (failing_at_end_can_go_on halfSource _ hclosed h hend).2⟩

end MonkeyLang
