import MonkeyLang.Console
import MonkeyLang.Proofs.OneLine
import MonkeyLang.Proofs.ProgramTails
import MonkeyLang.Proofs.RenderedReading

/-!
# Lines of the history

A unit may take several lines; its entry in the history is one line, with a space in the
place of every newline.  When such a line is recalled it is meant to be the unit again.
Where newlines are white space it is.  Where one stands in a string literal the string is
another one, and where one ends a comment the rest of the unit is lost to the comment.

A string that changed is seen in the tree, and so is every token that was lost, but for
semicolons behind the last statement.  So the condition under which an entry reads back
can be told exactly, in terms of the spans of the unit.
-/

namespace MonkeyLang

/-- Tokens that differ at most in strings, and leave the same, are the same. -/
theorem eq_of_imprint_eq {kept kept' : List Token} (h : List.Forall₂ Token.Alike kept kept')
    {before : Kind} (heq : imprint before kept' = imprint before kept) : kept' = kept := by
  induction h generalizing before with
  | nil => rfl
  | @cons t t' rest rest' halike _ ih =>
      simp only [imprint, halike.kind] at heq
      by_cases hprints : before.prints t.kind
      · rw [if_pos hprints, if_pos hprints] at heq
        obtain ⟨hprint, hrest⟩ := List.cons.inj heq
        have hliteral : t'.literal = t.literal := by
          by_cases hstring : t.kind = .string
          · simpa [Token.print, halike.kind, hstring] using hprint
          · exact halike.literal hstring
        rw [ih hrest, halike.eq_of_literal hliteral]
      · rw [if_neg hprints, if_neg hprints] at heq
        have hstring : t.kind ≠ .string := by
          intro hstring
          exact hprints (.inl (by simp [hstring]))
        rw [ih heq, halike.eq_of_literal (halike.literal hstring)]

/-- Tokens that differ at most in strings from an initial part of a program's tokens are read
as that program exactly if they do not differ and only semicolons are left out. -/
theorem Body.alike_iff {kept cut kept' : List Token} {list : List Stmt}
    (halike : List.Forall₂ Token.Alike kept kept') (hreal : ∀ t ∈ kept ++ cut, t.kind ≠ .eof)
    (h : Body .eof (kept ++ cut) list) :
    Body .eof kept' list ↔ kept' = kept ∧ ∀ t ∈ cut, t.kind = .semicolon := by
  constructor
  · intro h'
    have himprint : imprint .eof kept' ++ [] =
        imprint .eof kept ++ imprint (lastKind .eof kept) cut := by
      rw [List.append_nil, ← imprint_append, h'.imprint_program, h.imprint_program]
    -- Both leave as much, so behind the kept tokens there is nothing.
    have hlength := length_imprint_eq (Token.Alike.map_kind_eq halike) .eof
    obtain ⟨hsame, _⟩ := List.append_inj himprint hlength
    obtain rfl := eq_of_imprint_eq halike hsame
    exact ⟨rfl, (Body.kept_iff hreal h).1 h'⟩
  · rintro ⟨rfl, hcut⟩
    exact (Body.kept_iff hreal h).2 hcut

/-- No token of a source that is accepted is illegal. -/
theorem legal_of_parse? {source : Text} {p : Program} (h : parse? source = .ok p) :
    Legal (scan source) := by
  have hderives := derives_iff_parseTokens.2 (parse?_eq_ok_iff.1 h)
  obtain ⟨tokens, last, hscan, hlast⟩ := (Scanner.start source).drain_eq_concat
  have hlegal : Legal (beforeEnd (scan source)) := Body.legal hderives
  rw [scan, (Scanner.start source).beforeEnd_drain, hscan, List.dropLast_concat] at hlegal
  rw [scan, hscan]
  simp [hlegal, hlast]

/-- An evaluation makes no entry in the history. -/
theorem Repl.history_not_mem_evaluate {budget : Nat} {r after : Repl} {program : Program}
    {events : List Event} (h : r.evaluate budget program = some (events, after)) (entry : Text) :
    .history entry ∉ events := by
  obtain ⟨⟨value, ip⟩, _, hevents⟩ := Option.map_eq_some_iff.1 h
  cases hevents
  simp only [List.mem_append, not_or]
  constructor
  · unfold Event.printed
    split <;> simp
  · split
    · simp [Event.errLine]
    · split <;> simp [Event.outLine]

/-- A unit that is no command makes one entry in the history, before all that it leads to. -/
theorem Repl.submit_history {budget : Nat} {r : Repl} {unit : Text} {events : List Event}
    {next : Option Repl} (hblank : unit.isBlank = false) (hcommand : isCommand unit = false)
    (h : r.submit budget unit = some (events, next)) :
    ∃ rest, events = .history unit.oneLine :: rest ∧ ∀ entry, .history entry ∉ rest := by
  simp only [submit, hblank, hcommand, Bool.false_eq_true, if_false] at h
  cases hparse : parse? unit with
  | error errors =>
      simp only [hparse, Option.some.injEq, Prod.mk.injEq] at h
      obtain ⟨rfl, _⟩ := h
      exact ⟨_, rfl, by simp [reportEvent, Event.errLine]⟩
  | ok program =>
      simp only [hparse] at h
      obtain ⟨⟨rest, after⟩, heval, hevents⟩ := Option.map_eq_some_iff.1 h
      cases hevents
      exact ⟨rest, rfl, history_not_mem_evaluate heval⟩

/-- **When an entry of the history is its unit again.**  A unit that is accepted, and is
neither blank nor a command, makes one entry, which is one line.  Its tokens tile it, and
the entry is read as the same program, but for the places of tokens, exactly if no string
literal of the unit has a newline in it and no comment stands before anything but
semicolons. -/
theorem history_line_reads_back_iff (unit : Text) (program : Program)
    (hparse : parse? unit = .ok program) (hblank : unit.isBlank = false)
    (hcommand : Repl.isCommand unit = false) :
    (∀ budget (r : Repl) events next, r.submit budget unit = some (events, next) →
      ∃ rest, events = .history unit.oneLine :: rest ∧ ∀ entry, .history entry ∉ rest) ∧
    Text.newline ∉ unit.oneLine ∧
    ∃ spans, Tiles unit 0 (scan unit) spans ∧
      ((∃ q, parse? unit.oneLine = .ok q ∧
          q.move (fun _ => .start) = program.move fun _ => .start) ↔
        FitsOneLine unit 0 (scan unit) spans) := by
  refine ⟨?_, Text.newline_not_mem_oneLine unit, ?_⟩
  · intro budget r events next h
    exact Repl.submit_history hblank hcommand h
  obtain ⟨spans, htiles, kept, cut, kept', last, last', hunit, hline, halike, hfits⟩ :=
    exists_tokensOf_oneLine (legal_of_parse? hparse)
  have hderives := (exists_parse?_iff_derives hunit).1 ⟨program, hparse, rfl⟩
  have hreal : ∀ t ∈ kept ++ cut, t.kind ≠ .eof := by
    rw [← beforeEnd_tokensOf hunit]
    intro t ht
    simpa using List.all_eq_true.1 List.all_takeWhile t ht
  refine ⟨spans, htiles, ?_⟩
  rw [hfits, exists_parse?_iff_derives hline]
  exact Body.alike_iff halike hreal hderives

/-- A unit of several lines with a string and a comment, whose entry reads back. -/
def keptUnit : Text := "let twice = fn(x) \x7b\n  x + x\n\x7d;\ntwice(\"a b\") // done\n;"

theorem history_line_reads_back_iff_in_function :
    ∃ program, parse? keptUnit = .ok program ∧ keptUnit.isBlank = false ∧
      Repl.isCommand keptUnit = false ∧
      (∀ budget (r : Repl) events next, r.submit budget keptUnit = some (events, next) →
        ∃ rest, events = .history keptUnit.oneLine :: rest ∧ ∀ entry, .history entry ∉ rest) ∧
      Text.newline ∉ keptUnit.oneLine ∧
      ∃ spans, Tiles keptUnit 0 (scan keptUnit) spans ∧
        ((∃ q, parse? keptUnit.oneLine = .ok q ∧
            q.move (fun _ => .start) = program.move fun _ => .start) ↔
          FitsOneLine keptUnit 0 (scan keptUnit) spans) := by
  have hclean : (parse keptUnit).2 = [] := by decide +kernel
  have hparse := parse?_eq_ok_iff.2 (Prod.ext (rfl : (parse keptUnit).1 = _) hclean)
  have hblank : keptUnit.isBlank = false := by decide +kernel
  have hcommand : Repl.isCommand keptUnit = false := by decide +kernel
  exact ⟨_, hparse, hblank, hcommand,
    history_line_reads_back_iff keptUnit _ hparse hblank hcommand⟩

/-- A unit of two lines with a comment at the end of the first. -/
def lostUnit : Text := "let x = [1, // one\n2];"

/-- On one line the comment takes the rest of the unit, which is then no program. -/
theorem history_line_lost_to_comment :
    (∃ program, parse? lostUnit = .ok program) ∧ lostUnit.isBlank = false ∧
      Repl.isCommand lostUnit = false ∧
        lostUnit.oneLine = Text.ofString "let x = [1, // one 2];" ∧
          ∀ q, parse? lostUnit.oneLine ≠ .ok q := by
  have hclean : (parse lostUnit).2 = [] := by decide +kernel
  have herrors : (parse lostUnit.oneLine).2 ≠ [] := by decide +kernel
  refine ⟨⟨(parse lostUnit).1, parse?_eq_ok_iff.2 (Prod.ext rfl hclean)⟩, by decide +kernel,
    by decide +kernel, by decide +kernel, ?_⟩
  intro q hq
  rw [parse?_eq_ok_iff] at hq
  exact herrors (by rw [hq])

end MonkeyLang
