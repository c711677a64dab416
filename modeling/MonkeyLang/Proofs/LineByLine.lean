import MonkeyLang.Proofs.MovedScan

/-!
# Scanning line by line

A source that was read up to the end of a line is scanned no differently when more lines
come.  Its end token goes, and the tokens of the new lines follow, each as far to the right
as it stands in them and as many lines further down as there are lines before them.

Only a string literal left open does not stop at the end of a line.  It takes the newline
and what follows into itself, so nothing is said of the new lines then; but the tokens before
it are still the first ones.
-/

namespace MonkeyLang

namespace Position

/-- The place that many lines further down. -/
def down (lines : Nat) (p : Position) : Position := ⟨p.line + lines, p.column⟩

/-- Behind whole lines a place keeps its column. -/
theorem behind_zero (lines : Nat) : behind lines 0 = down lines := by
  funext p
  simp only [behind, down, Int.add_zero, ite_self]

end Position

/-- The token before the end is a string literal left open. -/
def endsOpen (tokens : List Token) : Bool := tokens.dropLast.getLast?.any Token.isUnterminated

/-- A string literal left open is the last token before the end. -/
theorem endsOpen_scan_iff {source : Text} :
    endsOpen (scan source) = true ↔ ∃ t ∈ scan source, t.isUnterminated = true := by
  constructor
  · intro h
    rw [endsOpen, Option.any_eq_true] at h
    obtain ⟨t, hlast, hopen⟩ := h
    exact ⟨t, List.dropLast_subset _ (List.mem_of_getLast? hlast), hopen⟩
  · intro h
    obtain ⟨shared, str, last, hscan, _, hstr, _⟩ := (Scanner.start source).drain_open h
    simp [endsOpen, scan, hscan, hstr]

/-- New lines below a source are scanned by themselves, and moved down. -/
theorem scan_newline_of_closed {a : Text} (h : endsOpen (scan a) = false) (b : Text) :
    scan (a ++ Text.newline :: b) =
      (scan a).dropLast ++
        (scan b).map (Token.move (Position.down (1 + a.count Text.newline))) := by
  have hclosed : ∀ t ∈ scan a, t.isUnterminated = false := by
    intro t ht
    refine Bool.eq_false_iff.2 fun hopen => ?_
    rw [endsOpen_scan_iff.2 ⟨t, ht, hopen⟩] at h
    cases h
  obtain ⟨shared, last, hscan, _, _, hwhole⟩ := (Scanner.start a).drain_closed hclosed
  have hfirst : (scan a).dropLast = shared := by simp [scan, hscan]
  have hlines : (a.count Text.newline + 2 - 1 : Int) = (1 + a.count Text.newline : Nat) := by
    omega
  have hcolumns : (1 - 1 : Int) = 0 := rfl
  change ((Scanner.start a).goingOn b).drain.1 = _
  rw [hwhole, hfirst, Scanner.drain_mk, Scanner.nextLine_start, hlines, hcolumns,
    Position.behind_zero]

/-- What stands before a string literal left open stays. -/
theorem scan_newline_of_open {a : Text} (h : endsOpen (scan a) = true) (b : Text) :
    (scan a).dropLast.dropLast <+: scan (a ++ Text.newline :: b) := by
  obtain ⟨shared, str, last, hscan, _, _, _, hwhole, _⟩ :=
    (Scanner.start a).drain_open (endsOpen_scan_iff.1 h)
  obtain ⟨quoted, after, _, hrest⟩ := hwhole b
  have hfirst : (scan a).dropLast.dropLast = shared := by simp [scan, hscan]
  rw [hfirst]
  exact ⟨quoted :: after.drain.1, hrest.symm⟩

/-- **Scanning composes at the ends of lines.**  The last token of a source is its end.
Unless the token before it is a string literal left open, the source with more text on
lines of their own below it has the same tokens without that end, and then the tokens of
this text, each moved down by the lines above and kept in its column.  If it is one, the
tokens before the literal are still the first. -/
theorem scan_composes_at_newline (a b : Text) :
    (∃ last, scan a = (scan a).dropLast ++ [last] ∧ last.kind = .eof) ∧
    (endsOpen (scan a) = false →
      scan (a ++ Text.newline :: b) =
        (scan a).dropLast ++
          (scan b).map (Token.move (Position.down (1 + a.count Text.newline)))) ∧
    (endsOpen (scan a) = true →
      (scan a).dropLast.dropLast <+: scan (a ++ Text.newline :: b)) := by
  refine ⟨?_, fun h => scan_newline_of_closed h b, fun h => scan_newline_of_open h b⟩
  obtain ⟨tokens, last, hscan, hlast⟩ := (Scanner.start a).drain_eq_concat
  exact ⟨last, by simp [scan, hscan], hlast⟩

/-- A source with two lines: a string literal that holds a newline and an escaped quote,
and a comment up to the end with a quote of its own. -/
def notedSource : Text := "say(\"a\n\\\"\") + x1 // \"note"

/-- A call cut within its second string literal, right behind a backslash. -/
def brokenCall : Text := "f(\"x\",\n \"a\\"

/-- A string literal over two lines; its first quote would close one left open before it. -/
def furtherSource : Text := "\"y\n  !z\""

theorem scan_composes_at_newline_behind_comment :
    (endsOpen (scan notedSource) = false ∧
      scan (notedSource ++ Text.newline :: furtherSource) =
        (scan notedSource).dropLast ++
          (scan furtherSource).map (Token.move (Position.down 2))) ∧
    endsOpen (scan brokenCall) = true ∧
      (scan brokenCall).dropLast.dropLast.map Token.kind = [.ident, .lparen, .string, .comma] ∧
      (scan brokenCall).dropLast.dropLast <+:
        scan (brokenCall ++ Text.newline :: furtherSource) := by
  have hclosed : endsOpen (scan notedSource) = false := by decide +kernel
  have hopen : endsOpen (scan brokenCall) = true := by decide +kernel
  exact ⟨⟨hclosed, (scan_composes_at_newline notedSource furtherSource).2.1 hclosed⟩, hopen,
    by decide +kernel, (scan_composes_at_newline brokenCall furtherSource).2.2 hopen⟩

end MonkeyLang
