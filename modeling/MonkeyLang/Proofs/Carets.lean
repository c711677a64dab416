import Mathlib.Algebra.Group.Nat.Defs
import MonkeyLang.Proofs.ErrorOrder
import MonkeyLang.Proofs.Lines
import MonkeyLang.Proofs.Numerals
import MonkeyLang.Proofs.Respelling
import MonkeyLang.Parse.Fault

/-!
# Carets

A report shows a line of the source behind a gutter with its number, and a caret in the
row below.  Whatever place a note names, the line and the column shown lie in the source
(`Note.exists_shows`).  Errors of a source blame one of its tokens, so their places need
no moving: the line shown is the one the token starts on, and the column is that of its
first byte.

The gutter of a line is as wide as its number needs, four places at least; the gutter of
the caret always has room for four.  So the caret stands below the first byte exactly
on the lines whose number has four digits or fewer, and further left on all others.
-/

namespace MonkeyLang

/-! ## Rows -/

namespace Note

/-- The first row of a snippet. -/
def heading (name message : Text) (line column : Nat) : Text :=
  Text.ofString "PARSE ERROR" ++ (if name.isEmpty then [] else Text.ofString " in " ++ name) ++
    Text.ofString " at " ++ Text.ofNat line ++ Text.ofString ":" ++ Text.ofNat column ++
    Text.ofString ": " ++ message

/-- What stands before the text of a line. -/
def gutter (line : Nat) : Text := lineLabel line ++ Text.ofString " | "

def caret : UInt8 := '^'.toUInt8

/-- The row below the text, up to its caret. -/
def caretRow (column : Nat) : Text :=
  Text.ofString "     | " ++ List.replicate (column - 1) ' '.toUInt8 ++ [caret]

/-- The note is shown at a line of the source and a column of that line, or the column
behind it: those nearest to the place it names. -/
structure Shows (source name : Text) (note : Note) (line column : Nat) (text : Text) : Prop where
  line_eq : line = clamp note.line source.lines.length
  line_pos : 1 ≤ line
  line_le : line ≤ source.lines.length
  text_eq : source.lines[line - 1]? = some text
  column_eq : column = clamp note.column (text.length + 1)
  column_pos : 1 ≤ column
  column_le : column ≤ text.length + 1
  snippet_eq : note.snippet source name =
    heading name note.message line column ++ Text.ofString "\n\n" ++
      (gutter line ++ text) ++ Text.ofString "\n" ++ caretRow column ++ Text.ofString "\n"

theorem one_le_clamp (n : Int) {most : Nat} (h : 1 ≤ most) : 1 ≤ clamp n most := by
  simp only [clamp]
  omega

theorem clamp_le (n : Int) (most : Nat) : clamp n most ≤ most :=
  Nat.min_le_right _ _

/-- A number in its range stays. -/
theorem clamp_of_mem {n most : Nat} (hpos : 1 ≤ n) (hle : n ≤ most) : clamp n most = n := by
  simp only [clamp]
  omega

/-- **Every note is shown inside the source**, whatever place it names. -/
theorem exists_shows (source name : Text) (note : Note) :
    ∃ line column text, note.Shows source name line column text := by
  have hlines : 1 ≤ source.lines.length := by
    rw [Text.length_lines]
    omega
  have hpos := one_le_clamp note.line hlines
  have hle := clamp_le note.line source.lines.length
  obtain ⟨text, htext⟩ : ∃ text,
      source.lines[clamp note.line source.lines.length - 1]? = some text :=
    ⟨_, List.getElem?_eq_getElem (by omega)⟩
  refine ⟨_, _, text, rfl, hpos, hle, htext, rfl, one_le_clamp _ (by omega), clamp_le _ _, ?_⟩
  have hgetD : source.lines.getD (clamp note.line source.lines.length - 1) [] = text := by
    rw [List.getD_eq_getElem?_getD, htext]
    rfl
  have hbreak : Text.ofString "\n     | " = Text.ofString "\n" ++ Text.ofString "     | " := by
    decide
  have hcaret : Text.ofString "^\n" = [caret] ++ Text.ofString "\n" := by decide
  simp only [snippet, heading, gutter, caretRow, hgetD, hbreak, hcaret, List.append_assoc]

/-- A note that names a place inside the source is shown there. -/
theorem shows_of_place {source name text : Text} {note : Note} {line column : Nat}
    (hline : note.line = line) (hpos : 1 ≤ line) (htext : source.lines[line - 1]? = some text)
    (hcolumn : note.column = column) (hfirst : 1 ≤ column) (hlast : column ≤ text.length + 1) :
    note.Shows source name line column text := by
  obtain ⟨line', column', text', hshows⟩ := exists_shows source name note
  have hbound := (List.getElem?_eq_some_iff.1 htext).1
  obtain rfl : line' = line := by
    rw [hshows.line_eq, hline, clamp_of_mem hpos (by omega)]
  obtain rfl : text' = text := Option.some.inj (hshows.text_eq.symm.trans htext)
  obtain rfl : column' = column := by
    rw [hshows.column_eq, hcolumn, clamp_of_mem hfirst hlast]
  exact hshows

end Note

/-! ## Where the caret stands -/

/-- The numbers below a power of ten are those with no more digits than its exponent. -/
theorem Text.length_ofNat_le_iff (n k : Nat) : (ofNat n).length ≤ k + 1 ↔ n < 10 ^ (k + 1) := by
  induction k generalizing n with
  | zero =>
      by_cases hn : n < 10
      · rw [ofNat, if_pos hn]
        simpa using hn
      · have hdigits := List.length_pos_iff.2 (ofNat_ne_nil (n / 10))
        rw [ofNat, if_neg hn, List.length_append, List.length_singleton]
        omega
  | succ k ih =>
      by_cases hn : n < 10
      · have hpow : 10 ≤ 10 ^ (k + 1 + 1) := Nat.le_self_pow (by omega) 10
        rw [ofNat, if_pos hn, List.length_singleton]
        omega
      · rw [ofNat, if_neg hn, List.length_append, List.length_singleton,
          Nat.add_le_add_iff_right, ih, Nat.div_lt_iff_lt_mul (by decide), ← Nat.pow_succ]

namespace Note

theorem length_gutter (line : Nat) :
    (gutter line).length = max 4 (Text.ofNat line).length + 3 := by
  have hbar : (Text.ofString " | ").length = 3 := rfl
  simp only [gutter, lineLabel, List.length_append, List.length_replicate, hbar]
  omega

/-- The first caret of the row is its last byte. -/
theorem idxOf_caretRow (column : Nat) : (caretRow column).idxOf caret = 7 + (column - 1) := by
  have hgutter : caret ∉ Text.ofString "     | " := by decide
  have hspaces : caret ∉ List.replicate (column - 1) ' '.toUInt8 := fun hmem =>
    absurd (List.eq_of_mem_replicate hmem) (by decide)
  have hbefore : caret ∉ Text.ofString "     | " ++ List.replicate (column - 1) ' '.toUInt8 := by
    simp only [List.mem_append, hgutter, hspaces, or_self, not_false_eq_true]
  have hlength : (Text.ofString "     | ").length = 7 := rfl
  rw [caretRow, List.idxOf_append, if_neg hbefore, List.idxOf_cons_self]
  simp [hlength]

/-- **A caret stands below the byte behind the front of a line** exactly when the number
of the line fits in the gutter. -/
theorem caret_below_iff (line : Nat) (front : Text) :
    (caretRow (front.length + 1)).idxOf caret = (gutter line ++ front).length ↔
      line < 10000 := by
  have hdigits := Text.length_ofNat_le_iff line 3
  rw [idxOf_caretRow, List.length_append, length_gutter]
  omega

end Note

/-! ## Places of errors -/

/-- In a tiling every token has a span and stands at its start. -/
theorem Tiles.exists_span {source : Text} {done : Nat} {tokens : List Token} {spans : List Span}
    (h : Tiles source done tokens spans) {t : Token} (ht : t ∈ tokens) :
    ∃ s, (t, s) ∈ tokens.zip spans ∧ s.start ≤ source.length ∧
      t.position = Text.endPlace (source.take s.start) := by
  obtain ⟨s, hspan, _, hstart⟩ := h.exists_span_behind ht
  exact ⟨s, hspan, hstart⟩

/-- An error is shown on the line its token starts on, at the column of its first byte. -/
theorem SyntaxError.shows_of_lineAt {source front back : Text} {e : SyntaxError} {start : Nat}
    (hplace : e.token.position = Text.endPlace (source.take start))
    (hline : source.LineAt start front back) (name : Text) :
    ∃ line : Nat, e.note.line = line ∧ e.note.column = (front.length + 1 : Nat) ∧
      e.note.Shows source name line (front.length + 1) (front ++ back) := by
  have hnumber : e.note.line = (1 + (source.take start).count Text.newline : Nat) := by
    simp [SyntaxError.note, hplace, Text.endPlace]
  have hcolumn : e.note.column = (front.length + 1 : Nat) := by
    have h := hline.column_eq
    simp only [SyntaxError.note, hplace, h]
    omega
  refine ⟨_, hnumber, hcolumn, ?_⟩
  refine Note.shows_of_place hnumber (by omega) ?_ hcolumn (by omega) ?_
  · rw [Nat.add_sub_cancel_left]
    exact hline.getElem?_lines
  · rw [List.length_append]
    omega

/-- **Carets point at the token that is blamed.**  Every error of a source is shown at the
place it names, which is where one of the tokens starts: on the line around the first
byte of the token, with the caret in its column.  The caret stands below that byte exactly
when the number of the line is below ten thousand.  A note that names any other place
is shown inside the source all the same. -/
theorem caret_under_token_iff (source name : Text) :
    (∀ e ∈ (parse source).2, ∃ spans s line front back,
      Tiles source 0 (scan source) spans ∧ (e.token, s) ∈ (scan source).zip spans ∧
        source.LineAt s.start front back ∧
        e.note.line = (line : Nat) ∧ e.note.column = (front.length + 1 : Nat) ∧
        e.note.Shows source name line (front.length + 1) (front ++ back) ∧
        ((Note.caretRow (front.length + 1)).idxOf Note.caret =
          (Note.gutter line ++ front).length ↔ line < 10000)) ∧
      ∀ note : Note, ∃ line column text, note.Shows source name line column text := by
  refine ⟨fun e he => ?_, Note.exists_shows source name⟩
  obtain ⟨spans, htiles⟩ := exists_tiles source
  obtain ⟨s, hspan, hstart, hplace⟩ := htiles.exists_span (token_mem_scan he)
  obtain ⟨front, back, hline⟩ := Text.exists_lineAt hstart
  obtain ⟨line, hnumber, hcolumn, hshows⟩ := SyntaxError.shows_of_lineAt hplace hline name
  exact ⟨spans, s, line, front, back, htiles, hspan, hline, hnumber, hcolumn, hshows,
    Note.caret_below_iff line front⟩

/-- A string literal that is left open on the second line, where a name must stand. -/
def brokenLet : Text := Text.ofString "1; // one\n\tlet \"two\nthree"

theorem caret_under_token_iff_in_let :
    ∃ e ∈ (parse brokenLet).2, e.fault = .expected .ident .illegal ∧ e.token.position = ⟨2, 6⟩ ∧
      ∃ spans s line front back,
        Tiles brokenLet 0 (scan brokenLet) spans ∧ (e.token, s) ∈ (scan brokenLet).zip spans ∧
          brokenLet.LineAt s.start front back ∧
          e.note.line = (line : Nat) ∧ e.note.column = (front.length + 1 : Nat) ∧
          e.note.Shows brokenLet [] line (front.length + 1) (front ++ back) ∧
          ((Note.caretRow (front.length + 1)).idxOf Note.caret =
            (Note.gutter line ++ front).length ↔ line < 10000) := by
  have hmem : ∃ e ∈ (parse brokenLet).2,
      e.fault = .expected .ident .illegal ∧ e.token.position = ⟨2, 6⟩ := by decide +kernel
  obtain ⟨e, he, hfault, hplace⟩ := hmem
  exact ⟨e, he, hfault, hplace, (caret_under_token_iff brokenLet []).1 e he⟩

/-! ## A line too far -/

/-- A closing parenthesis below empty lines. -/
def parenBelow (count : Nat) : Text := List.replicate count Text.newline ++ [')'.toUInt8]

/-- No expression starts with the parenthesis. -/
def parenError (count : Nat) : SyntaxError :=
  ⟨.noOperand .rparen, ⟨.rparen, [')'.toUInt8], ⟨1 + count, 1⟩⟩⟩

theorem gap_newlines (count : Nat) : Gap false (List.replicate count Text.newline) := by
  induction count with
  | zero => exact .nil
  | succ count ih => exact .space (by decide) ih

theorem endPlace_newlines (count : Nat) :
    Text.endPlace (List.replicate count Text.newline) = ⟨1 + count, 1⟩ := by
  simp [Text.endPlace]

theorem errors_parenBelow (count : Nat) : (parse (parenBelow count)).2 = [parenError count] := by
  have hplace : Position.start.after (List.replicate count Text.newline) = ⟨1 + count, 1⟩ := by
    rw [← endPlace_newlines]
    exact (Text.endPlace_append [] _).symm
  have hscan : scan (parenBelow count) =
      [(parenError count).token, ⟨.eof, [], ⟨1 + count, 2⟩⟩] := by
    have hparen : (Scanner.mk [')'.toUInt8] ⟨1 + count, 1⟩).next =
        ((parenError count).token, ⟨[], ⟨1 + count, 2⟩⟩) := rfl
    rw [parenBelow, scan_append_of_gap (gap_newlines count), hplace,
      Scanner.drain_of_token (by simp [hparen, parenError]), hparen, Scanner.drain_of_end rfl]
    rfl
  rw [parse, hscan]
  rfl

theorem lineAt_parenBelow (count : Nat) : (parenBelow count).LineAt count [] [')'.toUInt8] := by
  refine ⟨⟨List.replicate count Text.newline, [], ?_, ?_, ?_, Or.inl rfl⟩, by decide⟩
  · simp [parenBelow]
  · simp
  · cases count with
    | zero => exact Or.inl rfl
    | succ count => simp [List.getLast?_replicate]

/-- **A caret can miss its token.**  On line ten thousand it stands below the space
before it. -/
theorem far_caret_is_off :
    (parse (parenBelow 9999)).2 = [parenError 9999] ∧
      (parenError 9999).note.Shows (parenBelow 9999) [] 10000 1 [')'.toUInt8] ∧
      Note.gutter 10000 ++ [')'.toUInt8] = Text.ofString "10000 | )" ∧
      Note.caretRow 1 = Text.ofString "     | ^" ∧
      (Note.caretRow 1).idxOf Note.caret ≠ (Note.gutter 10000).length := by
  have hplace : (parenError 9999).token.position =
      Text.endPlace ((parenBelow 9999).take 9999) := by
    rw [parenBelow, List.take_left' (List.length_replicate ..), endPlace_newlines]
    rfl
  obtain ⟨line, hline, _, hshows⟩ :=
    SyntaxError.shows_of_lineAt hplace (lineAt_parenBelow 9999) []
  obtain rfl : line = 10000 := by
    have hnumber : (parenError 9999).note.line = 10000 := rfl
    omega
  refine ⟨errors_parenBelow 9999, hshows, by decide +kernel, by decide, ?_⟩
  exact fun h => absurd ((Note.caret_below_iff 10000 []).1 (by simpa using h)) (by decide)

end MonkeyLang
