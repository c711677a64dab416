import MonkeyLang.Proofs.Carets
import MonkeyLang.Proofs.ViablePrefix

/-!
# Joined errors

The errors of a source are handed on as one text: their messages joined by newlines, or
their snippets joined by newlines.  Messages quote pieces of the source, and those may
hold any bytes, newlines and broken characters among them.  A quoted text stands on one
line all the same, so every message does (`Fault.newline_not_mem_message`), and the joined
texts fall apart at their newlines into the messages and the rows they were made of.
-/

namespace MonkeyLang

/-! ## Messages on one line -/

namespace Text

theorem newline_ne_ofNat {n : Nat} (hn : n < 256) (h : n ≠ 10) : newline ≠ UInt8.ofNat n := by
  intro heq
  have hcode : (UInt8.ofNat n).toNat = 10 := by rw [← heq]; rfl
  rw [UInt8.toNat_ofNat_of_lt' hn] at hcode
  exact h hcode

/-- Only the newline has the byte of the newline among its own. -/
theorem newline_not_mem_utf8 {c : Char} (h : c.toNat ≠ 10) :
    newline ∉ String.utf8EncodeChar c := by
  intro hmem
  rw [String.utf8EncodeChar.eq_1] at hmem
  have hcode : c.val.toNat ≠ 10 := h
  generalize c.val.toNat = code at hmem hcode
  split at hmem
  · exact newline_ne_ofNat (by omega) hcode (List.mem_singleton.1 hmem)
  · -- the bytes of a longer spelling are all 128 or more
    split at hmem
    · simp only [List.mem_cons, List.not_mem_nil, or_false] at hmem
      rcases hmem with h | h <;> exact newline_ne_ofNat (by omega) (by omega) h
    · split at hmem
      · simp only [List.mem_cons, List.not_mem_nil, or_false] at hmem
        rcases hmem with h | h | h <;> exact newline_ne_ofNat (by omega) (by omega) h
      · simp only [List.mem_cons, List.not_mem_nil, or_false] at hmem
        rcases hmem with h | h | h | h <;> exact newline_ne_ofNat (by omega) (by omega) h

theorem newline_not_mem_hex (width n : Nat) : newline ∉ hex width n := by
  induction width generalizing n with
  | zero => exact List.not_mem_nil
  | succ width ih =>
      have hdigit : ∀ d < 16, newline ≠ hexDigit d := by decide
      have hlast := hdigit (n % 16) (Nat.mod_lt n (by decide))
      simp only [hex, List.mem_append, List.mem_singleton, ih (n / 16), hlast, or_self,
        not_false_eq_true]

theorem newline_not_mem_ofNat (n : Nat) : newline ∉ ofNat n := fun hmem =>
  absurd (isDigit_of_mem_ofNat n newline hmem) (by decide)

theorem newline_not_mem_ofInt (n : Int) : newline ∉ ofInt n := by
  have hminus : newline ≠ '-'.toUInt8 := by decide
  cases n with
  | ofNat n => exact newline_not_mem_ofNat n
  | negSucc n => simp [ofInt, hminus, newline_not_mem_ofNat]

end Text

/-- Characters below the space are not shown as they are. -/
theorem toNat_of_isPrintable {c : Char} (h : isPrintable c = true) : 0x20 ≤ c.toNat := by
  have hlow : (printableRanges.all fun range => decide (0x20 ≤ range.1)) = true := by
    decide +kernel
  obtain ⟨range, hrange, hin⟩ := List.any_eq_true.1 h
  have hfirst := of_decide_eq_true (List.all_eq_true.1 hlow range hrange)
  rw [Bool.and_eq_true] at hin
  exact Nat.le_trans hfirst (of_decide_eq_true hin.1)

/-- A letter that stands for a control character is a letter. -/
theorem Symbol.newline_ne_of_controlLetter? {c letter : Char}
    (h : controlLetter? c = some letter) : Text.newline ≠ letter.toUInt8 := by
  unfold controlLetter? at h
  split at h <;> cases h <;> decide

/-- A quoted symbol stands on one line, whatever its bytes. -/
theorem Symbol.newline_not_mem_quoted (symbol : Symbol) :
    Text.newline ∉ symbol.quoted '"' := by
  have hhex := Text.newline_not_mem_hex
  cases symbol with
  | stray b =>
      have hmark : Text.newline ∉ Text.ofString "\\x" := by decide
      simp only [quoted, List.mem_append, hmark, hhex, or_self, not_false_eq_true]
  | char c =>
      have hback : Text.newline ≠ '\\'.toUInt8 := by decide
      rw [quoted]
      split
      · next hquote =>
          have hc : Text.newline ≠ c.toUInt8 := by
            rw [Bool.or_eq_true, decide_eq_true_eq, decide_eq_true_eq] at hquote
            rcases hquote with rfl | rfl <;> decide
          simp [hback, hc]
      · split
        · next hprint =>
            have hlow := toNat_of_isPrintable hprint
            exact Text.newline_not_mem_utf8 (by omega)
        · split
          · next letter hletter => simp [hback, newline_ne_of_controlLetter? hletter]
          · have hshort : Text.newline ∉ Text.ofString "\\x" := by decide
            have hmiddle : Text.newline ∉ Text.ofString "\\u" := by decide
            have hlong : Text.newline ∉ Text.ofString "\\U" := by decide
            split
            · simp only [List.mem_append, hshort, hhex, or_self, not_false_eq_true]
            · split <;>
                simp only [List.mem_append, hmiddle, hlong, hhex, or_self, not_false_eq_true]

/-- **A quoted text stands on one line.** -/
theorem Text.newline_not_mem_quoted (text : Text) : newline ∉ text.quoted := by
  have hquote : newline ≠ '"'.toUInt8 := by decide
  have hsymbols : newline ∉ text.symbols.flatMap (Symbol.quoted '"') := by
    rw [List.mem_flatMap]
    rintro ⟨symbol, _, hmem⟩
    exact symbol.newline_not_mem_quoted hmem
  simp [quoted, hquote, hsymbols]

/-- The name of a kind stands on one line. -/
theorem Kind.newline_not_mem_name (kind : Kind) : Text.newline ∉ kind.name := by
  cases kind with
  | unlisted code =>
      have hbefore : Text.newline ∉ Text.ofString "TokenType(" := by decide
      have hbehind : Text.newline ∉ Text.ofString ")" := by decide
      simp only [name, List.mem_append, hbefore, hbehind, Text.newline_not_mem_ofInt, or_self,
        not_false_eq_true]
  | _ => decide

/-- **A message stands on one line**, whatever piece of source it quotes. -/
theorem Fault.newline_not_mem_message (fault : Fault) : Text.newline ∉ fault.message := by
  have hname := Kind.newline_not_mem_name
  have hquoted := Text.newline_not_mem_quoted
  cases fault with
  | expected wanted found =>
      have hwords : Text.newline ∉ Text.ofString "expected next token to be " ∧
          Text.newline ∉ Text.ofString ", got " ∧ Text.newline ∉ Text.ofString " instead" := by
        decide
      simp only [message, List.mem_append, hwords, hname, or_self, not_false_eq_true]
  | noOperand found =>
      have hwords : Text.newline ∉ Text.ofString "no prefix parse function for " ∧
          Text.newline ∉ Text.ofString " found" := by
        decide
      simp only [message, List.mem_append, hwords, hname, or_self, not_false_eq_true]
  | badInteger literal =>
      have hwords : Text.newline ∉ Text.ofString "could not parse " ∧
          Text.newline ∉ Text.ofString " as integer" := by
        decide
      simp only [message, List.mem_append, hwords, hquoted, or_self, not_false_eq_true]
  | illegal literal =>
      have hwords : Text.newline ∉ Text.ofString "illegal token " := by decide
      simp only [message, List.mem_append, hwords, hquoted, or_self, not_false_eq_true]

/-! ## Joined texts and their lines -/

namespace Text

/-- The lines of joined texts are those of each text in turn. -/
theorem lines_joined {texts : List Text} (h : texts ≠ []) :
    lines (joined "\n" texts) = texts.flatMap lines := by
  induction texts with
  | nil => exact absurd rfl h
  | cons text texts ih =>
      cases texts with
      | nil => simp [joined]
      | cons next texts =>
          have hjoined : joined "\n" (text :: next :: texts) =
              text ++ newline :: joined "\n" (next :: texts) := by
            simp [joined, List.intercalate]
            rfl
          rw [List.flatMap_cons, hjoined, lines_append_newline, ih (by simp)]

/-- Lines that are joined fall apart again. -/
theorem lines_joined_of_lines {texts : List Text} (h : texts ≠ [])
    (hlines : ∀ text ∈ texts, newline ∉ text) : lines (joined "\n" texts) = texts := by
  rw [lines_joined h]
  calc texts.flatMap lines = texts.flatMap fun text => [text] :=
        List.flatMap_congr fun text htext => lines_of_line (hlines text htext)
    _ = texts := List.flatMap_singleton' texts

/-- A line of a text holds no newline. -/
theorem newline_not_mem_line {text line : Text} (h : line ∈ lines text) : newline ∉ line := by
  induction text generalizing line with
  | nil =>
      rw [List.mem_singleton.1 h]
      exact List.not_mem_nil
  | cons b text ih =>
      by_cases hb : b = newline
      · rw [hb, lines_newline, List.mem_cons] at h
        rcases h with rfl | h
        · exact List.not_mem_nil
        · exact ih h
      · obtain ⟨first, more, hlines⟩ := List.exists_cons_of_ne_nil (lines_ne_nil text)
        rw [lines_cons hb hlines, List.mem_cons] at h
        rcases h with rfl | h
        · have hfirst : newline ∉ first := ih (by simp [hlines])
          simp [Ne.symm hb, hfirst]
        · exact ih (by simp [hlines, h])

end Text

/-! ## Snippets and their rows -/

namespace Note

/-- The rows of a snippet: header, blank line, source line, caret line.  The header ends
with the message, and the source line is the one the note is shown at. -/
def HasRows (source name : Text) (note : Note) (rows : List Text) : Prop :=
  ∃ line column text header, note.Shows source name line column text ∧
    header = heading name note.message line column ∧ note.message <:+ header ∧
    rows = [header, [], gutter line ++ text, caretRow column]

theorem newline_not_mem_heading {name message : Text} (hname : Text.newline ∉ name)
    (hmessage : Text.newline ∉ message) (line column : Nat) :
    Text.newline ∉ heading name message line column := by
  have hwords : Text.newline ∉ Text.ofString "PARSE ERROR" ∧
      Text.newline ∉ Text.ofString " in " ∧ Text.newline ∉ Text.ofString " at " ∧
      Text.newline ∉ Text.ofString ":" ∧ Text.newline ∉ Text.ofString ": " := by
    decide
  have hplace : Text.newline ∉ if name.isEmpty then [] else Text.ofString " in " ++ name := by
    split <;> simp [hwords, hname]
  simp only [heading, List.mem_append, hwords, hplace, hmessage, Text.newline_not_mem_ofNat,
    or_self, not_false_eq_true]

theorem newline_not_mem_gutter (line : Nat) : Text.newline ∉ gutter line := by
  have hbar : Text.newline ∉ Text.ofString " | " := by decide
  have hspaces : Text.newline ∉ List.replicate (4 - (Text.ofNat line).length) ' '.toUInt8 :=
    fun hmem => absurd (List.eq_of_mem_replicate hmem) (by decide)
  simp only [gutter, lineLabel, List.mem_append, hbar, hspaces, Text.newline_not_mem_ofNat,
    or_self, not_false_eq_true]

theorem newline_not_mem_caretRow (column : Nat) : Text.newline ∉ caretRow column := by
  have hbar : Text.newline ∉ Text.ofString "     | " := by decide
  have hcaret : Text.newline ∉ [caret] := by decide
  have hspaces : Text.newline ∉ List.replicate (column - 1) ' '.toUInt8 :=
    fun hmem => absurd (List.eq_of_mem_replicate hmem) (by decide)
  simp only [caretRow, List.mem_append, hbar, hspaces, hcaret, or_self, not_false_eq_true]

/-- A snippet is its four rows, each ended by a newline. -/
theorem exists_rows (source : Text) {name : Text} {note : Note} (hname : Text.newline ∉ name)
    (hmessage : Text.newline ∉ note.message) :
    ∃ rows, note.HasRows source name rows ∧
      Text.lines (note.snippet source name) = rows ++ [[]] := by
  obtain ⟨line, column, text, hshows⟩ := exists_shows source name note
  refine ⟨_, ⟨line, column, text, _, hshows, rfl, List.suffix_append _ _, rfl⟩, ?_⟩
  have hheading := newline_not_mem_heading hname hmessage line column
  have htext : Text.newline ∉ gutter line ++ text := by
    have hline := Text.newline_not_mem_line (List.mem_of_getElem? hshows.text_eq)
    simp [newline_not_mem_gutter, hline]
  have hsnippet : note.snippet source name = heading name note.message line column ++
      Text.newline :: ([] ++ Text.newline :: (gutter line ++ text ++
        Text.newline :: (caretRow column ++ Text.newline :: []))) := by
    have hbreaks : Text.ofString "\n\n" = [Text.newline, Text.newline] := by decide
    have hbreak : Text.ofString "\n" = [Text.newline] := by decide
    rw [hshows.snippet_eq, hbreaks, hbreak]
    simp only [List.append_assoc, List.cons_append, List.nil_append]
  have hend : Text.lines [] = [[]] := rfl
  rw [hsnippet]
  simp only [Text.lines_append_newline, Text.lines_newline, Text.lines_of_line hheading,
    Text.lines_of_line htext, Text.lines_of_line (newline_not_mem_caretRow column), hend,
    List.cons_append, List.nil_append]

/-- The snippets of a report stand in a row, one blank line between neighbours. -/
theorem exists_blocks (source : Text) {name : Text} (hname : Text.newline ∉ name)
    {notes : List Note} (hnotes : notes ≠ [])
    (hmessages : ∀ note ∈ notes, Text.newline ∉ note.message) :
    ∃ blocks, List.Forall₂ (HasRows source name) notes blocks ∧
      Text.lines (report source name notes) = List.intercalate [[]] blocks ++ [[]] := by
  have hlines : Text.lines (report source name notes) =
      notes.flatMap fun note => Text.lines (note.snippet source name) := by
    rw [report, Text.lines_joined (by simpa using hnotes), List.flatMap_map]
  rw [hlines]
  clear hlines
  induction notes with
  | nil => exact absurd rfl hnotes
  | cons note notes ih =>
      obtain ⟨rows, hrows, hfirst⟩ := exists_rows source hname (hmessages note (by simp))
      cases notes with
      | nil =>
          refine ⟨[rows], .cons hrows .nil, ?_⟩
          simp [hfirst, List.intercalate]
      | cons next notes =>
          obtain ⟨blocks, hblocks, hrest⟩ := ih (by simp) fun other hother =>
            hmessages other (List.mem_cons_of_mem note hother)
          refine ⟨rows :: blocks, .cons hrows hblocks, ?_⟩
          rw [List.flatMap_cons, hrest, hfirst]
          cases hblocks
          simp [List.intercalate]

end Note

/-- **Errors survive joining.**  A source that is no program has errors, and the message of
each stands on one line.  So the lines of the summary are the messages, one for each error
in their order.  Under a name without newlines the report falls apart into as many snippets
as there are errors: header, blank line, source line and caret line of one error after
the other, one blank line between neighbours and a newline at the end. -/
theorem errors_survive_joining {source : Text} {errors : List SyntaxError}
    (hparse : parse? source = .error errors) :
    errors ≠ [] ∧ (∀ e ∈ errors, Text.newline ∉ e.message) ∧
      Text.lines (SyntaxError.summary errors) = errors.map SyntaxError.message ∧
      ∀ name : Text, Text.newline ∉ name →
        ∃ blocks, List.Forall₂ (fun e rows => e.note.HasRows source name rows) errors blocks ∧
          Text.lines (SyntaxError.report source name errors) =
            List.intercalate [[]] blocks ++ [[]] := by
  have hne : errors ≠ [] := (parse?_eq_error_iff.1 hparse).2
  have hline : ∀ e ∈ errors, Text.newline ∉ e.message := fun e _ =>
    e.fault.newline_not_mem_message
  refine ⟨hne, hline, ?_, fun name hname => ?_⟩
  · have hmessages : (errors.map SyntaxError.note).map Note.message =
        errors.map SyntaxError.message := by
      rw [List.map_map]
      rfl
    rw [SyntaxError.summary, Note.summary, hmessages]
    exact Text.lines_joined_of_lines (by simpa using hne) (by simpa using hline)
  · have hnotes : ∀ note ∈ errors.map SyntaxError.note, Text.newline ∉ note.message := by
      rintro _ hmem
      obtain ⟨e, he, rfl⟩ := List.mem_map.1 hmem
      exact hline e he
    obtain ⟨blocks, hblocks, hlines⟩ :=
      Note.exists_blocks source hname (by simpa using hne) hnotes
    exact ⟨blocks, List.forall₂_map_left_iff.1 hblocks, hlines⟩

/-- A binding without a name, and below it a string literal left open that goes on over a
newline to a control and a byte that is part of no character. -/
def tornSource : Text := Text.ofString "let 5;\n\"a\nb\x01" ++ [0xFF]

theorem errors_survive_joining_in_torn_source :
    ∃ errors, parse? tornSource = .error errors ∧
      Text.lines (SyntaxError.summary errors) =
        [Text.ofString "expected next token to be IDENT, got INT instead",
          Text.ofString "illegal token \"\\\"a\\nb\\x01\\xff\""] ∧
      ∃ blocks, blocks.length = 2 ∧
        List.Forall₂ (fun e rows => e.note.HasRows tornSource "torn" rows) errors blocks ∧
        Text.lines (SyntaxError.report tornSource "torn" errors) =
          List.intercalate [[]] blocks ++ [[]] := by
  have hcount : (parse tornSource).2.length = 2 := by decide +kernel
  have hmessages : (parse tornSource).2.map SyntaxError.message =
      [Text.ofString "expected next token to be IDENT, got INT instead",
        Text.ofString "illegal token \"\\\"a\\nb\\x01\\xff\""] := by decide +kernel
  have hparse : parse? tornSource = .error (parse tornSource).2 :=
    parse?_eq_error_iff.2 ⟨rfl, List.ne_nil_of_length_pos (by omega)⟩
  obtain ⟨_, _, hlines, hreport⟩ := errors_survive_joining hparse
  obtain ⟨blocks, hblocks, hrows⟩ := hreport "torn" (by decide)
  exact ⟨_, hparse, hlines.trans hmessages, blocks, hblocks.length_eq ▸ hcount, hblocks, hrows⟩

end MonkeyLang
