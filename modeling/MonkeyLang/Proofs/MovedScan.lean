import MonkeyLang.Proofs.ContinuedScan
import MonkeyLang.Proofs.MovedReading

/-!
# Scanning from another place

What a scanner reads does not depend on where it stands; only the places of its tokens
do.  A text that stands behind another one has its lines behind the lines of the other,
and its first line behind what the other has on its last one.  `Position.behind` moves
places so, and `Scanner.drain_behind` says that the tokens are moved and no more.
-/

namespace MonkeyLang

namespace Position

variable {lines columns : Int} {p : Position}

/-- A place of a text, when the given lines stand before it and the given columns before
its first line. -/
def behind (lines columns : Int) (p : Position) : Position :=
  ⟨p.line + lines, if p.line = 1 then p.column + columns else p.column⟩

theorem line_le_step (p : Position) (b : UInt8) : p.line ≤ (p.step b).line := by
  unfold step
  split
  · change p.line ≤ p.line + 1
    omega
  · exact Int.le_refl _

theorem line_le_after (p : Position) (text : Text) : p.line ≤ (p.after text).line := by
  induction text generalizing p with
  | nil => exact Int.le_refl _
  | cons b rest ih => exact Int.le_trans (p.line_le_step b) (ih (p.step b))

/-- Bytes lead on from a moved place as from the place itself. -/
theorem step_behind (h : 1 ≤ p.line) (b : UInt8) :
    (p.behind lines columns).step b = (p.step b).behind lines columns := by
  unfold step
  split
  · have hlater : p.line + 1 ≠ 1 := by omega
    simp only [behind, if_neg hlater, mk.injEq, and_true]
    omega
  · by_cases hfirst : p.line = 1
    · simp only [behind, if_pos hfirst, mk.injEq, true_and]
      omega
    · simp only [behind, if_neg hfirst]

theorem after_behind (lines columns : Int) (h : 1 ≤ p.line) (text : Text) :
    (p.behind lines columns).after text = (p.after text).behind lines columns := by
  induction text generalizing p with
  | nil => rfl
  | cons b rest ih =>
      have hnext := ih (Int.le_trans h (p.line_le_step b))
      rwa [← step_behind h] at hnext

/-- Every newline leads one line further. -/
theorem line_after (p : Position) (text : Text) :
    (p.after text).line = p.line + text.count Text.newline := by
  induction text generalizing p with
  | nil => simp [after]
  | cons b rest ih =>
      have hrest : ((p.step b).after rest).line = (p.step b).line + rest.count Text.newline :=
        ih (p.step b)
      change ((p.step b).after rest).line = _
      rw [hrest, List.count_cons]
      by_cases hb : b = Text.newline
      · simp [step, hb]
        omega
      · simp [step, hb]

/-- Every place is the first one of a text that stands far enough behind. -/
theorem behind_start (p : Position) : start.behind (p.line - 1) (p.column - 1) = p := by
  obtain ⟨line, column⟩ := p
  simp only [behind, start, if_true, mk.injEq]
  omega

end Position

namespace Scanner

variable {lines columns : Int}

/-- The scanner on the same text behind other lines and columns. -/
def behind (lines columns : Int) (s : Scanner) : Scanner :=
  ⟨s.rest, s.position.behind lines columns⟩

/-- The next token is the same one, moved. -/
theorem next_behind (lines columns : Int) {s : Scanner} (h : 1 ≤ s.position.line) :
    (s.behind lines columns).next =
      (s.next.1.move (Position.behind lines columns), s.next.2.behind lines columns) := by
  have hgap := Position.after_behind lines columns h
    (splitGap false s.rest).1
  have hplace := Int.le_trans h (s.position.line_le_after (splitGap false s.rest).1)
  have hspan := Position.after_behind lines columns hplace
    (Lexeme.read (splitGap false s.rest).2).1.span
  simp only [next, behind, Token.move, hgap, hspan]

theorem line_le_next (s : Scanner) : s.position.line ≤ s.next.2.position.line :=
  Int.le_trans (s.position.line_le_after _) (Position.line_le_after _ _)

/-- **The same tokens are scanned, moved.** -/
theorem drain_behind (s : Scanner) (h : 1 ≤ s.position.line) :
    (s.behind lines columns).drain.1 =
      s.drain.1.map (Token.move (Position.behind lines columns)) := by
  induction s using drain.induct with
  | case1 s hend =>
      have hnext := next_behind lines columns h
      have hend' : (s.behind lines columns).next.1.kind = .eof := by rw [hnext]; exact hend
      rw [drain_of_end hend, drain_of_end hend', hnext, List.map_singleton]
  | case2 s hend _ _ _ ih =>
      have hnext := next_behind lines columns h
      have hend' : (s.behind lines columns).next.1.kind ≠ .eof := by rw [hnext]; exact hend
      have hrest := ih (Int.le_trans h s.line_le_next)
      rw [drain_of_token hend, drain_of_token hend', hnext, List.map_cons, hrest]

/-- A text is scanned from any place as from the first one. -/
theorem drain_mk (text : Text) (p : Position) :
    (Scanner.mk text p).drain.1 =
      (scan text).map (Token.move (Position.behind (p.line - 1) (p.column - 1))) := by
  have hstart : Scanner.mk text p = (start text).behind (p.line - 1) (p.column - 1) := by
    simp [behind, start, Position.behind_start]
  rw [hstart]
  exact drain_behind (start text) (Int.le_refl 1)

/-- The line behind a source is the first one behind all of its newlines. -/
theorem nextLine_start (source : Text) :
    (start source).nextLine = ⟨source.count Text.newline + 2, 1⟩ := by
  have hafter := Position.line_after .start source
  simp only [nextLine, start, Position.step, if_true, hafter, Position.mk.injEq, and_true]
  simp only [Position.start]
  omega

/-- A semicolon in front is a token by itself. -/
theorem drain_semicolon (text : Text) (p : Position) :
    (Scanner.mk (';'.toUInt8 :: text) p).drain.1 =
      ⟨.semicolon, [';'.toUInt8], p⟩ :: (Scanner.mk text (p.step ';'.toUInt8)).drain.1 := by
  have hnext : (Scanner.mk (';'.toUInt8 :: text) p).next =
      (⟨.semicolon, [';'.toUInt8], p⟩, ⟨text, p.step ';'.toUInt8⟩) := by
    cases text <;> rfl
  rw [drain_of_token (by simp [hnext]), hnext]

end Scanner

end MonkeyLang
