import MonkeyLang.Token.Scanner

/-!
# Scanning a source that was cut

A source is cut at the end of a line and later goes on.  What is scanned before
the cut does not change when it does: white space, comments, names, numbers and
marks all end at a newline, and a closed string literal ends before it.  Only the
end of the source was seen too early, and with it a string literal that was still
open.

`scan_cut` says so of whole sources: the tokens of the cut source are those the
longer source begins with, then at most one open string literal, then the end.
-/

namespace MonkeyLang

/-- Two slashes that start a comment do not stand at the two sides of a cut. -/
theorem head?_append_newline (rest more : Text) :
    ((rest ++ Text.newline :: more).head? = some '/'.toUInt8) ↔
      rest.head? = some '/'.toUInt8 := by
  cases rest with
  | nil =>
      have hnewline : Text.newline ≠ '/'.toUInt8 := by decide
      simp [hnewline]
  | cons b rest => simp

/-- A gap before a token ends where it did. -/
theorem splitGap_append_newline (inComment : Bool) (text more : Text)
    (h : (splitGap inComment text).2 ≠ []) :
    splitGap inComment (text ++ Text.newline :: more) =
      ((splitGap inComment text).1, (splitGap inComment text).2 ++ Text.newline :: more) := by
  induction text generalizing inComment with
  | nil => simp [splitGap] at h
  | cons b rest ih =>
      have hslash := head?_append_newline rest more
      rw [List.cons_append]
      unfold splitGap at h ⊢
      simp only [hslash]
      grind

/-- A closed string literal is read as it was. -/
theorem StringBody.read?_append {text : Text} {s : StringBody} (h : read? text = some s)
    (tail : Text) : read? (text ++ tail) = some { s with after := s.after ++ tail } := by
  fun_induction read? text generalizing s with
  | case1 => simp at h
  | case2 rest =>
      cases h
      rw [List.cons_append]
      unfold read?
      simp
  | case3 => simp at h
  | case4 e more hquote ih =>
      obtain ⟨u, hu, rfl⟩ := Option.map_eq_some_iff.1 h
      rw [List.cons_append, List.cons_append]
      unfold read?
      simp [hquote, ih hu]
  | case5 b rest hquote hslash ih =>
      obtain ⟨u, hu, rfl⟩ := Option.map_eq_some_iff.1 h
      rw [List.cons_append]
      unfold read?
      simp [hquote, hslash, ih hu]

namespace Lexeme

/-- A run of bytes that no newline continues ends where it did. -/
theorem takeWhile_append_newline {p : UInt8 → Bool} (hp : p Text.newline = false)
    (rest more : Text) :
    (rest ++ Text.newline :: more).takeWhile p = rest.takeWhile p := by
  induction rest with
  | nil => simp [hp]
  | cons b rest ih => simp [List.takeWhile_cons, ih]

/-- What is left after such a run is what was left, and the rest of the source. -/
theorem dropWhile_append_newline {p : UInt8 → Bool} (hp : p Text.newline = false)
    (rest more : Text) :
    (rest ++ Text.newline :: more).dropWhile p = rest.dropWhile p ++ Text.newline :: more := by
  induction rest with
  | nil => simp [hp]
  | cons b rest ih =>
      rw [List.cons_append, List.dropWhile_cons, List.dropWhile_cons]
      split
      · exact ih
      · rfl

/-- No operator of two bytes ends in a newline. -/
theorem ofBytes?_newline (b : UInt8) : Kind.ofBytes? b Text.newline = none := by
  have hnewline : Char.ofUInt8 Text.newline = '\n' := by decide
  unfold Kind.ofBytes?
  rw [hnewline]
  split <;> simp_all

/-- An operator, a delimiter or an illegal byte is read as it was. -/
theorem readMark_append_newline (b : UInt8) (rest more : Text) :
    readMark b (rest ++ Text.newline :: more) =
      ((readMark b rest).1, (readMark b rest).2 ++ Text.newline :: more) := by
  cases rest with
  | nil =>
      simp only [readMark, List.nil_append, ofBytes?_newline]
      cases Kind.ofByte? b <;> rfl
  | cons next rest =>
      simp only [readMark, List.cons_append]
      cases Kind.ofBytes? b next <;> cases Kind.ofByte? b <;> rfl

/-- The text is a string literal that is still open. -/
def isOpen : Text → Bool
  | [] => false
  | b :: rest => b = '"'.toUInt8 && (StringBody.read? rest).isNone

/-- Any lexeme but an open string literal is read as it was. -/
theorem read_append_newline (b : UInt8) (rest more : Text) (h : isOpen (b :: rest) = false) :
    read (b :: (rest ++ Text.newline :: more)) =
      ((read (b :: rest)).1, (read (b :: rest)).2 ++ Text.newline :: more) := by
  simp only [read]
  by_cases hquote : b = '"'.toUInt8
  · rw [if_pos hquote, if_pos hquote]
    cases hbody : StringBody.read? rest with
    | none => simp [isOpen, hquote, hbody] at h
    | some s => rw [StringBody.read?_append hbody]
  · rw [if_neg hquote, if_neg hquote]
    have hname : continuesName Text.newline = false := by decide
    have hdigit : Text.isDigit Text.newline = false := by decide
    split
    · rw [takeWhile_append_newline hname, dropWhile_append_newline hname]
    · split
      · rw [takeWhile_append_newline hdigit, dropWhile_append_newline hdigit]
      · exact readMark_append_newline b rest more

/-- An open string literal takes all that is left. -/
theorem read_of_isOpen {text : Text} (h : isOpen text = true) :
    read text = (plain .illegal text, []) ∧ text.startsWith "\"" = true := by
  cases text with
  | nil => simp [isOpen] at h
  | cons b rest =>
      simp only [isOpen, Bool.and_eq_true, decide_eq_true_eq, Option.isNone_iff_eq_none] at h
      obtain ⟨rfl, hbody⟩ := h
      have hmark : Text.ofString "\"" = ['"'.toUInt8] := by decide
      refine ⟨by simp [read, hbody], ?_⟩
      simp [Text.startsWith, hmark]

end Lexeme

namespace Scanner

/-- A scanner of the source that goes on after a newline. -/
def goingOn (s : Scanner) (more : Text) : Scanner :=
  { s with rest := s.rest ++ Text.newline :: more }

/-- Any token but the end and an open string literal is found again, and leaves
the two scanners at the same place. -/
theorem next_goingOn {s : Scanner} (hend : s.next.1.kind ≠ .eof)
    (hopen : Lexeme.isOpen (splitGap false s.rest).2 = false) (more : Text) :
    (s.goingOn more).next = (s.next.1, s.next.2.goingOn more) := by
  cases htext : (splitGap false s.rest).2 with
  | nil => simp [next, htext, Lexeme.read, Lexeme.finish] at hend
  | cons b rest =>
      have hgap := splitGap_append_newline false s.rest more (by simp [htext])
      rw [htext] at hopen
      have hread := Lexeme.read_append_newline b rest more hopen
      simp [next, goingOn, hgap, htext, hread]

/-- An open string literal ends the source. -/
theorem next_of_isOpen {s : Scanner} (hopen : Lexeme.isOpen (splitGap false s.rest).2 = true) :
    s.next.1.endsSource = true ∧ s.next.2.rest = [] := by
  obtain ⟨hread, hquote⟩ := Lexeme.read_of_isOpen hopen
  simp [next, hread, Lexeme.plain, Token.endsSource, Token.isUnterminated, hquote]

/-- Where nothing is left there is only the end. -/
theorem next_of_nil {s : Scanner} (h : s.rest = []) : s.next.1.kind = .eof := by
  simp [next, h, splitGap, Lexeme.read, Lexeme.finish]

theorem drain_of_end {s : Scanner} (h : s.next.1.kind = .eof) : s.drain.1 = [s.next.1] := by
  rw [drain]
  simp [h]

theorem drain_of_token {s : Scanner} (h : s.next.1.kind ≠ .eof) :
    s.drain.1 = s.next.1 :: s.next.2.drain.1 := by
  rw [drain]
  simp [h]

/-- Draining ends in an end token. -/
theorem drain_eq_concat (s : Scanner) :
    ∃ tokens last, s.drain.1 = tokens ++ [last] ∧ last.kind = .eof := by
  induction s using drain.induct with
  | case1 s h => exact ⟨[], s.next.1, drain_of_end h, h⟩
  | case2 s h _ _ _ ih =>
      obtain ⟨tokens, last, hdrain, hlast⟩ := ih
      exact ⟨s.next.1 :: tokens, last, by simp [drain_of_token h, hdrain], hlast⟩

/-- Before the cut the same tokens are drained; after them there is at most one
open string literal in the cut source, and then the end. -/
theorem drain_cut (s : Scanner) (more : Text) :
    ∃ shared loose rest last last',
      s.drain.1 = shared ++ loose ++ [last] ∧ (s.goingOn more).drain.1 = shared ++ rest ++ [last'] ∧
        last.kind = .eof ∧ last'.kind = .eof ∧ ∀ t ∈ loose, t.endsSource = true := by
  induction s using drain.induct with
  | case1 s h =>
      obtain ⟨rest, last', hrest, hlast'⟩ := drain_eq_concat (s.goingOn more)
      exact ⟨[], [], rest, s.next.1, last', drain_of_end h, hrest, h, hlast', by simp⟩
  | case2 s h _ _ _ ih =>
      cases hopen : Lexeme.isOpen (splitGap false s.rest).2 with
      | true =>
          obtain ⟨hends, hnil⟩ := next_of_isOpen hopen
          obtain ⟨rest, last', hrest, hlast'⟩ := drain_eq_concat (s.goingOn more)
          have hend := next_of_nil hnil
          refine ⟨[], [s.next.1], rest, s.next.2.next.1, last', ?_, hrest, hend, hlast', ?_⟩
          · simp [drain_of_token h, drain_of_end hend]
          · simpa using hends
      | false =>
          obtain ⟨shared, loose, rest, last, last', hcut, hwhole, hlast, hlast', hloose⟩ := ih
          have hnext := next_goingOn h hopen more
          have htoken : (s.goingOn more).next.1.kind ≠ .eof := by rwa [hnext]
          refine ⟨s.next.1 :: shared, loose, rest, last, last', ?_, ?_, hlast, hlast', hloose⟩
          · simp [drain_of_token h, hcut]
          · simp [drain_of_token htoken, hnext, hwhole]

end Scanner

/-- **What is scanned before a cut stays.**  A source that goes on after a newline
has the tokens of the cut source, up to its end or to a string literal that was
still open there. -/
theorem scan_cut (source more : Text) :
    ∃ shared loose rest last last',
      scan source = shared ++ loose ++ [last] ∧
        scan (source ++ Text.newline :: more) = shared ++ rest ++ [last'] ∧
        last.kind = .eof ∧ last'.kind = .eof ∧ ∀ t ∈ loose, t.endsSource = true :=
  (Scanner.start source).drain_cut more

end MonkeyLang
