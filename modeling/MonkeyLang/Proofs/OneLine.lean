import MonkeyLang.Proofs.Tiling
import MonkeyLang.Proofs.WrittenTokens
import Mathlib.Data.List.Forall2

/-!
# Sources on one line

When a space takes the place of every newline, most of a source is scanned as before: a
newline between two tokens is white space like any other.  In two places it is more than
that.  In a string literal it is a byte of the string, so the string comes to hold a
space.  And it ends a comment; without it the comment takes all that is left.

So the tokens of the line are those before the first comment, with the strings changed
that held a newline.  `Rejoined` says this of two token lists, `Scanner.drain_oneLine`
proves it of every scan, and `Rejoined.exists_kept` tells in terms of the spans of the
source what was kept and what was cut off.
-/

namespace MonkeyLang

/-! ## Bytes -/

namespace Text

/-- The text with a space in the place of every newline. -/
def oneLine (text : Text) : Text := replaceByte newline " " text

/-- What stands on the line in the place of a byte. -/
def onLine (b : UInt8) : UInt8 := if b = newline then ' '.toUInt8 else b

theorem oneLine_eq_map (text : Text) : text.oneLine = text.map onLine := by
  have hspace : ofString " " = [' '.toUInt8] := by decide
  induction text with
  | nil => rfl
  | cons b rest ih =>
      rw [oneLine, replaceByte, List.flatMap_cons, List.map_cons, ← ih, onLine, hspace]
      by_cases hb : b = newline
      · rw [if_pos hb, if_pos hb]
        rfl
      · rw [if_neg hb, if_neg hb]
        rfl

@[simp]
theorem oneLine_nil : oneLine [] = [] := rfl

@[simp]
theorem oneLine_cons (b : UInt8) (rest : Text) :
    oneLine (b :: rest) = onLine b :: oneLine rest := by
  simp only [oneLine_eq_map, List.map_cons]

theorem onLine_of_ne {b : UInt8} (h : b ≠ newline) : onLine b = b := if_neg h

theorem onLine_newline : onLine newline = ' '.toUInt8 := if_pos rfl

theorem onLine_ne_newline (b : UInt8) : onLine b ≠ newline := by
  by_cases hb : b = newline
  · rw [hb, onLine_newline]
    decide
  · rw [onLine_of_ne hb]
    exact hb

/-- Only a newline gives way. -/
theorem onLine_eq_self_iff {b : UInt8} : onLine b = b ↔ b ≠ newline :=
  ⟨fun h hb => onLine_ne_newline b (h.trans hb), onLine_of_ne⟩

theorem isSpace_onLine (b : UInt8) : isSpace (onLine b) = isSpace b := by
  by_cases hb : b = newline
  · rw [hb, onLine_newline]
    decide
  · rw [onLine_of_ne hb]

/-- A byte that is no space stands on the line where it stood before. -/
theorem onLine_eq_iff {b c : UInt8} (hc : isSpace c = false) : onLine b = c ↔ b = c := by
  by_cases hb : b = newline
  · constructor
    · intro h
      rw [← h, isSpace_onLine, hb] at hc
      exact absurd hc (by decide)
    · intro h
      rw [← h, hb] at hc
      exact absurd hc (by decide)
  · rw [onLine_of_ne hb]

theorem newline_not_mem_oneLine (text : Text) : newline ∉ text.oneLine := by
  rw [oneLine_eq_map, List.mem_map]
  rintro ⟨b, _, hb⟩
  exact onLine_ne_newline b hb

theorem head?_oneLine {text : Text} {c : UInt8} (hc : isSpace c = false) :
    text.oneLine.head? = some c ↔ text.head? = some c := by
  cases text with
  | nil => simp
  | cons b rest => simp [onLine_eq_iff hc]

/-- A run of bytes that no white space belongs to is the same on the line. -/
theorem takeWhile_oneLine {p : UInt8 → Bool} (hnewline : p newline = false)
    (hspace : p ' '.toUInt8 = false) (text : Text) :
    text.oneLine.takeWhile p = text.takeWhile p ∧
      text.oneLine.dropWhile p = oneLine (text.dropWhile p) := by
  induction text with
  | nil => simp
  | cons b rest ih =>
      by_cases hb : b = newline
      · simp [hb, onLine_newline, hnewline, hspace]
      · rw [oneLine_cons, onLine_of_ne hb, List.takeWhile_cons, List.takeWhile_cons,
          List.dropWhile_cons, List.dropWhile_cons]
        by_cases hp : p b = true
        · simp [hp, ih]
        · simp [hp, onLine_of_ne hb]

/-- The bytes between two indexes. -/
theorem mem_extract_iff {source : Text} {start stop : Nat} {b : UInt8} :
    b ∈ source.extract start stop ↔ ∃ i, start ≤ i ∧ i < stop ∧ source[i]? = some b := by
  simp only [List.extract_eq_take_drop, List.mem_iff_getElem?, List.getElem?_take,
    List.getElem?_drop]
  constructor
  · rintro ⟨n, hn⟩
    split at hn
    · exact ⟨start + n, by omega, by omega, hn⟩
    · cases hn
  · rintro ⟨i, hstart, hstop, hi⟩
    refine ⟨i - start, ?_⟩
    rw [if_pos (by omega), Nat.add_sub_cancel' hstart]
    exact hi

end Text

/-! ## Gaps -/

/-- Without a newline a comment takes all that is left. -/
theorem splitGap_true_of_line {text : Text} (h : Text.newline ∉ text) :
    splitGap true text = (text, []) := by
  induction text with
  | nil => rfl
  | cons b rest ih =>
      obtain ⟨hb, hrest⟩ := not_or.1 (mt List.mem_cons.2 h)
      rw [splitGap_of_comment (Ne.symm hb), ih hrest]

/-- A gap is white space, or has a byte of a comment in it. -/
theorem spaces_or_comment (gap : Text) :
    (∀ b ∈ gap, b ∈ whiteSpace) ∨ ∃ b ∈ gap, b ∉ whiteSpace := by
  by_cases h : ∃ b ∈ gap, b ∉ whiteSpace
  · exact Or.inr h
  · exact Or.inl fun b hb => Classical.not_not.1 fun hcomment => h ⟨b, hb, hcomment⟩

/-- White space is passed over on the line as it was. -/
theorem splitGap_oneLine {text : Text} (h : ∀ b ∈ (splitGap false text).1, b ∈ whiteSpace) :
    splitGap false text.oneLine =
      ((splitGap false text).1.oneLine, (splitGap false text).2.oneLine) := by
  induction text with
  | nil => rfl
  | cons b rest ih =>
      rw [Text.oneLine_cons]
      rcases gap_start_cases b rest with hspace | ⟨more, rfl, rfl⟩ | ⟨hspace, hslash⟩
      · rw [splitGap_of_space hspace] at h ⊢
        have hrest := ih fun c hc => h c (List.mem_cons_of_mem b hc)
        rw [splitGap_of_space ((Text.isSpace_onLine b).trans hspace), hrest, Text.oneLine_cons]
      -- A comment is no white space.
      · rw [splitGap_of_slashes] at h
        exact absurd (h _ List.mem_cons_self) (by decide)
      · have hhead : Text.onLine b = '/'.toUInt8 →
            (Text.oneLine rest).head? ≠ some '/'.toUInt8 := by
          rw [Text.onLine_eq_iff (by decide), ne_eq, Text.head?_oneLine (by decide)]
          exact hslash
        rw [splitGap_of_byte hspace hslash,
          splitGap_of_byte ((Text.isSpace_onLine b).trans hspace) hhead, Text.oneLine_cons]
        rfl

/-- Where something else than white space was passed over, nothing is left on the line. -/
theorem splitGap_oneLine_of_comment {text : Text} {c : UInt8} (hc : c ∈ (splitGap false text).1)
    (hcomment : c ∉ whiteSpace) : (splitGap false text.oneLine).2 = [] := by
  induction text with
  | nil => rfl
  | cons b rest ih =>
      rw [Text.oneLine_cons]
      rcases gap_start_cases b rest with hspace | ⟨more, rfl, rfl⟩ | ⟨hspace, hslash⟩
      · rw [splitGap_of_space hspace] at hc
        rw [splitGap_of_space ((Text.isSpace_onLine b).trans hspace)]
        rcases List.mem_cons.1 hc with rfl | hrest
        · exact absurd (mem_whiteSpace.2 hspace) hcomment
        · exact ih hrest
      · have hline : Text.newline ∉ '/'.toUInt8 :: Text.oneLine more := by
          simpa using ⟨by decide, Text.newline_not_mem_oneLine more⟩
        rw [Text.oneLine_cons, Text.onLine_of_ne (by decide), splitGap_of_slashes,
          splitGap_true_of_line hline]
      · rw [splitGap_of_byte hspace hslash] at hc
        cases hc

/-! ## Lexemes -/

theorem unescape_onLine_iff {e : UInt8} {value value' : Text} :
    unescape (Text.onLine e) ++ value' = unescape e ++ value ↔
      e ≠ Text.newline ∧ value' = value := by
  by_cases he : e = Text.newline
  · have hnewline : unescape Text.newline = ['\\'.toUInt8, Text.newline] := by decide
    have hspace : unescape ' '.toUInt8 = ['\\'.toUInt8, ' '.toUInt8] := by decide
    have hne : ' '.toUInt8 ≠ Text.newline := by decide
    simp [he, Text.onLine_newline, hnewline, hspace, hne]
  · simp [Text.onLine_of_ne he, he]

/-- A closed string literal is closed on the line, and is the same string if no newline
was in it. -/
theorem StringBody.exists_read?_oneLine {text : Text} {s : StringBody} (h : read? text = some s) :
    ∃ value, read? text.oneLine = some ⟨value, s.bytes.oneLine, s.after.oneLine⟩ ∧
      (value = s.value ↔ Text.newline ∉ s.bytes) := by
  have hquoted : Text.onLine '"'.toUInt8 = '"'.toUInt8 := Text.onLine_of_ne (by decide)
  have hescaped : Text.onLine '\\'.toUInt8 = '\\'.toUInt8 := Text.onLine_of_ne (by decide)
  fun_induction read? text generalizing s with
  | case1 => cases h
  | case2 rest =>
      cases h
      refine ⟨[], ?_, ?_⟩
      · simp only [Text.oneLine_cons, hquoted, Text.oneLine_nil]
        exact read?_quote (Text.oneLine rest)
      · simp only [true_iff, List.mem_singleton]
        decide
  | case3 => cases h
  | case4 e more _ ih =>
      obtain ⟨u, hu, rfl⟩ := Option.map_eq_some_iff.1 h
      obtain ⟨value, hread, hvalue⟩ := ih hu
      have hslash : Text.newline ≠ '\\'.toUInt8 := by decide
      refine ⟨unescape (Text.onLine e) ++ value, ?_, ?_⟩
      · simp only [Text.oneLine_cons, hescaped]
        exact read?_backslash _ hread
      · rw [unescape_onLine_iff, hvalue]
        simp [hslash, eq_comm]
  | case5 b rest hquote hslash ih =>
      obtain ⟨u, hu, rfl⟩ := Option.map_eq_some_iff.1 h
      obtain ⟨value, hread, hvalue⟩ := ih hu
      refine ⟨Text.onLine b :: value, ?_, ?_⟩
      · simp only [Text.oneLine_cons]
        refine read?_byte ?_ hread
        rw [Text.onLine_eq_iff (by decide), Text.onLine_eq_iff (by decide)]
        exact not_or.2 ⟨hquote, hslash⟩
      · rw [List.cons.injEq, Text.onLine_eq_self_iff, hvalue]
        simp [eq_comm]

namespace Lexeme

theorem readMark_oneLine (b : UInt8) (rest : Text) :
    readMark b rest.oneLine = ((readMark b rest).1, (readMark b rest).2.oneLine) := by
  cases rest with
  | nil =>
      simp only [Text.oneLine_nil, readMark]
      cases Kind.ofByte? b <;> rfl
  | cons next more =>
      have hpair : Kind.ofBytes? b (Text.onLine next) = Kind.ofBytes? b next := by
        by_cases hnext : next = Text.newline
        · have hspace : Kind.ofBytes? b ' '.toUInt8 = none := by
            cases hkind : Kind.ofBytes? b ' '.toUInt8 with
            | none => rfl
            | some kind => exact absurd (Kind.eq_of_ofBytes? hkind).1 (by decide)
          rw [hnext, Text.onLine_newline, ofBytes?_newline, hspace]
        · rw [Text.onLine_of_ne hnext]
      simp only [Text.oneLine_cons, readMark, hpair]
      cases hkind : Kind.ofBytes? b next with
      | none => cases Kind.ofByte? b <;> simp
      | some kind =>
          obtain ⟨rfl, _⟩ := Kind.eq_of_ofBytes? hkind
          rfl

theorem kind_readMark_ne_string (b : UInt8) (rest : Text) : (readMark b rest).1.kind ≠ .string := by
  unfold readMark
  grind [plain, Kind.ne_of_ofByte?, Kind.ne_of_ofBytes?]

/-- No token begins with a newline. -/
theorem kind_read_newline (rest : Text) : (read (Text.newline :: rest)).1.kind = .illegal := by
  have hsingle : Kind.ofByte? Text.newline = none := by decide
  have hpair (next : UInt8) : Kind.ofBytes? Text.newline next = none := by
    cases hkind : Kind.ofBytes? Text.newline next with
    | none => rfl
    | some kind =>
        rcases (Kind.eq_of_ofBytes? hkind).2 with h | h
        · exact absurd h.1 (by decide)
        · exact absurd h.1 (by decide)
  have hmark : (readMark Text.newline rest).1.kind = .illegal := by
    cases rest with
    | nil => simp [readMark, hsingle]
    | cons next more => simp [readMark, hsingle, hpair]
  have hquote : Text.newline ≠ '"'.toUInt8 := by decide
  have hletter : Text.isLetter Text.newline = false := by decide
  have hdigit : Text.isDigit Text.newline = false := by decide
  simpa [read, hquote, hletter, hdigit] using hmark

/-- **A lexeme on the line.**  It has the kind it had, ends where it did, and stands for the
same text unless it is a string with a newline in it. -/
theorem read_oneLine {text : Text} (hlegal : (read text).1.kind ≠ .illegal) :
    (read text.oneLine).1.kind = (read text).1.kind ∧
      (read text.oneLine).2 = (read text).2.oneLine ∧
        ((read text.oneLine).1.literal = (read text).1.literal ↔
          ((read text).1.kind = .string → Text.newline ∉ (read text).1.span)) := by
  cases text with
  | nil => simp [read, finish]
  | cons b rest =>
      have hb : b ≠ Text.newline := by
        rintro rfl
        exact hlegal (kind_read_newline rest)
      rw [Text.oneLine_cons, Text.onLine_of_ne hb]
      simp only [read] at hlegal ⊢
      by_cases hquote : b = '"'.toUInt8
      · simp only [if_pos hquote] at hlegal ⊢
        cases hbody : StringBody.read? rest with
        | none => simp [hbody, plain] at hlegal
        | some s =>
            obtain ⟨value, hread, hvalue⟩ := StringBody.exists_read?_oneLine hbody
            simp [hread, hvalue, Ne.symm hb]
      · simp only [if_neg hquote]
        by_cases hletter : Text.isLetter b = true
        · obtain ⟨htake, hdrop⟩ := Text.takeWhile_oneLine (p := continuesName) (by decide)
            (by decide) rest
          simp [hletter, plain, htake, hdrop, (Kind.ofWord_ne _).1]
        · by_cases hdigit : Text.isDigit b = true
          · obtain ⟨htake, hdrop⟩ := Text.takeWhile_oneLine (p := Text.isDigit) (by decide)
              (by decide) rest
            simp [hletter, hdigit, plain, htake, hdrop]
          · simp [hletter, hdigit, readMark_oneLine, kind_readMark_ne_string]

end Lexeme

/-! ## Scans -/

/-- From an index on, the source has the tokens with the spans, and its line has the others.
As long as white space stands between them, the tokens have the same kinds, and the same
literals but for strings with a newline in them.  Where there is a comment the line ends. -/
inductive Rejoined (source : Text) : Nat → List Token → List Span → List Token → Prop
  | finish {done : Nat} {t t' : Token} {s : Span}
      (hend : t.kind = .eof)
      (hend' : t'.kind = .eof) :
      Rejoined source done [t] [s] [t']
  | cut {done : Nat} {t t' : Token} {s : Span} {tokens : List Token} {spans : List Span} {b : UInt8}
      (hb : b ∈ source.extract done s.start)
      (hcomment : b ∉ whiteSpace)
      (hend' : t'.kind = .eof) :
      Rejoined source done (t :: tokens) (s :: spans) [t']
  | token {done : Nat} {t t' : Token} {s : Span} {tokens tokens' : List Token} {spans : List Span}
      (hspaces : ∀ b ∈ source.extract done s.start, b ∈ whiteSpace)
      (hkind : t'.kind = t.kind)
      (hliteral : t'.literal = t.literal ↔
        (t.kind = .string → Text.newline ∉ source.extract s.start s.stop))
      (hrest : Rejoined source s.stop tokens spans tokens') :
      Rejoined source done (t :: tokens) (s :: spans) (t' :: tokens')

namespace Scanner

/-- Behind white space the same token is found on the line, but for its literal. -/
theorem next_oneLine {s : Scanner} (hspaces : ∀ b ∈ (splitGap false s.rest).1, b ∈ whiteSpace)
    (hlegal : s.next.1.kind ≠ .illegal) (p : Position) :
    (mk s.rest.oneLine p).next.1.kind = s.next.1.kind ∧
      (mk s.rest.oneLine p).next.2.rest = s.next.2.rest.oneLine ∧
        ((mk s.rest.oneLine p).next.1.literal = s.next.1.literal ↔
          (s.next.1.kind = .string →
            Text.newline ∉ (Lexeme.read (splitGap false s.rest).2).1.span)) := by
  simp only [next, splitGap_oneLine hspaces] at hlegal ⊢
  exact Lexeme.read_oneLine hlegal

/-- Behind a comment there is nothing on the line. -/
theorem kind_next_oneLine_of_comment {s : Scanner} {b : UInt8} (hb : b ∈ (splitGap false s.rest).1)
    (hcomment : b ∉ whiteSpace) (p : Position) : (mk s.rest.oneLine p).next.1.kind = .eof := by
  simp only [next, splitGap_oneLine_of_comment hb hcomment]
  rfl

/-- **A scan of the line** follows that of the source up to the first comment. -/
theorem drain_oneLine {source : Text} (s : Scanner) (before : Text)
    (hsource : source = before ++ s.rest) (hplace : s.position = before.endPlace)
    (hlegal : ∀ t ∈ s.drain.1, t.kind ≠ .illegal) (p : Position) :
    ∃ spans, Tiles source before.length s.drain.1 spans ∧
      Rejoined source before.length s.drain.1 spans (mk s.rest.oneLine p).drain.1 := by
  induction s using drain.induct generalizing before p with
  | case1 s hend =>
      refine ⟨_, tiles_of_end s.passes_split hend hsource hplace, ?_⟩
      have hend' : (mk s.rest.oneLine p).next.1.kind = .eof := by
        rcases spaces_or_comment (splitGap false s.rest).1 with hspaces | ⟨b, hb, hcomment⟩
        · rw [(next_oneLine hspaces (by simp [hend]) p).1, hend]
        · exact kind_next_oneLine_of_comment hb hcomment p
      rw [drain_of_end hend, drain_of_end hend']
      exact .finish hend hend'
  | case2 s hend _ _ _ ih =>
      have hpasses := s.passes_split
      have hcut := hpasses.source_eq hsource
      rw [drain_of_token hend] at hlegal
      have hrest (t : Token) (ht : t ∈ s.next.2.drain.1) : t.kind ≠ .illegal :=
        hlegal t (List.mem_cons_of_mem _ ht)
      obtain ⟨spans, htiles, hrejoined⟩ := ih _ hcut (hpasses.place_eq hplace) hrest
        (mk s.rest.oneLine p).next.2.position
      refine ⟨_, tiles_of_token hpasses hend hsource hplace htiles, ?_⟩
      have hgap : source.extract before.length (before ++ (splitGap false s.rest).1).length =
          (splitGap false s.rest).1 := by
        rw [hcut, List.append_assoc _ (Lexeme.read _).1.span, Text.extract_middle]
      rw [drain_of_token hend]
      rcases spaces_or_comment (splitGap false s.rest).1 with hspaces | ⟨b, hb, hcomment⟩
      · obtain ⟨hkind, hafter, hliteral⟩ :=
          next_oneLine hspaces (hlegal _ List.mem_cons_self) p
        have hend' : (mk s.rest.oneLine p).next.1.kind ≠ .eof := by rwa [hkind]
        rw [← hafter] at hrejoined
        rw [drain_of_token hend']
        refine .token ?_ hkind ?_ hrejoined
        · rwa [hgap]
        · rw [hcut, Text.extract_middle]
          exact hliteral
      · have hend' := kind_next_oneLine_of_comment hb hcomment p
        rw [drain_of_end hend']
        refine .cut ?_ hcomment hend'
        rwa [hgap]

end Scanner

/-! ## What is kept -/

namespace Tiles

variable {source : Text} {done : Nat} {tokens : List Token} {spans : List Span}

/-- Every span starts behind what is done. -/
theorem le_start (h : Tiles source done tokens spans) : ∀ s ∈ spans, done ≤ s.start := by
  induction h with
  | finish hdone _ _ _ _ => simpa using hdone
  | token hdone hspan _ _ _ _ _ _ ih =>
      intro r hr
      rcases List.mem_cons.1 hr with rfl | hr
      · exact hdone
      · have hbehind := ih r hr
        omega

/-- The end stands behind all other tokens. -/
theorem exists_concat (h : Tiles source done tokens spans) :
    ∃ init last, tokens = init ++ [last] ∧ last.kind = .eof ∧ ∀ t ∈ init, t.kind ≠ .eof := by
  induction h with
  | @finish _ t _ _ hkind _ _ => exact ⟨[], t, rfl, hkind, by simp⟩
  | @token _ t _ _ _ _ _ _ _ hkind _ _ _ ih =>
      obtain ⟨init, last, rfl, hlast, hinit⟩ := ih
      refine ⟨t :: init, last, rfl, hlast, ?_⟩
      intro u hu
      rcases List.mem_cons.1 hu with rfl | hu
      · exact hkind
      · exact hinit u hu

end Tiles

/-- From an index on, the source bears to be put on one line: no string has a newline in it,
and behind a comment, that is a byte which belongs to no token and is no white space, there
are only semicolons. -/
structure FitsOneLine (source : Text) (done : Nat) (tokens : List Token) (spans : List Span) :
    Prop where
  strings : ∀ t s, (t, s) ∈ tokens.zip spans → t.kind = .string →
    Text.newline ∉ source.extract s.start s.stop
  comments : ∀ i b, done ≤ i → source[i]? = some b → b ∉ whiteSpace →
    (∀ r ∈ spans, ¬ (r.start ≤ i ∧ i < r.stop)) →
      ∀ t s, (t, s) ∈ tokens.zip spans → i < s.start → t.kind = .semicolon ∨ t.kind = .eof

namespace FitsOneLine

variable {source : Text} {done : Nat} {t : Token} {s : Span} {tokens : List Token}
  {spans : List Span}

/-- Behind white space and a token it depends on the token and on the rest. -/
theorem cons_iff (hstart : done ≤ s.start) (hstop : s.start < s.stop)
    (hspaces : ∀ b ∈ source.extract done s.start, b ∈ whiteSpace) :
    FitsOneLine source done (t :: tokens) (s :: spans) ↔
      (t.kind = .string → Text.newline ∉ source.extract s.start s.stop) ∧
        FitsOneLine source s.stop tokens spans := by
  constructor
  · rintro ⟨hstrings, hcomments⟩
    refine ⟨hstrings t s (by simp), fun u r hr => hstrings u r (by simp [hr]), ?_⟩
    intro i b hi hbyte hcomment hfree u r hr
    refine hcomments i b (by omega) hbyte hcomment ?_ u r (by simp [hr])
    intro q hq
    rcases List.mem_cons.1 hq with rfl | hq
    · omega
    · exact hfree q hq
  · rintro ⟨hstring, hstrings, hcomments⟩
    constructor
    · intro u r hr
      rcases List.mem_cons.1 hr with heq | hr
      · cases heq
        exact hstring
      · exact hstrings u r hr
    · intro i b hi hbyte hcomment hfree u r hr hbefore
      have hbehind : s.stop ≤ i := by
        have hout := hfree s List.mem_cons_self
        have hgap : ¬ i < s.start := fun hlt =>
          hcomment (hspaces b (Text.mem_extract_iff.2 ⟨i, hi, hlt, hbyte⟩))
        omega
      rcases List.mem_cons.1 hr with heq | hr
      · cases heq
        omega
      · exact hcomments i b hbehind hbyte hcomment
          (fun q hq => hfree q (List.mem_cons_of_mem s hq)) u r hr hbefore

/-- Behind a comment everything has to be a semicolon. -/
theorem of_comment_iff {b : UInt8} (h : Tiles source done (t :: tokens) (s :: spans))
    (hb : b ∈ source.extract done s.start) (hcomment : b ∉ whiteSpace) :
    FitsOneLine source done (t :: tokens) (s :: spans) ↔
      ∀ u ∈ t :: tokens, u.kind = .semicolon ∨ u.kind = .eof := by
  constructor
  · rintro ⟨_, hcomments⟩ u hu
    obtain ⟨i, hi, hbefore, hbyte⟩ := Text.mem_extract_iff.1 hb
    have hstart : ∀ r ∈ s :: spans, i < r.start := by
      intro r hr
      rcases List.mem_cons.1 hr with rfl | hmore
      · exact hbefore
      · cases h with
        | finish _ _ _ _ _ => cases hmore
        | token _ hspan _ _ _ _ _ hrest =>
            have hbehind := hrest.le_start r hmore
            omega
    obtain ⟨r, hr, _⟩ := h.exists_span_behind hu
    refine hcomments i b hi hbyte hcomment ?_ u r hr (hstart r (List.of_mem_zip hr).2)
    intro q hq
    have hq := hstart q hq
    omega
  · intro hall
    constructor
    · intro u r hr hkind
      rcases hall u (List.of_mem_zip hr).1 with hu | hu
      · simp [hu] at hkind
      · simp [hu] at hkind
    · intro i b _ _ _ _ u r hr _
      exact hall u (List.of_mem_zip hr).1

end FitsOneLine

/-- The tokens differ in nothing but the text of a string. -/
structure Token.Alike (t t' : Token) : Prop where
  kind : t'.kind = t.kind
  position : t'.position = t.position
  literal : t.kind ≠ .string → t'.literal = t.literal

namespace Token.Alike

theorem eq_of_literal {t t' : Token} (h : t.Alike t') (hliteral : t'.literal = t.literal) :
    t' = t := by
  obtain ⟨kind, literal, position⟩ := t
  obtain ⟨kind', literal', position'⟩ := t'
  rw [Token.mk.injEq]
  exact ⟨h.kind, hliteral, h.position⟩

theorem map_kind_eq {tokens tokens' : List Token} (h : List.Forall₂ Alike tokens tokens') :
    tokens'.map Token.kind = tokens.map Token.kind := by
  induction h with
  | nil => rfl
  | cons halike _ ih => rw [List.map_cons, List.map_cons, halike.kind, ih]

end Token.Alike

/-- The line keeps the tokens before a cut, and what is cut off are semicolons and the strings
are the same exactly if the source bears to be put on one line. -/
theorem Rejoined.exists_kept {source : Text} {done : Nat} {tokens tokens' : List Token}
    {spans : List Span} (h : Rejoined source done tokens spans tokens')
    (htiles : Tiles source done tokens spans) :
    ∃ kept cut kept' last last', tokens.map Token.bare = kept ++ cut ++ [last] ∧
      tokens'.map Token.bare = kept' ++ [last'] ∧ List.Forall₂ Token.Alike kept kept' ∧
        (FitsOneLine source done tokens spans ↔
          kept' = kept ∧ ∀ t ∈ cut, t.kind = .semicolon) := by
  induction h with
  | @finish done t t' s hend hend' =>
      refine ⟨[], [], [], t.bare, t'.bare, rfl, rfl, .nil, ?_⟩
      simp only [List.not_mem_nil, false_implies, implies_true, and_self, iff_true]
      constructor <;> simp [hend]
  | @cut done t t' s tokens spans b hb hcomment hend' =>
      obtain ⟨init, last, hconcat, hlast, hinit⟩ := htiles.exists_concat
      refine ⟨[], init.map Token.bare, [], last.bare, t'.bare, ?_, rfl, .nil, ?_⟩
      · simp [hconcat]
      · rw [FitsOneLine.of_comment_iff htiles hb hcomment, hconcat]
        simp only [List.forall_mem_append, List.forall_mem_singleton, hlast, or_true, and_true,
          List.forall_mem_map, true_and]
        exact forall₂_congr fun u hu => or_iff_left (hinit u hu)
  | @token done t t' s tokens tokens' spans hspaces hkind hliteral hrest ih =>
      cases htiles with
      | finish _ _ _ _ _ => cases hrest
      | token hstart hstop _ _ _ _ _ hmore =>
          obtain ⟨kept, cut, kept', last, last', htokens, htokens', halike, hiff⟩ := ih hmore
          have hsame : t'.bare = t.bare ↔ t'.literal = t.literal := by
            simp [Token.bare, Token.move, hkind]
          refine ⟨t.bare :: kept, cut, t'.bare :: kept', last, last', ?_, ?_, ?_, ?_⟩
          · simp [htokens]
          · simp [htokens']
          · refine .cons ⟨hkind, rfl, ?_⟩ halike
            intro hstring
            exact hliteral.2 fun h => absurd h hstring
          · rw [FitsOneLine.cons_iff hstart hstop hspaces, hiff, List.cons.injEq, hsame, hliteral,
              and_assoc]

/-- **What a line keeps of its source.**  The tokens of a source without illegal ones are
kept up to some cut. -/
theorem exists_tokensOf_oneLine {source : Text} (hlegal : ∀ t ∈ scan source, t.kind ≠ .illegal) :
    ∃ spans, Tiles source 0 (scan source) spans ∧
      ∃ kept cut kept' last last', tokensOf source = kept ++ cut ++ [last] ∧
        tokensOf source.oneLine = kept' ++ [last'] ∧ List.Forall₂ Token.Alike kept kept' ∧
          (FitsOneLine source 0 (scan source) spans ↔
            kept' = kept ∧ ∀ t ∈ cut, t.kind = .semicolon) := by
  obtain ⟨spans, htiles, hrejoined⟩ :=
    (Scanner.start source).drain_oneLine [] rfl rfl hlegal .start
  exact ⟨spans, htiles, hrejoined.exists_kept htiles⟩

end MonkeyLang
