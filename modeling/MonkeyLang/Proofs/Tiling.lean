import MonkeyLang.Proofs.ContinuedScan
import MonkeyLang.Proofs.Gaps

/-!
# Tokens tile their source

Every byte of a source belongs to one token or to the gap before one.  Tokens stand for
the bytes of their spans: most by themselves, a string literal by what it decodes to and
an illegal byte by the character of its number.  Places count the newlines before a
token, and the bytes since the last of them.

A scanner that has come to some index of the source stands at the place of that index.
Each step passes a gap and the bytes of one token (`Scanner.next_passes`), so a whole
scan is a tiling of what is left (`Scanner.drain_tiles`); and behind the end there is
only the end again.
-/

namespace MonkeyLang

/-! ## Places -/

/-- The place behind a text at the start of a source: one line more than there are
newlines, one column more than there are bytes since the last one. -/
def Text.endPlace (text : Text) : Position :=
  ⟨1 + text.count Text.newline, 1 + (text.reverse.takeWhile (· ≠ Text.newline)).length⟩

/-- One more byte leads one place further. -/
theorem Text.endPlace_concat (text : Text) (b : UInt8) :
    (text ++ [b]).endPlace = text.endPlace.step b := by
  by_cases hb : b = Text.newline
  · simp [endPlace, Position.step, hb, List.count_append, Int.add_assoc]
  · simp [endPlace, Position.step, hb, List.count_append]
    omega

/-- A scanner counts places as they are defined. -/
theorem Text.endPlace_append (before text : Text) :
    (before ++ text).endPlace = before.endPlace.after text := by
  induction text generalizing before with
  | nil => simp [Position.after]
  | cons b rest ih =>
      have hrest := ih (before ++ [b])
      rw [endPlace_concat, List.append_assoc, List.singleton_append] at hrest
      exact hrest

/-- The bytes between two indexes of a source. -/
theorem Text.extract_middle (before text after : Text) :
    (before ++ text ++ after).extract before.length (before ++ text).length = text := by
  simp

/-! ## What tokens stand for -/

/-- The bytes that stand for a byte behind a backslash in a string literal. -/
def escapes : List (UInt8 × UInt8) :=
  [('n'.toUInt8, '\n'.toUInt8), ('t'.toUInt8, '\t'.toUInt8), ('r'.toUInt8, '\r'.toUInt8),
    ('"'.toUInt8, '"'.toUInt8), ('\\'.toUInt8, '\\'.toUInt8)]

/-- What the bytes between two quotes decode to.  Before any other byte a backslash is kept. -/
inductive Decodes : Text → Text → Prop
  | nil : Decodes [] []
  | byte {b : UInt8} {body value : Text} (hquote : b ≠ '"'.toUInt8) (hslash : b ≠ '\\'.toUInt8)
      (hrest : Decodes body value) : Decodes (b :: body) (b :: value)
  | escape {e b : UInt8} {body value : Text} (hescape : escapes.lookup e = some b)
      (hrest : Decodes body value) : Decodes ('\\'.toUInt8 :: e :: body) (b :: value)
  | kept {e : UInt8} {body value : Text} (hkept : escapes.lookup e = none)
      (hrest : Decodes body value) :
      Decodes ('\\'.toUInt8 :: e :: body) ('\\'.toUInt8 :: e :: value)

/-- The token stands for the bytes. -/
structure Token.StandsFor (t : Token) (bytes : Text) : Prop where
  quoted : t.kind = .string →
    ∃ body, bytes = '"'.toUInt8 :: body ++ ['"'.toUInt8] ∧ Decodes body t.literal
  stray : ∀ b, t.kind = .illegal → bytes = [b] →
    t.literal = String.utf8EncodeChar (Char.ofNat b.toNat)
  plain : t.kind ≠ .string → (t.kind = .illegal → bytes.length ≠ 1) → t.literal = bytes

/-- A part of a source, from one index up to another. -/
structure Span where
  start : Nat
  stop : Nat
  deriving DecidableEq, Repr

/-- From an index on, the source is cut into gaps and the spans of tokens.  The end takes
no bytes and stands at the end; every other token takes some, and nothing else lies
between two tokens than a gap. -/
inductive Tiles (source : Text) : Nat → List Token → List Span → Prop
  | finish {done : Nat} {t : Token}
      (hdone : done ≤ source.length)
      (hgap : Gap true (source.extract done source.length))
      (hkind : t.kind = .eof)
      (hplace : t.position = source.endPlace)
      (hliteral : t.literal = []) :
      Tiles source done [t] [⟨source.length, source.length⟩]
  | token {done : Nat} {t : Token} {s : Span} {tokens : List Token} {spans : List Span}
      (hdone : done ≤ s.start)
      (hspan : s.start < s.stop)
      (hstop : s.stop ≤ source.length)
      (hgap : Gap false (source.extract done s.start))
      (hkind : t.kind ≠ .eof)
      (hplace : t.position = Text.endPlace (source.take s.start))
      (hbytes : t.StandsFor (source.extract s.start s.stop))
      (hrest : Tiles source s.stop tokens spans) :
      Tiles source done (t :: tokens) (s :: spans)

/-! ## Lexemes -/

theorem unescape_eq (e : UInt8) :
    unescape e = ((escapes.lookup e).map fun b => [b]).getD ['\\'.toUInt8, e] := by
  have hall : ∀ e, unescape e = ((escapes.lookup e).map fun b => [b]).getD ['\\'.toUInt8, e] :=
    forall_byte (by decide +kernel)
  exact hall e

/-- A backslash and the byte behind it decode to what they stand for. -/
theorem Decodes.backslash {body value : Text} (e : UInt8) (h : Decodes body value) :
    Decodes ('\\'.toUInt8 :: e :: body) (unescape e ++ value) := by
  rw [unescape_eq]
  cases hlookup : escapes.lookup e with
  | some b => exact .escape hlookup h
  | none => exact .kept hlookup h

/-- A string literal that is read decodes to its value. -/
theorem StringBody.decodes {text : Text} {s : StringBody} (h : read? text = some s) :
    ∃ body, s.bytes = body ++ ['"'.toUInt8] ∧ Decodes body s.value := by
  fun_induction read? text generalizing s with
  | case1 => cases h
  | case2 rest =>
      cases h
      exact ⟨[], rfl, .nil⟩
  | case3 => cases h
  | case4 e more _ ih =>
      obtain ⟨u, hu, rfl⟩ := Option.map_eq_some_iff.1 h
      obtain ⟨body, hbytes, hdecodes⟩ := ih hu
      exact ⟨'\\'.toUInt8 :: e :: body, by simp [hbytes], hdecodes.backslash e⟩
  | case5 b rest hquote hslash ih =>
      obtain ⟨u, hu, rfl⟩ := Option.map_eq_some_iff.1 h
      obtain ⟨body, hbytes, hdecodes⟩ := ih hu
      exact ⟨b :: body, by simp [hbytes], .byte hquote hslash hdecodes⟩

/-- Words are neither strings nor illegal. -/
theorem Kind.ofWord_ne (word : Text) : ofWord word ≠ .string ∧ ofWord word ≠ .illegal := by
  simp only [ofWord, reserved, List.lookup_cons, List.lookup_nil]
  repeat' split
  all_goals decide

theorem Kind.ne_of_ofByte? {b : UInt8} {kind : Kind} (h : ofByte? b = some kind) :
    kind ≠ .string ∧ kind ≠ .illegal := by
  unfold ofByte? at h
  split at h <;> cases h <;> decide

theorem Kind.ne_of_ofBytes? {a b : UInt8} {kind : Kind} (h : ofBytes? a b = some kind) :
    kind ≠ .string ∧ kind ≠ .illegal := by
  unfold ofBytes? at h
  split at h <;> cases h <;> decide

/-- A token that is neither a string nor illegal stands for its literal. -/
theorem Token.standsFor_literal {t : Token} (h : t.kind ≠ .string ∧ t.kind ≠ .illegal) :
    t.StandsFor t.literal where
  quoted hstring := absurd hstring h.1
  stray _ hillegal := absurd hillegal h.2
  plain _ _ := rfl

/-- The character of a byte has the number of the byte. -/
theorem ofUInt8_eq_ofNat (b : UInt8) : Char.ofUInt8 b = Char.ofNat b.toNat := by
  have hall : ∀ b : UInt8, Char.ofUInt8 b = Char.ofNat b.toNat := forall_byte (by decide +kernel)
  exact hall b

namespace Lexeme

/-- The token of a lexeme at a place. -/
def token (lexeme : Lexeme) (p : Position) : Token := ⟨lexeme.kind, lexeme.literal, p⟩

/-- An illegal byte stands for itself. -/
theorem standsFor_stray (b : UInt8) (p : Position) :
    Token.StandsFor ⟨.illegal, String.utf8EncodeChar (Char.ofUInt8 b), p⟩ [b] where
  quoted hstring := by cases hstring
  stray c _ hbytes := by
    obtain ⟨rfl, _⟩ := List.cons.inj hbytes
    rw [ofUInt8_eq_ofNat]
  plain _ hlength := absurd rfl (hlength rfl)

theorem standsFor_readMark (b : UInt8) (rest : Text) (p : Position) :
    ((readMark b rest).1.token p).StandsFor (readMark b rest).1.span := by
  have hsingle : ∀ kind, Kind.ofByte? b = some kind →
      Token.StandsFor ⟨kind, [b], p⟩ [b] :=
    fun kind hkind => Token.standsFor_literal (Kind.ne_of_ofByte? hkind)
  cases rest with
  | nil =>
      simp only [readMark]
      cases hkind : Kind.ofByte? b with
      | some kind => exact hsingle kind hkind
      | none => exact standsFor_stray b p
  | cons next more =>
      simp only [readMark]
      cases hpair : Kind.ofBytes? b next with
      | some kind => exact Token.standsFor_literal (Kind.ne_of_ofBytes? hpair)
      | none =>
          cases hkind : Kind.ofByte? b with
          | some kind => exact hsingle kind hkind
          | none => exact standsFor_stray b p

/-- An open string literal stands for its bytes. -/
theorem standsFor_open (rest : Text) (p : Position) :
    Token.StandsFor ⟨.illegal, '"'.toUInt8 :: rest, p⟩ ('"'.toUInt8 :: rest) where
  quoted hstring := by cases hstring
  stray b _ hbytes := by
    obtain ⟨rfl, rfl⟩ := List.cons.inj hbytes
    rfl
  plain _ _ := rfl

/-- **A lexeme stands for the bytes it was read from.** -/
theorem standsFor_read (text : Text) (p : Position) :
    ((read text).1.token p).StandsFor (read text).1.span := by
  cases text with
  | nil => exact Token.standsFor_literal (by simp [token, read, finish])
  | cons b rest =>
      simp only [read]
      by_cases hquote : b = '"'.toUInt8
      · subst hquote
        rw [if_pos rfl]
        cases hbody : StringBody.read? rest with
        | none => exact standsFor_open rest p
        | some s =>
            obtain ⟨body, hbytes, hdecodes⟩ := StringBody.decodes hbody
            exact ⟨fun _ => ⟨body, by simp [hbytes], hdecodes⟩, by simp [token], by simp [token]⟩
      · rw [if_neg hquote]
        split
        · exact Token.standsFor_literal (Kind.ofWord_ne _)
        · split
          · exact Token.standsFor_literal (by simp [token, plain])
          · exact standsFor_readMark b rest p

/-- Where something is left the end is not read. -/
theorem kind_read_ne_eof (b : UInt8) (rest : Text) : (read (b :: rest)).1.kind ≠ .eof := by
  rcases read_cons_cases b rest with hmark | hopen | ⟨hkind, _⟩
  · intro hend
    simp [hend, Kind.isMark] at hmark
  · rw [(read_of_isOpen hopen).1]
    simp [plain]
  · simp [hkind]

end Lexeme

/-! ## Scans -/

namespace Scanner

/-- One step passes over a gap and the bytes of its token. -/
structure Passes (s : Scanner) (gap bytes : Text) : Prop where
  text : s.rest = gap ++ bytes ++ s.next.2.rest
  isGap : Gap (s.next.1.kind = .eof) gap
  place : s.next.1.position = s.position.after gap
  onward : s.next.2.position = s.position.after (gap ++ bytes)
  standsFor : s.next.1.StandsFor bytes
  real : s.next.1.kind ≠ .eof → bytes ≠ []
  ending : s.next.1.kind = .eof →
    bytes = [] ∧ s.next.2.rest = [] ∧ s.next.1 = ⟨.eof, [], s.next.2.position⟩

/-- What one step passes over is the gap it cuts off and the bytes of the lexeme behind. -/
theorem passes_split (s : Scanner) :
    s.Passes (splitGap false s.rest).1 (Lexeme.read (splitGap false s.rest).2).1.span := by
  have hgap := gap_splitGap s.rest
  have hrest := splitGap_append false s.rest
  generalize hcut : splitGap false s.rest = cut at hgap hrest
  obtain ⟨gap, text⟩ := cut
  have hspan := Lexeme.span_append text
  have hstands := Lexeme.standsFor_read text (s.position.after gap)
  have hnext : s.next = ((Lexeme.read text).1.token (s.position.after gap),
      ⟨(Lexeme.read text).2, (s.position.after gap).after (Lexeme.read text).1.span⟩) := by
    simp only [next, hcut, Lexeme.token]
  refine ⟨?_, ?_, ?_, ?_, ?_, ?_, ?_⟩ <;> rw [hnext]
  · rw [List.append_assoc, hspan, hrest]
  · cases text with
    | nil => exact hgap
    | cons b rest => simpa [Lexeme.token, Lexeme.kind_read_ne_eof b rest] using hgap
  · rfl
  · simp [Position.after]
  · exact hstands
  · intro hreal
    cases text with
    | nil => exact absurd rfl hreal
    | cons b rest => exact Lexeme.span_ne_nil b rest
  · intro hend
    cases text with
    | nil => exact ⟨rfl, rfl, rfl⟩
    | cons b rest => exact absurd hend (Lexeme.kind_read_ne_eof b rest)

theorem next_passes (s : Scanner) : ∃ gap bytes, s.Passes gap bytes :=
  ⟨_, _, s.passes_split⟩

section Steps

variable {s : Scanner} {source before gap bytes : Text}

/-- At the end a gap is left to tile. -/
theorem tiles_of_end (hpasses : s.Passes gap bytes) (hend : s.next.1.kind = .eof)
    (hsource : source = before ++ s.rest) (hplace : s.position = before.endPlace) :
    Tiles source before.length s.drain.1 [⟨source.length, source.length⟩] := by
  obtain ⟨rfl, hnil, htoken⟩ := hpasses.ending hend
  have htext := hpasses.text
  have hgap := hpasses.isGap
  simp only [hnil, List.append_nil] at htext
  subst hsource
  rw [htext, drain_of_end hend]
  refine .finish ?_ ?_ hend ?_ ?_
  · simp
  · simpa [hend] using hgap
  · rw [hpasses.place, hplace, Text.endPlace_append]
  · rw [htoken]

/-- Behind the token that is passed the source goes on. -/
theorem Passes.source_eq (hpasses : s.Passes gap bytes) (hsource : source = before ++ s.rest) :
    source = before ++ gap ++ bytes ++ s.next.2.rest := by
  rw [hsource, hpasses.text]
  simp

/-- Behind the token that is passed the place is that of the next index. -/
theorem Passes.place_eq (hpasses : s.Passes gap bytes) (hplace : s.position = before.endPlace) :
    s.next.2.position = (before ++ gap ++ bytes).endPlace := by
  rw [hpasses.onward, hplace, List.append_assoc, Text.endPlace_append]

/-- A token tiles what is passed over, and those behind it the rest. -/
theorem tiles_of_token {spans : List Span} (hpasses : s.Passes gap bytes)
    (hend : s.next.1.kind ≠ .eof) (hsource : source = before ++ s.rest)
    (hplace : s.position = before.endPlace)
    (hspans : Tiles source (before ++ gap ++ bytes).length s.next.2.drain.1 spans) :
    Tiles source before.length s.drain.1
      (⟨(before ++ gap).length, (before ++ gap ++ bytes).length⟩ :: spans) := by
  have hreal := List.length_pos_iff.2 (hpasses.real hend)
  have hcut := hpasses.source_eq hsource
  rw [drain_of_token hend]
  refine .token ?_ ?_ ?_ ?_ hend ?_ ?_ hspans
  · simp
  · simpa using hreal
  · simp [hcut]
  · have hgap := hpasses.isGap
    rw [hcut, List.append_assoc _ bytes, Text.extract_middle]
    simpa [hend] using hgap
  · rw [hcut, List.append_assoc _ bytes, List.take_left, hpasses.place, hplace,
      Text.endPlace_append]
  · rw [hcut, Text.extract_middle]
    exact hpasses.standsFor

end Steps

/-- What a scanner finds from some index on tiles the source from there. -/
theorem drain_tiles {source : Text} (s : Scanner) (before : Text)
    (hsource : source = before ++ s.rest) (hplace : s.position = before.endPlace) :
    ∃ spans, Tiles source before.length s.drain.1 spans := by
  induction s using drain.induct generalizing before with
  | case1 s hend => exact ⟨_, tiles_of_end s.passes_split hend hsource hplace⟩
  | case2 s hend _ _ _ ih =>
      obtain ⟨gap, bytes, hpasses⟩ := s.next_passes
      obtain ⟨spans, hspans⟩ := ih _ (hpasses.source_eq hsource) (hpasses.place_eq hplace)
      exact ⟨_, tiles_of_token hpasses hend hsource hplace hspans⟩

/-- Behind the end there is the same end. -/
theorem next_of_end {s : Scanner} (h : s.next.1.kind = .eof) :
    s.next.2.next = (s.next.1, s.next.2) := by
  obtain ⟨gap, bytes, hpasses⟩ := s.next_passes
  obtain ⟨_, hnil, htoken⟩ := hpasses.ending h
  rw [htoken]
  generalize s.next.2 = after at hnil ⊢
  obtain ⟨rest, position⟩ := after
  subst hnil
  rfl

/-- After a scan the last token comes again. -/
theorem next_drain (s : Scanner) :
    ∃ last, s.drain.1.getLast? = some last ∧ s.drain.2.next = (last, s.drain.2) := by
  induction s using drain.induct with
  | case1 s hend =>
      refine ⟨s.next.1, by rw [drain_of_end hend]; rfl, ?_⟩
      rw [drain, dif_pos hend]
      exact next_of_end hend
  | case2 s hend _ _ _ ih =>
      obtain ⟨last, hlast, hnext⟩ := ih
      refine ⟨last, ?_, ?_⟩
      · rw [drain_of_token hend, List.getLast?_cons, hlast]
        rfl
      · rw [drain, dif_neg hend]
        exact hnext

/-- A scanner that stays where it is gives the same token again and again. -/
theorem take_of_next {s : Scanner} {t : Token} (h : s.next = (t, s)) (n : Nat) :
    s.take n = List.replicate n t := by
  induction n with
  | zero => rfl
  | succ n ih => rw [take, h, ih, List.replicate_succ]

end Scanner

/-- The tokens of a source tile it. -/
theorem exists_tiles (source : Text) : ∃ spans, Tiles source 0 (scan source) spans :=
  (Scanner.start source).drain_tiles [] rfl rfl

/-- A token behind an index has a span from that index on, and stands at its start. -/
theorem Tiles.exists_span_behind {source : Text} {done : Nat} {tokens : List Token}
    {spans : List Span} (h : Tiles source done tokens spans) {t : Token} (ht : t ∈ tokens) :
    ∃ s, (t, s) ∈ tokens.zip spans ∧ done ≤ s.start ∧ s.start ≤ source.length ∧
      t.position = Text.endPlace (source.take s.start) := by
  induction h with
  | finish hdone _ _ hplace =>
      obtain rfl := List.mem_singleton.1 ht
      refine ⟨_, List.mem_singleton_self _, hdone, Nat.le_refl _, ?_⟩
      rw [hplace, List.take_length]
  | @token _ u s tokens spans hdone hspan hstop _ _ hplace _ _ ih =>
      rw [List.zip_cons_cons]
      rcases List.mem_cons.1 ht with rfl | hmem
      · exact ⟨s, List.mem_cons_self, hdone, by omega, hplace⟩
      · obtain ⟨r, hr, hbehind, hstart, hfound⟩ := ih hmem
        exact ⟨r, List.mem_cons_of_mem _ hr, by omega, hstart, hfound⟩

/-- **A scan tiles its source.**  The source is cut, from its start to its end, into gaps
and the spans of its tokens, each of which stands for its bytes at their place; the end
is the last token and no other, and after it every further token is that end again. -/
theorem scan_tiles_source (source : Text) :
    (∃ spans, Tiles source 0 (scan source) spans) ∧
      ∃ last, (scan source).getLast? = some last ∧ last.kind = .eof ∧
        ∀ n, (Scanner.start source).drain.2.take n = List.replicate n last := by
  refine ⟨exists_tiles source, ?_⟩
  obtain ⟨tokens, last, htokens, hkind⟩ := (Scanner.start source).drain_eq_concat
  obtain ⟨last', hlast', hnext⟩ := (Scanner.start source).next_drain
  have hlast : (scan source).getLast? = some last := by simp [scan, htokens]
  obtain rfl : last = last' := Option.some.inj (hlast.symm.trans hlast')
  exact ⟨last, hlast, hkind, Scanner.take_of_next hnext⟩

end MonkeyLang
