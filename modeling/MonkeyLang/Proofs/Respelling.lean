import MonkeyLang.Proofs.Gaps
import MonkeyLang.Proofs.MovedScan
import MonkeyLang.Proofs.ParseExact

/-!
# Scanning the literals of tokens again

A token that is a word, a number or a mark has its own spelling for a literal.  When
the literal stands in another text, before a byte that does not belong to it, the same
token is scanned there.  Places are left out of account: `tokensOf` gives the tokens of
a text as if they all stood at its start.
-/

namespace MonkeyLang

/-- The token, wherever it stands. -/
def Token.bare (t : Token) : Token := t.move fun _ => .start

/-- The token of a kind that is always spelled alike. -/
def Kind.mark (kind : Kind) : Token := ⟨kind, kind.name, .start⟩

/-- The tokens of a text, wherever they stand. -/
def tokensOf (text : Text) : List Token := (scan text).map Token.bare

/-- From any place the tokens of a text are scanned. -/
theorem Scanner.drain_bare (text : Text) (p : Position) :
    (Scanner.mk text p).drain.1.map Token.bare = tokensOf text := by
  rw [drain_mk, List.map_map]
  rfl

/-- Behind a gap a text is scanned from the place where it starts. -/
theorem scan_append_of_gap {gap : Text} (h : Gap false gap) (rest : Text) :
    scan (gap ++ rest) = (Scanner.mk rest (Position.start.after gap)).drain.1 := by
  refine Scanner.drain_congr ?_
  simp [Scanner.next, Scanner.start, splitGap_append_of_gap h, Position.after]

/-- Where no text is left there is the end. -/
theorem tokensOf_nil : tokensOf [] = [⟨.eof, [], .start⟩] := by
  have hend : (Scanner.start []).next.1.kind = .eof := rfl
  rw [tokensOf, scan, Scanner.drain_of_end hend]
  rfl

/-- A space is no token. -/
theorem tokensOf_space (text : Text) : tokensOf (' '.toUInt8 :: text) = tokensOf text := by
  have hspace : isSpace ' '.toUInt8 = true := by decide
  have hdrain : (Scanner.start (' '.toUInt8 :: text)).drain.1 =
      (Scanner.mk text (Position.start.step ' '.toUInt8)).drain.1 := by
    refine Scanner.drain_congr ?_
    simp [Scanner.next, Scanner.start, splitGap, hspace, Position.after]
  rw [tokensOf, scan, hdrain, Scanner.drain_bare]

/-- A lexeme at the start of a text is its first token. -/
theorem tokensOf_of_read {text rest : Text} {lexeme : Lexeme}
    (hgap : splitGap false text = ([], text)) (hread : Lexeme.read text = (lexeme, rest))
    (hkind : lexeme.kind ≠ .eof) :
    tokensOf text = ⟨lexeme.kind, lexeme.literal, .start⟩ :: tokensOf rest := by
  have hnext : (Scanner.start text).next =
      (⟨lexeme.kind, lexeme.literal, .start⟩, ⟨rest, Position.start.after lexeme.span⟩) := by
    simp [Scanner.next, Scanner.start, hgap, hread, Position.after]
  rw [tokensOf, scan, Scanner.drain_of_token (by simpa [hnext] using hkind), hnext,
    List.map_cons, Scanner.drain_bare]
  rfl

/-- The end stands behind all other tokens. -/
theorem Scanner.beforeEnd_drain (s : Scanner) : beforeEnd s.drain.1 = s.drain.1.dropLast := by
  induction s using drain.induct with
  | case1 s hend =>
      rw [drain_of_end hend]
      exact beforeEnd_cons_of_end [] hend
  | case2 s hend _ _ _ ih =>
      have hreal : ∀ t ∈ [s.next.1], t.kind ≠ .eof := by simpa using hend
      obtain ⟨tokens, last, hrest, _⟩ := s.next.2.drain_eq_concat
      rw [drain_of_token hend]
      change beforeEnd ([s.next.1] ++ s.next.2.drain.1) = _
      rw [beforeEnd_append_of_real _ hreal, ih, List.singleton_append,
        List.dropLast_cons_of_ne_nil (by simp [hrest])]

/-- What stands before the end of a text is what stands before its first end. -/
theorem beforeEnd_tokensOf {text : Text} {tokens : List Token} {last : Token}
    (h : tokensOf text = tokens ++ [last]) : beforeEnd (tokensOf text) = tokens := by
  have hdrain := (Scanner.start text).beforeEnd_drain
  have hmap : beforeEnd (tokensOf text) = (beforeEnd (scan text)).map Token.bare := by
    rw [tokensOf, beforeEnd, List.takeWhile_map]
    rfl
  rw [hmap, scan, hdrain, ← scan, List.map_dropLast, ← tokensOf, h, List.dropLast_concat]

/-! ## Spellings -/

/-- The kinds of tokens that are always spelled alike, but for the reserved words. -/
def Kind.marks : List Kind :=
  [.assign, .plus, .minus, .bang, .star, .slash, .less, .greater, .equal, .notEqual, .comma,
    .semicolon, .colon, .lparen, .rparen, .lbrace, .rbrace, .lbracket, .rbracket]

/-- The token stands for its own bytes. -/
inductive Token.Spelled (t : Token) : Prop
  | word {b : UInt8} {rest : Text}
      (hliteral : t.literal = b :: rest)
      (hletter : Text.isLetter b = true)
      (hrest : ∀ c ∈ rest, Lexeme.continuesName c = true)
      (hkind : t.kind = Kind.ofWord t.literal)
  | number {b : UInt8} {rest : Text}
      (hliteral : t.literal = b :: rest)
      (hdigit : Text.isDigit b = true)
      (hrest : ∀ c ∈ rest, Text.isDigit c = true)
      (hkind : t.kind = .int)
  | mark
      (hkind : t.kind ∈ Kind.marks)
      (hliteral : t.literal = t.kind.name)

/-- A token that is scanned is spelled, but for strings, illegal bytes and the end. -/
def Token.Genuine (t : Token) : Prop :=
  t.kind.isMark = true → t.kind ≠ .string → t.Spelled

/-! ## Bytes -/

/-- Letters and digits are neither quotes nor spaces nor slashes. -/
theorem plain_of_continuesName {b : UInt8} (h : Lexeme.continuesName b = true) :
    b ≠ '"'.toUInt8 ∧ isSpace b = false ∧ b ≠ '/'.toUInt8 ∧ b ≠ '='.toUInt8 := by
  have hall : ∀ b, Lexeme.continuesName b = true →
      b ≠ '"'.toUInt8 ∧ isSpace b = false ∧ b ≠ '/'.toUInt8 ∧ b ≠ '='.toUInt8 :=
    forall_byte (by decide +kernel)
  exact hall b h

theorem continuesName_of_isLetter {b : UInt8} (h : Text.isLetter b = true) :
    Lexeme.continuesName b = true := by
  simp [Lexeme.continuesName, h]

theorem continuesName_of_isDigit {b : UInt8} (h : Text.isDigit b = true) :
    Lexeme.continuesName b = true := by
  simp [Lexeme.continuesName, h]

theorem isLetter_of_isDigit {b : UInt8} (h : Text.isDigit b = true) : Text.isLetter b = false := by
  have hall : ∀ b, Text.isDigit b = true → Text.isLetter b = false :=
    forall_byte (by decide +kernel)
  exact hall b h

/-- A mark of one byte is spelled by it. -/
theorem Kind.name_of_ofByte? {b : UInt8} {kind : Kind} (h : ofByte? b = some kind) :
    kind ∈ marks ∧ kind.name = [b] := by
  have hall : ∀ b, ∀ kind ∈ ofByte? b, kind ∈ marks ∧ kind.name = [b] :=
    forall_byte (by decide +kernel)
  exact hall b kind h

/-- There are two marks of two bytes, and both end in an equals sign. -/
theorem Kind.eq_of_ofBytes? {a b : UInt8} {kind : Kind} (h : ofBytes? a b = some kind) :
    b = '='.toUInt8 ∧
      (a = '='.toUInt8 ∧ kind = .equal ∨ a = '!'.toUInt8 ∧ kind = .notEqual) := by
  have hequals : ∀ b, Char.ofUInt8 b = '=' → b = '='.toUInt8 := forall_byte (by decide +kernel)
  have hbang : ∀ b, Char.ofUInt8 b = '!' → b = '!'.toUInt8 := forall_byte (by decide +kernel)
  unfold ofBytes? at h
  split at h
  · next ha hb => exact ⟨hequals b hb, Or.inl ⟨hequals a ha, by simpa using h.symm⟩⟩
  · next ha hb => exact ⟨hequals b hb, Or.inr ⟨hbang a ha, by simpa using h.symm⟩⟩
  · cases h

/-- Words are no marks. -/
theorem Kind.ofWord_notMem_marks (word : Text) : ofWord word ∉ marks := by
  simp only [ofWord, reserved, List.lookup_cons, List.lookup_nil]
  repeat' split
  all_goals decide

/-! ## What is scanned is spelled -/

namespace Lexeme

/-- A mark is spelled by its bytes. -/
theorem spelled_readMark {b : UInt8} {rest : Text} (p : Position)
    (h : (readMark b rest).1.kind ≠ .illegal) :
    Token.Spelled ⟨(readMark b rest).1.kind, (readMark b rest).1.literal, p⟩ := by
  have hsingle {kind : Kind} (hkind : Kind.ofByte? b = some kind) :
      Token.Spelled ⟨kind, [b], p⟩ :=
    .mark (Kind.name_of_ofByte? hkind).1 (Kind.name_of_ofByte? hkind).2.symm
  cases rest with
  | nil =>
      simp only [readMark] at h ⊢
      cases hkind : Kind.ofByte? b with
      | none => simp [hkind] at h
      | some kind => exact hsingle hkind
  | cons next more =>
      simp only [readMark] at h ⊢
      cases hpair : Kind.ofBytes? b next with
      | some kind =>
          have hname : kind ∈ Kind.marks ∧ kind.name = [b, next] := by
            obtain ⟨rfl, ⟨rfl, rfl⟩ | ⟨rfl, rfl⟩⟩ := Kind.eq_of_ofBytes? hpair <;> decide
          exact .mark hname.1 hname.2.symm
      | none =>
          cases hkind : Kind.ofByte? b with
          | none => simp [hpair, hkind] at h
          | some kind => exact hsingle hkind

/-- What is read off a text is spelled. -/
theorem genuine_read (text : Text) (p : Position) :
    Token.Genuine ⟨(read text).1.kind, (read text).1.literal, p⟩ := by
  intro hmark hstring
  cases text with
  | nil => simp [read, finish, Kind.isMark] at hmark
  | cons b rest =>
      simp only [read] at hmark hstring ⊢
      by_cases hquote : b = '"'.toUInt8
      · rw [if_pos hquote] at hmark hstring
        cases hbody : StringBody.read? rest with
        | none => simp [hbody, plain, Kind.isMark] at hmark
        | some s => simp [hbody] at hstring
      · rw [if_neg hquote] at hmark ⊢
        split
        · next hletter =>
          exact .word rfl hletter (fun c hc => List.all_eq_true.1 List.all_takeWhile c hc) rfl
        · next hletter =>
          rw [if_neg hletter] at hmark
          split
          · next hdigit =>
            exact .number rfl hdigit (fun c hc => List.all_eq_true.1 List.all_takeWhile c hc) rfl
          · next hdigit =>
            rw [if_neg hdigit] at hmark
            refine spelled_readMark p fun hkind => ?_
            simp [hkind, Kind.isMark] at hmark

end Lexeme

/-- Every token of a source is genuine. -/
theorem genuine_of_mem_scan {source : Text} {t : Token} (h : t ∈ scan source) : t.Genuine := by
  have hnext (s : Scanner) : s.next.1.Genuine := Lexeme.genuine_read _ _
  have hdrain (s : Scanner) (hs : t ∈ s.drain.1) : t.Genuine := by
    induction s using Scanner.drain.induct with
    | case1 s hend =>
        rw [Scanner.drain_of_end hend, List.mem_singleton] at hs
        exact hs ▸ hnext s
    | case2 s hend _ _ _ ih =>
        rw [Scanner.drain_of_token hend, List.mem_cons] at hs
        rcases hs with rfl | hs
        · exact hnext s
        · exact ih hs
  exact hdrain _ h

/-! ## What is spelled is scanned -/

/-- Behind a token of the kind, the byte would be taken for a part of it. -/
def Kind.absorbs (kind : Kind) (b : UInt8) : Bool :=
  match kind with
  | .assign | .bang => b = '='.toUInt8
  | .slash => b = '/'.toUInt8
  | kind => kind ∉ marks && Lexeme.continuesName b

/-- At the start of the text stands nothing that the token would take for a part of it. -/
def Kind.Parts (kind : Kind) (rest : Text) : Prop :=
  ∀ b ∈ rest.head?, kind.absorbs b = false

namespace Lexeme

/-- The bytes of marks start nothing else. -/
theorem mark_cases {kind : Kind} (h : kind ∈ Kind.marks) :
    kind = .equal ∨ kind = .notEqual ∨ ∃ b, kind.name = [b] ∧ Kind.ofByte? b = some kind ∧
      isSpace b = false ∧ b ≠ '"'.toUInt8 ∧ continuesName b = false ∧
        (b = '/'.toUInt8 → kind = .slash) ∧
          ∀ next, Kind.ofBytes? b next ≠ none → kind.absorbs next = true := by
  have hall : ∀ kind ∈ Kind.marks, kind = .equal ∨ kind = .notEqual ∨
      ∃ b ∈ kind.name.head?, kind.name = [b] ∧ Kind.ofByte? b = some kind ∧
        isSpace b = false ∧ b ≠ '"'.toUInt8 ∧ continuesName b = false ∧
          (b = '/'.toUInt8 → kind = .slash) ∧ (b = '='.toUInt8 → kind = .assign) ∧
            (b = '!'.toUInt8 → kind = .bang) := by
    decide +kernel
  rcases hall kind h with heq | heq | ⟨b, _, hname, hkind, hspace, hquote, hword, hslash, ha, hn⟩
  · exact Or.inl heq
  · exact Or.inr (Or.inl heq)
  · refine Or.inr (Or.inr ⟨b, hname, hkind, hspace, hquote, hword, hslash, fun next hpair => ?_⟩)
    obtain ⟨longer, hlonger⟩ := Option.ne_none_iff_exists'.1 hpair
    obtain ⟨rfl, ⟨hb, _⟩ | ⟨hb, _⟩⟩ := Kind.eq_of_ofBytes? hlonger
    · simp [ha hb, Kind.absorbs]
    · simp [hn hb, Kind.absorbs]

/-- A mark is read where it is spelled. -/
theorem read_mark {kind : Kind} (h : kind ∈ Kind.marks) {rest : Text} (hrest : kind.Parts rest) :
    splitGap false (kind.name ++ rest) = ([], kind.name ++ rest) ∧
      read (kind.name ++ rest) = (plain kind kind.name, rest) := by
  rcases mark_cases h with rfl | rfl | ⟨b, hname, hkind, hspace, hquote, hword, hslash, hlonger⟩
  · exact ⟨rfl, rfl⟩
  · exact ⟨rfl, rfl⟩
  · simp only [continuesName, Bool.or_eq_false_iff] at hword
    rw [hname]
    constructor
    · refine splitGap_of_byte hspace fun hb hhead => ?_
      have hparts := hrest _ hhead
      simp [hslash hb, Kind.absorbs] at hparts
    · simp only [List.cons_append, List.nil_append, read, if_neg hquote, hword.1, hword.2,
        Bool.false_eq_true, if_false]
      cases rest with
      | nil => simp [readMark, hkind]
      | cons next more =>
          have hparts := hrest next rfl
          have hpair : Kind.ofBytes? b next = none := by
            by_cases hpair : Kind.ofBytes? b next = none
            · exact hpair
            · simp [hlonger next hpair] at hparts
          simp [readMark, hkind, hpair]

/-- A run of bytes is read where the next byte does not belong to it. -/
theorem takeWhile_run {p : UInt8 → Bool} {run rest : Text} (hrun : ∀ b ∈ run, p b = true)
    (hrest : ∀ b ∈ rest.head?, p b = false) :
    (run ++ rest).takeWhile p = run ∧ (run ++ rest).dropWhile p = rest := by
  rw [List.takeWhile_append_of_pos hrun, List.dropWhile_append_of_pos hrun]
  cases rest with
  | nil => simp
  | cons b rest => simp [hrest b rfl]

end Lexeme

/-- What is no mark takes letters and digits for parts of it. -/
theorem Kind.absorbs_of_notMem_marks {kind : Kind} (h : kind ∉ marks) (b : UInt8) :
    kind.absorbs b = Lexeme.continuesName b := by
  unfold absorbs
  split
  · exact absurd (by decide) h
  · exact absurd (by decide) h
  · exact absurd (by decide) h
  · simp [h]

/-- What starts with a letter or a digit starts no gap. -/
theorem tokensOf_of_name {t : Token} {b : UInt8} {run rest : Text} (hliteral : t.literal = b :: run)
    (hb : Lexeme.continuesName b = true) (hkind : t.kind ≠ .eof)
    (hread : Lexeme.read (t.literal ++ rest) = (Lexeme.plain t.kind t.literal, rest)) :
    tokensOf (t.literal ++ rest) = t.bare :: tokensOf rest := by
  obtain ⟨_, hspace, hslash, _⟩ := plain_of_continuesName hb
  have hgap : splitGap false (t.literal ++ rest) = ([], t.literal ++ rest) := by
    rw [hliteral]
    exact splitGap_of_byte hspace fun h => absurd h hslash
  exact tokensOf_of_read hgap hread hkind

/-- **A spelled token is scanned again** before a byte that does not belong to it. -/
theorem Token.Spelled.tokensOf_append {t : Token} (h : t.Spelled) {rest : Text}
    (hrest : t.kind.Parts rest) : tokensOf (t.literal ++ rest) = t.bare :: tokensOf rest := by
  cases h with
  | word hliteral hletter hrun hkind =>
      have hname := continuesName_of_isLetter hletter
      have hnotMem : t.kind ∉ Kind.marks := hkind ▸ Kind.ofWord_notMem_marks t.literal
      have hparted : ∀ b ∈ rest.head?, Lexeme.continuesName b = false := by
        intro b hb
        rw [← Kind.absorbs_of_notMem_marks hnotMem]
        exact hrest b hb
      obtain ⟨htake, hdrop⟩ := Lexeme.takeWhile_run hrun hparted
      refine tokensOf_of_name hliteral hname (fun hend => ?_) ?_
      · have hmark := Kind.isMark_ofWord t.literal
        rw [← hkind, hend] at hmark
        cases hmark
      · rw [hkind, hliteral]
        simp [Lexeme.read, (plain_of_continuesName hname).1, hletter, htake, hdrop]
  | number hliteral hdigit hrun hkind =>
      have hname := continuesName_of_isDigit hdigit
      have hparted : ∀ b ∈ rest.head?, Text.isDigit b = false := by
        intro b hb
        have hparts := hrest b hb
        rw [hkind, Kind.absorbs_of_notMem_marks (by decide)] at hparts
        exact (Bool.or_eq_false_iff.1 hparts).2
      obtain ⟨htake, hdrop⟩ := Lexeme.takeWhile_run hrun hparted
      refine tokensOf_of_name hliteral hname (by simp [hkind]) ?_
      rw [hkind, hliteral]
      simp [Lexeme.read, (plain_of_continuesName hname).1, isLetter_of_isDigit hdigit, hdigit,
        htake, hdrop]
  | mark hkind hliteral =>
      obtain ⟨hgap, hread⟩ := Lexeme.read_mark hkind hrest
      rw [← hliteral] at hgap hread
      refine tokensOf_of_read hgap hread fun hend => ?_
      rw [show t.kind = .eof from hend] at hkind
      exact absurd hkind (by decide)

/-- A mark is scanned where it is spelled. -/
theorem tokensOf_mark {kind : Kind} (h : kind ∈ Kind.marks) {rest : Text}
    (hrest : kind.Parts rest) : tokensOf (kind.name ++ rest) = kind.mark :: tokensOf rest :=
  Token.Spelled.tokensOf_append (t := kind.mark) (.mark h rfl) hrest

theorem Token.Genuine.spelled {t : Token} {kind : Kind} (h : t.Genuine) (hkind : t.kind = kind)
    (hmark : kind.isMark = true) (hstring : kind ≠ .string) : t.Spelled := by
  subst hkind
  exact h hmark hstring

/-- The literal of a mark is its spelling. -/
theorem Token.Genuine.literal_eq {t : Token} (h : t.Genuine) (hkind : t.kind ∈ Kind.marks) :
    t.literal = t.kind.name := by
  have hreal : ∀ kind ∈ Kind.marks, kind.isMark = true ∧ kind ≠ .string ∧ kind ≠ .int := by decide
  obtain ⟨hmark, hstring, hint⟩ := hreal t.kind hkind
  cases h hmark hstring with
  | word _ _ _ hword =>
      rw [hword] at hkind
      exact absurd hkind (Kind.ofWord_notMem_marks _)
  | number _ _ _ hnumber => exact absurd hnumber hint
  | mark _ hliteral => exact hliteral

/-- A mark, wherever it stands, is the mark of its kind. -/
theorem Token.Genuine.bare_eq {t : Token} {kind : Kind} (h : t.Genuine) (hkind : t.kind = kind)
    (hmark : kind ∈ Kind.marks) : t.bare = kind.mark := by
  subst hkind
  have hliteral := h.literal_eq hmark
  simp [bare, move, Kind.mark, hliteral]

end MonkeyLang
