import MonkeyLang.Proofs.CutPace
import MonkeyLang.Proofs.CutScan

/-!
# Scanning what a source goes on with

The tokens before a cut stay when the source goes on.  Here is what comes behind
them.  When no string literal was open, the tokens of the rest follow, as if the rest
stood alone.  When one was open, its place is taken by the same literal with more text
in it; and when the rest begins with a quote, that quote closes it, whatever the
literal held.

Tokens of most kinds can be had behind a cut: each kind has a spelling, and spellings
on lines of their own are scanned one by one.
-/

namespace MonkeyLang

/-! ## Gaps and lexemes -/

/-- A gap that reaches the cut goes on behind it, a comment having ended with its
line. -/
theorem splitGap_append_newline_of_nil {inComment : Bool} {text : Text}
    (h : (splitGap inComment text).2 = []) (more : Text) :
    splitGap inComment (text ++ Text.newline :: more) =
      (text ++ Text.newline :: (splitGap false more).1, (splitGap false more).2) := by
  induction text generalizing inComment with
  | nil =>
      have hspace : isSpace Text.newline = true := by decide
      cases inComment <;> simp [splitGap, hspace]
  | cons b rest ih =>
      have hslash := head?_append_newline rest more
      generalize splitGap false more = found at ih ⊢
      rw [List.cons_append]
      unfold splitGap at h ⊢
      simp only [hslash]
      grind

/-- An open string literal is closed by a quote right behind the cut: a backslash at
its end takes the newline with it. -/
theorem StringBody.read?_append_quote {text : Text} (h : read? text = none) (more : Text) :
    ∃ s, read? (text ++ Text.newline :: '"'.toUInt8 :: more) = some s ∧ s.after = more := by
  have hclose : read? ('"'.toUInt8 :: more) = some ⟨[], ['"'.toUInt8], more⟩ := by
    unfold read?
    rw [if_pos rfl]
  have hquote : Text.newline ≠ '"'.toUInt8 := by decide
  have hslash : Text.newline ≠ '\\'.toUInt8 := by decide
  fun_induction read? text with
  | case1 => simp [read?, hquote, hslash, hclose]
  | case2 => simp at h
  | case3 hne =>
      rw [List.cons_append, List.nil_append]
      unfold read?
      simp [hne, hclose]
  | case4 e rest hne ih =>
      obtain ⟨s, hs, hafter⟩ := ih (by simpa using h)
      rw [List.cons_append, List.cons_append]
      unfold read?
      simp [hne, hs, hafter]
  | case5 b rest hne hslash ih =>
      obtain ⟨s, hs, hafter⟩ := ih (by simpa using h)
      rw [List.cons_append]
      unfold read?
      simp [hne, hslash, hs, hafter]

namespace Kind

/-- Words are tokens of the grammar. -/
theorem isMark_ofWord (word : Text) : (ofWord word).isMark = true := by
  simp only [ofWord, reserved, List.lookup_cons, List.lookup_nil]
  repeat' split
  all_goals rfl

theorem isMark_of_ofByte? {b : UInt8} {kind : Kind} (h : ofByte? b = some kind) :
    kind.isMark = true := by
  unfold ofByte? at h
  split at h <;> cases h <;> rfl

theorem isMark_of_ofBytes? {a b : UInt8} {kind : Kind} (h : ofBytes? a b = some kind) :
    kind.isMark = true := by
  unfold ofBytes? at h
  split at h <;> cases h <;> rfl

end Kind

/-- A fact about all bytes is a fact about each. -/
theorem forall_byte {p : UInt8 → Prop} (h : ∀ n < 256, p (UInt8.ofNat n)) (b : UInt8) : p b := by
  have hb := h b.toNat b.toNat_lt
  rwa [UInt8.ofNat_toNat] at hb

/-- No other byte is written with a quote in front. -/
theorem eq_quote_of_head?_encoded {b : UInt8}
    (h : (String.utf8EncodeChar (Char.ofUInt8 b)).head? = some '"'.toUInt8) :
    b = '"'.toUInt8 := by
  have hall : ∀ b, (String.utf8EncodeChar (Char.ofUInt8 b)).head? = some '"'.toUInt8 →
      b = '"'.toUInt8 :=
    forall_byte (by decide +kernel)
  exact hall b h

theorem Text.startsWith_quote {text : Text} :
    text.startsWith "\"" = true ↔ text.head? = some '"'.toUInt8 := by
  have hmark : Text.ofString "\"" = ['"'.toUInt8] := by decide
  cases text with
  | nil => simp [Text.startsWith, hmark]
  | cons b rest =>
      simp only [Text.startsWith, hmark, List.isPrefixOf_cons_cons, List.isPrefixOf_nil_left,
        Bool.and_true, beq_iff_eq, List.head?_cons, Option.some.injEq]
      exact eq_comm

namespace Lexeme

/-- A single mark is a token of the grammar, or an illegal byte. -/
theorem readMark_cases (b : UInt8) (rest : Text) :
    (readMark b rest).1.kind.isMark = true ∨
      (readMark b rest).1 = ⟨.illegal, String.utf8EncodeChar (Char.ofUInt8 b), [b]⟩ := by
  cases rest with
  | nil =>
      simp only [readMark]
      cases hsingle : Kind.ofByte? b with
      | some kind => exact Or.inl (Kind.isMark_of_ofByte? hsingle)
      | none => exact Or.inr rfl
  | cons next more =>
      simp only [readMark]
      cases hpair : Kind.ofBytes? b next with
      | some kind => exact Or.inl (Kind.isMark_of_ofBytes? hpair)
      | none =>
          cases hsingle : Kind.ofByte? b with
          | some kind => exact Or.inl (Kind.isMark_of_ofByte? hsingle)
          | none => exact Or.inr rfl

/-- What is read where something is left: a token of the grammar, an open string
literal, or an illegal byte, which is no quote. -/
theorem read_cons_cases (b : UInt8) (rest : Text) :
    (read (b :: rest)).1.kind.isMark = true ∨ isOpen (b :: rest) = true ∨
      (read (b :: rest)).1.kind = .illegal ∧
        (read (b :: rest)).1.literal.startsWith "\"" = false := by
  simp only [read]
  by_cases hquote : b = '"'.toUInt8
  · rw [if_pos hquote]
    cases hbody : StringBody.read? rest with
    | none => exact Or.inr (Or.inl (by simp [isOpen, hquote, hbody]))
    | some s => exact Or.inl rfl
  · rw [if_neg hquote]
    split
    · exact Or.inl (Kind.isMark_ofWord _)
    · split
      · exact Or.inl rfl
      · rcases readMark_cases b rest with hmark | hillegal
        · exact Or.inl hmark
        · refine Or.inr (Or.inr ?_)
          rw [hillegal]
          refine ⟨rfl, Bool.eq_false_iff.2 fun hstarts => ?_⟩
          exact hquote (eq_quote_of_head?_encoded (Text.startsWith_quote.1 hstarts))

/-- An open string literal that goes on is a string literal, or still open. -/
theorem kind_read_of_isOpen {text : Text} (h : isOpen text = true) (more : Text) :
    (read (text ++ more)).1.kind = .string ∨ (read (text ++ more)).1.kind = .illegal := by
  cases text with
  | nil => simp [isOpen] at h
  | cons b rest =>
      simp only [isOpen, Bool.and_eq_true, decide_eq_true_eq] at h
      rw [List.cons_append]
      simp only [read, if_pos h.1]
      cases StringBody.read? (rest ++ more) with
      | some s => exact Or.inl rfl
      | none => exact Or.inr rfl

/-- An open string literal that goes on with a quote is closed by it. -/
theorem read_of_isOpen_quote {text : Text} (h : isOpen text = true) (more : Text) :
    (read (text ++ Text.newline :: '"'.toUInt8 :: more)).1.kind = .string ∧
      (read (text ++ Text.newline :: '"'.toUInt8 :: more)).2 = more := by
  cases text with
  | nil => simp [isOpen] at h
  | cons b rest =>
      simp only [isOpen, Bool.and_eq_true, decide_eq_true_eq, Option.isNone_iff_eq_none] at h
      obtain ⟨s, hs, hafter⟩ := StringBody.read?_append_quote h.2 more
      rw [List.cons_append]
      simp [read, if_pos h.1, hs, hafter]

/-- There is something to an open string literal. -/
theorem ne_nil_of_isOpen {text : Text} (h : isOpen text = true) : text ≠ [] := by
  rintro rfl
  simp [isOpen] at h

end Lexeme

/-! ## Scanners -/

namespace Scanner

variable {s : Scanner}

/-- What comes next: the end, an open string literal, or a token that does not end the
source. -/
theorem next_cases (s : Scanner) :
    (splitGap false s.rest).2 = [] ∨ Lexeme.isOpen (splitGap false s.rest).2 = true ∨
      s.next.1.endsSource = false := by
  cases htext : (splitGap false s.rest).2 with
  | nil => exact Or.inl rfl
  | cons b rest =>
      right
      rcases Lexeme.read_cons_cases b rest with hmark | hopen | ⟨hkind, hquote⟩
      · right
        simp only [Kind.isMark, Bool.and_eq_true, decide_eq_true_eq] at hmark
        simp [next, htext, Token.endsSource, Token.isUnterminated, hmark]
      · exact Or.inl hopen
      · right
        simp [next, htext, Token.endsSource, Token.isUnterminated, hkind, hquote]

/-- Scanners before the same token and the same rest scan alike. -/
theorem drain_congr {t : Scanner} (h : s.next = t.next) : s.drain.1 = t.drain.1 := by
  by_cases hend : s.next.1.kind = .eof
  · have hend' : t.next.1.kind = .eof := h ▸ hend
    rw [drain_of_end hend, drain_of_end hend', h]
  · have hend' : t.next.1.kind ≠ .eof := h ▸ hend
    rw [drain_of_token hend, drain_of_token hend', h]

/-- After a token the text behind it is scanned. -/
theorem drain_of_rest {text : Text} (h : s.next.1.kind ≠ .eof) (hrest : s.next.2.rest = text) :
    ∃ place, s.drain.1 = s.next.1 :: (Scanner.mk text place).drain.1 := by
  subst hrest
  exact ⟨s.next.2.position, drain_of_token h⟩

/-- A token before the cut is scanned again, and then what follows it. -/
theorem drain_goingOn_of_token (hend : s.next.1.kind ≠ .eof)
    (hopen : Lexeme.isOpen (splitGap false s.rest).2 = false) (more : Text) :
    (s.goingOn more).drain.1 = s.next.1 :: (s.next.2.goingOn more).drain.1 := by
  have hnext := next_goingOn hend hopen more
  have htoken : (s.goingOn more).next.1.kind ≠ .eof := by rwa [hnext]
  rw [drain_of_token htoken, hnext]

/-- The place where what is scanned ends does not depend on how far the scan is. -/
theorem after_next (s : Scanner) :
    s.next.2.position.after s.next.2.rest = s.position.after s.rest := by
  have hgap := splitGap_append false s.rest
  have hspan := Lexeme.span_append (splitGap false s.rest).2
  conv => rhs; rw [← hgap, ← hspan]
  simp [next, Position.after, List.foldl_append]

/-- The place behind a newline at the end of what is scanned. -/
def nextLine (s : Scanner) : Position := (s.position.after s.rest).step Text.newline

/-- Where the source ended, the rest is scanned as if it stood alone. -/
theorem drain_goingOn_of_nil (h : (splitGap false s.rest).2 = []) (more : Text) :
    (s.goingOn more).drain.1 = (Scanner.mk more s.nextLine).drain.1 := by
  refine drain_congr ?_
  simp [next, goingOn, nextLine, splitGap_append_newline_of_nil h, Position.after,
    List.foldl_append]

/-- A newline in front makes no difference but for the place. -/
theorem drain_newline (text : Text) (place : Position) :
    (Scanner.mk (Text.newline :: text) place).drain.1 =
      (Scanner.mk text (place.step Text.newline)).drain.1 := by
  have hspace : isSpace Text.newline = true := by decide
  refine drain_congr ?_
  simp [next, splitGap, hspace, Position.after]

/-- At an open string literal only it and the end are left. -/
theorem drain_of_isOpen (h : Lexeme.isOpen (splitGap false s.rest).2 = true) :
    ∃ str last, s.drain.1 = [str, last] ∧ str.isUnterminated = true ∧ last.kind = .eof := by
  obtain ⟨hread, hquote⟩ := Lexeme.read_of_isOpen h
  have hkind : s.next.1.kind = .illegal := by simp [next, hread, Lexeme.plain]
  have hend := next_of_nil (next_of_isOpen h).2
  refine ⟨s.next.1, s.next.2.next.1, ?_, ?_, hend⟩
  · rw [drain_of_token (by simp [hkind]), drain_of_end hend]
  · simp [Token.isUnterminated, next, hread, Lexeme.plain, hquote]

/-- Where a string literal was open there is one, closed or not, whatever the source
goes on with. -/
theorem drain_goingOn_of_isOpen (h : Lexeme.isOpen (splitGap false s.rest).2 = true)
    (more : Text) :
    ∃ quoted after, (quoted.kind = .string ∨ quoted.kind = .illegal) ∧
      (s.goingOn more).drain.1 = quoted :: (after : Scanner).drain.1 := by
  have hgap := splitGap_append_newline false s.rest more (Lexeme.ne_nil_of_isOpen h)
  have hkind := Lexeme.kind_read_of_isOpen h (Text.newline :: more)
  have hnext : (s.goingOn more).next.1.kind = .string ∨
      (s.goingOn more).next.1.kind = .illegal := by
    simpa [next, goingOn, hgap] using hkind
  have htoken : (s.goingOn more).next.1.kind ≠ .eof := by
    rcases hnext with hnext | hnext <;> simp [hnext]
  exact ⟨_, _, hnext, drain_of_token htoken⟩

/-- A quote closes it. -/
theorem drain_goingOn_quote (h : Lexeme.isOpen (splitGap false s.rest).2 = true)
    (more : Text) :
    ∃ quoted place, quoted.kind = .string ∧
      (s.goingOn ('"'.toUInt8 :: more)).drain.1 =
        quoted :: (Scanner.mk more place).drain.1 := by
  have hgap := splitGap_append_newline false s.rest ('"'.toUInt8 :: more)
    (Lexeme.ne_nil_of_isOpen h)
  obtain ⟨hkind, hrest⟩ := Lexeme.read_of_isOpen_quote h more
  have hnext : (s.goingOn ('"'.toUInt8 :: more)).next.1.kind = .string := by
    simp [next, goingOn, hgap, hkind]
  have hafter : (s.goingOn ('"'.toUInt8 :: more)).next.2.rest = more := by
    simp [next, goingOn, hgap, hrest]
  obtain ⟨place, hdrain⟩ := drain_of_rest (by simp [hnext]) hafter
  exact ⟨_, place, hnext, hdrain⟩

/-- **A source with no open string literal** goes on with the tokens of the rest. -/
theorem drain_closed (s : Scanner) (h : ∀ t ∈ s.drain.1, t.isUnterminated = false) :
    ∃ shared last, s.drain.1 = shared ++ [last] ∧ last.kind = .eof ∧
      (∀ t ∈ shared, t.endsSource = false) ∧
        ∀ more, (s.goingOn more).drain.1 = shared ++ (Scanner.mk more s.nextLine).drain.1 := by
  induction s using drain.induct with
  | case1 s hend =>
      have htext : (splitGap false s.rest).2 = [] := by
        rcases next_cases s with hnil | hopen | hends
        · exact hnil
        · have hread := (Lexeme.read_of_isOpen hopen).1
          simp [next, hread, Lexeme.plain] at hend
        · simp [Token.endsSource, hend] at hends
      exact ⟨[], s.next.1, drain_of_end hend, hend, by simp, drain_goingOn_of_nil htext⟩
  | case2 s hend _ _ _ ih =>
      have hdrain := drain_of_token hend
      have hclosed : s.next.1.isUnterminated = false := h _ (by simp [hdrain])
      have hopen : Lexeme.isOpen (splitGap false s.rest).2 = false := by
        refine Bool.eq_false_iff.2 fun hopen => ?_
        have hends := (next_of_isOpen hopen).1
        simp [Token.endsSource, hend, hclosed] at hends
      obtain ⟨shared, last, hcut, hlast, hkept, hwhole⟩ :=
        ih fun t ht => h t (by simp [hdrain, ht])
      refine ⟨s.next.1 :: shared, last, by simp [hdrain, hcut], hlast, ?_, fun more => ?_⟩
      · intro t ht
        rcases List.mem_cons.1 ht with rfl | ht
        · simp [Token.endsSource, hend, hclosed]
        · exact hkept t ht
      · have hplace : s.next.2.nextLine = s.nextLine := by rw [nextLine, nextLine, after_next]
        rw [drain_goingOn_of_token hend hopen, hwhole, hplace, List.cons_append]

/-- **A source with an open string literal** has that literal last, and goes on with one
in its place. -/
theorem drain_open (s : Scanner) (h : ∃ t ∈ s.drain.1, t.isUnterminated = true) :
    ∃ shared str last, s.drain.1 = shared ++ [str, last] ∧ last.kind = .eof ∧
      str.isUnterminated = true ∧ (∀ t ∈ shared, t.endsSource = false) ∧
      (∀ more, ∃ quoted after, (quoted.kind = .string ∨ quoted.kind = .illegal) ∧
        (s.goingOn more).drain.1 = shared ++ quoted :: (after : Scanner).drain.1) ∧
      ∀ more, ∃ quoted place, quoted.kind = .string ∧
        (s.goingOn ('"'.toUInt8 :: more)).drain.1 =
          shared ++ quoted :: (Scanner.mk more place).drain.1 := by
  induction s using drain.induct with
  | case1 s hend =>
      obtain ⟨t, ht, hopen⟩ := h
      rw [drain_of_end hend, List.mem_singleton] at ht
      simp [ht, Token.isUnterminated, hend] at hopen
  | case2 s hend _ _ _ ih =>
      cases hopen : Lexeme.isOpen (splitGap false s.rest).2 with
      | true =>
          obtain ⟨str, last, hdrain, hstr, hlast⟩ := drain_of_isOpen hopen
          exact ⟨[], str, last, hdrain, hlast, hstr, by simp, drain_goingOn_of_isOpen hopen,
            drain_goingOn_quote hopen⟩
      | false =>
          have hdrain := drain_of_token hend
          have hends : s.next.1.endsSource = false := by
            rcases next_cases s with hnil | hopen' | hends
            · simp [next, hnil, Lexeme.read, Lexeme.finish] at hend
            · rw [hopen] at hopen'
              cases hopen'
            · exact hends
          have hlater : ∃ t ∈ s.next.2.drain.1, t.isUnterminated = true := by
            obtain ⟨t, ht, hunterminated⟩ := h
            rw [hdrain] at ht
            rcases List.mem_cons.1 ht with rfl | ht
            · simp [Token.endsSource, hunterminated] at hends
            · exact ⟨t, ht, hunterminated⟩
          obtain ⟨shared, str, last, hcut, hlast, hstr, hkept, hwhole, hquote⟩ := ih hlater
          refine ⟨s.next.1 :: shared, str, last, by simp [hdrain, hcut], hlast, hstr, ?_,
            fun more => ?_, fun more => ?_⟩
          · intro t ht
            rcases List.mem_cons.1 ht with rfl | ht
            · exact hends
            · exact hkept t ht
          · obtain ⟨quoted, after, hquoted, hrest⟩ := hwhole more
            refine ⟨quoted, after, hquoted, ?_⟩
            rw [drain_goingOn_of_token hend hopen, hrest, List.cons_append]
          · obtain ⟨quoted, place, hquoted, hrest⟩ := hquote more
            refine ⟨quoted, place, hquoted, ?_⟩
            rw [drain_goingOn_of_token hend hopen, hrest, List.cons_append]

end Scanner

/-! ## Spellings -/

/-- The kinds of tokens that completions are made of. -/
def Kind.completing : List Kind :=
  [.string, .ident, .assign, .lparen, .rparen, .lbrace, .rbrace, .rbracket, .colon]

/-- None of them is the end. -/
theorem Kind.ne_eof_of_completing {kind : Kind} (h : kind ∈ completing) : kind ≠ .eof := by
  rintro rfl
  simp [completing] at h

/-- A text that is scanned as one token of the given kind. -/
def Kind.spelling (kind : Kind) : Text :=
  if kind = .string then "\"\"" else kind.name

/-- Spellings on lines of their own. -/
def Text.spelled (kinds : List Kind) : Text :=
  kinds.flatMap fun kind => kind.spelling ++ [Text.newline]

namespace Scanner

/-- A spelling is scanned as one token. -/
theorem next_spelling {kind : Kind} (h : kind ∈ Kind.completing) (more : Text)
    (place : Position) :
    ((Scanner.mk kind.spelling place).goingOn more).next.1.kind = kind ∧
      ((Scanner.mk kind.spelling place).goingOn more).next.2.rest = Text.newline :: more := by
  -- A finite check of the spellings alone; what follows on the next line does not matter.
  have hspelling : ∀ kind ∈ Kind.completing,
      Lexeme.isOpen (splitGap false kind.spelling).2 = false ∧
        (Lexeme.read (splitGap false kind.spelling).2).1.kind = kind ∧
          (Lexeme.read (splitGap false kind.spelling).2).2 = [] := by
    decide
  obtain ⟨hopen, hkind, hrest⟩ := hspelling kind h
  have hnext : (Scanner.mk kind.spelling place).next.1.kind = kind := hkind
  have hreal : kind ≠ .eof := Kind.ne_eof_of_completing h
  rw [next_goingOn (by rwa [hnext]) hopen more]
  refine ⟨hkind, ?_⟩
  simp [goingOn, next, hrest]

/-- Tokens of any kinds of completions can be had, the end behind them. -/
theorem drain_spelled {kinds : List Kind} (h : ∀ kind ∈ kinds, kind ∈ Kind.completing)
    (place : Position) :
    ∃ tokens last, (Scanner.mk (Text.spelled kinds) place).drain.1 = tokens ++ [last] ∧
      tokens.map Token.kind = kinds ∧ last.kind = .eof := by
  induction kinds generalizing place with
  | nil =>
      have hend := next_of_nil (s := Scanner.mk (Text.spelled []) place) rfl
      exact ⟨[], _, drain_of_end hend, rfl, hend⟩
  | cons kind kinds ih =>
      obtain ⟨hkind, hrest⟩ := next_spelling (h kind List.mem_cons_self) (Text.spelled kinds) place
      have htext : Scanner.mk (Text.spelled (kind :: kinds)) place =
          (Scanner.mk kind.spelling place).goingOn (Text.spelled kinds) := by
        simp [Text.spelled, goingOn]
      rw [← htext] at hkind hrest
      have hreal : kind ≠ .eof := Kind.ne_eof_of_completing (h kind List.mem_cons_self)
      obtain ⟨place', hdrain⟩ := drain_of_rest (by rwa [hkind]) hrest
      obtain ⟨tokens, last, htokens, hkinds, hlast⟩ :=
        ih (fun k hk => h k (List.mem_cons_of_mem kind hk)) (place'.step Text.newline)
      refine ⟨_ :: tokens, last, ?_, by rw [List.map_cons, hkind, hkinds], hlast⟩
      rw [hdrain, drain_newline, htokens, List.cons_append]

end Scanner

/-- Behind a source with no open string literal tokens of any kinds of completions can
follow. -/
theorem scan_closed {source : Text} (h : ∀ t ∈ scan source, t.isUnterminated = false) :
    ∃ shared last, scan source = shared ++ [last] ∧ last.kind = .eof ∧
      (∀ t ∈ shared, t.endsSource = false) ∧
        ∀ kinds, (∀ kind ∈ kinds, kind ∈ Kind.completing) →
          ∃ more tokens last', scan (source ++ Text.newline :: more) = shared ++ tokens ++ [last'] ∧
            tokens.map Token.kind = kinds ∧ last'.kind = .eof := by
  obtain ⟨shared, last, hscan, hlast, hkept, hwhole⟩ := (Scanner.start source).drain_closed h
  refine ⟨shared, last, hscan, hlast, hkept, fun kinds hkinds => ?_⟩
  obtain ⟨tokens, last', htokens, hmap, hlast'⟩ :=
    Scanner.drain_spelled hkinds (Scanner.start source).nextLine
  refine ⟨Text.spelled kinds, tokens, last', ?_, hmap, hlast'⟩
  change ((Scanner.start source).goingOn (Text.spelled kinds)).drain.1 = _
  rw [hwhole, htokens, List.append_assoc]

/-- In the place of an open string literal a text always follows, and tokens of any kinds
of completions can follow behind a closed one. -/
theorem scan_open {source : Text} (h : ∃ t ∈ scan source, t.isUnterminated = true) :
    ∃ shared str last, scan source = (shared ++ [str]) ++ [last] ∧ last.kind = .eof ∧
      str.isUnterminated = true ∧ (∀ t ∈ shared, t.endsSource = false) ∧
      (∀ more, ∃ quoted rest last', (quoted.kind = .string ∨ quoted.kind = .illegal) ∧
        scan (source ++ Text.newline :: more) = (shared ++ quoted :: rest) ++ [last'] ∧
          last'.kind = .eof) ∧
      ∀ kinds, (∀ kind ∈ kinds, kind ∈ Kind.completing) →
        ∃ more tokens last', scan (source ++ Text.newline :: more) = shared ++ tokens ++ [last'] ∧
          tokens.map Token.kind = .string :: kinds ∧ last'.kind = .eof := by
  obtain ⟨shared, str, last, hscan, hlast, hstr, hkept, hwhole, hquote⟩ :=
    (Scanner.start source).drain_open h
  refine ⟨shared, str, last, ?_, hlast, hstr, hkept, fun more => ?_, fun kinds hkinds => ?_⟩
  · rw [List.append_assoc]
    exact hscan
  · obtain ⟨quoted, after, hquoted, hdrain⟩ := hwhole more
    obtain ⟨rest, last', hrest, hlast'⟩ := after.drain_eq_concat
    refine ⟨quoted, rest, last', hquoted, ?_, hlast'⟩
    change ((Scanner.start source).goingOn more).drain.1 = _
    simp [hdrain, hrest]
  · obtain ⟨quoted, place, hquoted, hdrain⟩ := hquote (Text.spelled kinds)
    obtain ⟨tokens, last', htokens, hmap, hlast'⟩ := Scanner.drain_spelled hkinds place
    refine ⟨'"'.toUInt8 :: Text.spelled kinds, quoted :: tokens, last', ?_, ?_, hlast'⟩
    · change ((Scanner.start source).goingOn ('"'.toUInt8 :: Text.spelled kinds)).drain.1 = _
      simp [hdrain, htokens]
    · rw [List.map_cons, hquoted, hmap]

end MonkeyLang
