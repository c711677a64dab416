import MonkeyLang.Proofs.Respelling

/-!
# Tokens written as a source

A list of tokens is written by writing each token, with white space between two of them
and perhaps comments behind that.  Words, numbers and marks are written as they are; a
string is put in quotes, with a backslash before each quote and backslash in it.

The bytes of white space end every token that can run on, so whatever the separators
are, each token is scanned by itself (`Token.Valid.tokensOf_written`) and what lies
between two tokens is passed over (`tokensOf_gap`).  `scan_written` joins these along the
list.
-/

namespace MonkeyLang

/-! ## Writing -/

/-- A text as it stands in quotes: each quote and backslash behind a backslash. -/
def Text.escaped (text : Text) : Text :=
  text.flatMap fun b =>
    if b = '"'.toUInt8 ∨ b = '\\'.toUInt8 then ['\\'.toUInt8, b] else [b]

/-- The token as it is written in a source. -/
def Token.written (t : Token) : Text :=
  if t.kind = .string then '"'.toUInt8 :: t.literal.escaped ++ ['"'.toUInt8] else t.literal

/-- The tokens that can be written: names, reserved words, numbers, strings of any bytes,
operators and delimiters. -/
inductive Token.Valid (t : Token) : Prop
  | name {b : UInt8} {rest : Text}
      (hkind : t.kind = .ident)
      (hliteral : t.literal = b :: rest)
      (hletter : Text.isLetter b = true)
      (hrest : ∀ c ∈ rest, (Text.isLetter c || Text.isDigit c) = true)
      (hfree : t.literal ∉ Kind.reserved.map Prod.fst)
  | word (hword : (t.literal, t.kind) ∈ Kind.reserved)
  | number
      (hkind : t.kind = .int)
      (hliteral : t.literal ≠ [])
      (hdigits : ∀ c ∈ t.literal, Text.isDigit c = true)
  | string (hkind : t.kind = .string)
  | mark (hkind : t.kind ∈ Kind.marks) (hliteral : t.literal = t.kind.name)

/-- What may stand between two tokens: a byte of white space, then white space and
comments that end with their lines. -/
inductive Separates : Text → Prop
  | mk {b : UInt8} {gap : Text} (hspace : b ∈ whiteSpace) (hgap : Gap false gap) :
      Separates (b :: gap)

/-- The text is a way to write the tokens. -/
inductive Writes : List Token → Text → Prop
  | nil : Writes [] []
  | single (t : Token) : Writes [t] t.written
  | cons {t u : Token} {tokens : List Token} {separator text : Text}
      (hseparator : Separates separator)
      (hrest : Writes (u :: tokens) text) :
      Writes (t :: u :: tokens) (t.written ++ separator ++ text)

/-! ## Strings -/

namespace StringBody

theorem read?_quote (rest : Text) :
    read? ('"'.toUInt8 :: rest) = some ⟨[], ['"'.toUInt8], rest⟩ := by
  unfold read?
  rw [if_pos rfl]

theorem read?_backslash {more : Text} {s : StringBody} (e : UInt8) (h : read? more = some s) :
    read? ('\\'.toUInt8 :: e :: more) =
      some ⟨unescape e ++ s.value, '\\'.toUInt8 :: e :: s.bytes, s.after⟩ := by
  unfold read?
  rw [if_neg (by decide), if_pos rfl]
  simp only [h, Option.map_some]

theorem read?_byte {b : UInt8} {rest : Text} {s : StringBody}
    (hb : ¬(b = '"'.toUInt8 ∨ b = '\\'.toUInt8)) (h : read? rest = some s) :
    read? (b :: rest) = some ⟨b :: s.value, b :: s.bytes, s.after⟩ := by
  obtain ⟨hquote, hslash⟩ := not_or.1 hb
  unfold read?
  rw [if_neg hquote, if_neg hslash, h]
  rfl

/-- What was put in quotes is read back, up to the closing quote. -/
theorem read?_escaped (text rest : Text) :
    read? (text.escaped ++ '"'.toUInt8 :: rest) =
      some ⟨text, text.escaped ++ ['"'.toUInt8], rest⟩ := by
  induction text with
  | nil => exact read?_quote rest
  | cons b text ih =>
      by_cases hb : b = '"'.toUInt8 ∨ b = '\\'.toUInt8
      · have hescaped : Text.escaped (b :: text) = '\\'.toUInt8 :: b :: Text.escaped text := by
          simp [Text.escaped, hb]
        have hvalue : unescape b = [b] := by
          rcases hb with rfl | rfl <;> decide
        rw [hescaped, List.cons_append, List.cons_append, read?_backslash b ih, hvalue]
        rfl
      · have hescaped : Text.escaped (b :: text) = b :: Text.escaped text := by
          simp [Text.escaped, hb]
        rw [hescaped, List.cons_append, read?_byte hb ih]
        rfl

end StringBody

/-- A string in quotes is one token. -/
theorem tokensOf_quoted {t : Token} (h : t.kind = .string) (rest : Text) :
    tokensOf (t.written ++ rest) = t.bare :: tokensOf rest := by
  have hwritten : t.written ++ rest =
      '"'.toUInt8 :: (t.literal.escaped ++ '"'.toUInt8 :: rest) := by
    simp [Token.written, h]
  have hgap : splitGap false (t.written ++ rest) = ([], t.written ++ rest) := by
    rw [hwritten]
    exact splitGap_of_byte (by decide) fun hslash => absurd hslash (by decide)
  have hread : Lexeme.read (t.written ++ rest) =
      (⟨.string, t.literal, '"'.toUInt8 :: (t.literal.escaped ++ ['"'.toUInt8])⟩, rest) := by
    simp [hwritten, Lexeme.read, StringBody.read?_escaped]
  rw [tokensOf_of_read hgap hread (by simp)]
  simp [Token.bare, Token.move, h]

/-! ## Other tokens -/

/-- The reserved words are words, and each is the word of its kind. -/
theorem Kind.ofWord_of_reserved {word : Text} {kind : Kind} (h : (word, kind) ∈ reserved) :
    ofWord word = kind ∧ ∃ b rest, word = b :: rest ∧ Text.isLetter b = true ∧
      ∀ c ∈ rest, Lexeme.continuesName c = true := by
  have hall : ∀ entry ∈ reserved, ofWord entry.1 = entry.2 ∧
      entry.1.head?.any Text.isLetter = true ∧
        ∀ c ∈ entry.1.tail, Lexeme.continuesName c = true := by
    decide +kernel
  obtain ⟨hkind, hhead, htail⟩ := hall (word, kind) h
  cases word with
  | nil => cases hhead
  | cons b rest => exact ⟨hkind, b, rest, rfl, hhead, htail⟩

/-- A word that is not reserved is a name. -/
theorem Kind.ofWord_of_free {word : Text} (h : word ∉ reserved.map Prod.fst) :
    ofWord word = .ident := by
  have hnone : reserved.lookup word = none := by
    rw [List.lookup_eq_none_iff]
    rintro ⟨other, kind⟩ hentry
    refine bne_iff_ne.2 ?_
    rintro rfl
    exact h (List.mem_map_of_mem hentry)
  rw [ofWord, hnone]
  rfl

/-- A token that can be written is a string or spelled as it is. -/
theorem Token.Valid.string_or_spelled {t : Token} (h : t.Valid) :
    t.kind = .string ∨ t.kind ≠ .string ∧ t.Spelled := by
  cases h with
  | name hkind hliteral hletter hrest hfree =>
      have hword : t.kind = Kind.ofWord t.literal := by
        rw [Kind.ofWord_of_free hfree, hkind]
      exact Or.inr ⟨by simp [hkind], .word hliteral hletter hrest hword⟩
  | word hword =>
      obtain ⟨hkind, b, rest, hliteral, hletter, hrest⟩ := Kind.ofWord_of_reserved hword
      have hstring : t.kind ≠ .string := by
        have hall : ∀ entry ∈ Kind.reserved, entry.2 ≠ .string := by decide
        exact hall _ hword
      exact Or.inr ⟨hstring, .word hliteral hletter hrest hkind.symm⟩
  | number hkind hliteral hdigits =>
      obtain ⟨b, rest, hcons⟩ := List.exists_cons_of_ne_nil hliteral
      rw [hcons] at hdigits
      have hrest : ∀ c ∈ rest, Text.isDigit c = true :=
        fun c hc => hdigits c (List.mem_cons_of_mem b hc)
      exact Or.inr ⟨by simp [hkind], .number hcons (hdigits b List.mem_cons_self) hrest hkind⟩
  | string hkind => exact Or.inl hkind
  | mark hkind hliteral =>
      have hstring : t.kind ≠ .string := by
        intro hstring
        rw [hstring] at hkind
        exact absurd hkind (by decide)
      exact Or.inr ⟨hstring, .mark hkind hliteral⟩

/-- White space belongs to no token. -/
theorem Kind.absorbs_of_space (kind : Kind) {b : UInt8} (h : isSpace b = true) :
    kind.absorbs b = false := by
  have hname : Lexeme.continuesName b = false := by
    refine Bool.eq_false_iff.2 fun hname => ?_
    have hspace := (plain_of_continuesName hname).2.1
    rw [h] at hspace
    cases hspace
  have hmarks : b ≠ '='.toUInt8 ∧ b ≠ '/'.toUInt8 := by
    constructor <;> rintro rfl <;> revert h <;> decide
  unfold absorbs
  split
  · simp [hmarks]
  · simp [hmarks]
  · simp [hmarks]
  · simp [hname]

/-- **A written token is scanned by itself** before white space and at the end. -/
theorem Token.Valid.tokensOf_written {t : Token} (h : t.Valid) {rest : Text}
    (hrest : ∀ b ∈ rest.head?, b ∈ whiteSpace) :
    tokensOf (t.written ++ rest) = t.bare :: tokensOf rest := by
  rcases h.string_or_spelled with hstring | ⟨hstring, hspelled⟩
  · exact tokensOf_quoted hstring rest
  · have hparts : t.kind.Parts rest :=
      fun b hb => t.kind.absorbs_of_space (mem_whiteSpace.1 (hrest b hb))
    rw [written, if_neg hstring]
    exact hspelled.tokensOf_append hparts

/-! ## Whole lists -/

/-- A gap is no token. -/
theorem tokensOf_gap {gap : Text} (h : Gap false gap) (rest : Text) :
    tokensOf (gap ++ rest) = tokensOf rest := by
  rw [tokensOf, scan_append_of_gap h, Scanner.drain_bare]

theorem Separates.gap {separator : Text} (h : Separates separator) : Gap false separator := by
  cases h with
  | mk hspace hgap => exact .space hspace hgap

/-- What is written is scanned, wherever the tokens stand. -/
theorem Writes.tokensOf_eq {tokens : List Token} {text : Text} (h : Writes tokens text)
    (hvalid : ∀ t ∈ tokens, t.Valid) :
    tokensOf text = tokens.map Token.bare ++ [⟨.eof, [], .start⟩] := by
  induction h with
  | nil => exact tokensOf_nil
  | single t =>
      have ht : tokensOf (t.written ++ []) = t.bare :: tokensOf [] :=
        (hvalid t List.mem_cons_self).tokensOf_written nofun
      rw [List.append_nil, tokensOf_nil] at ht
      exact ht
  | @cons t u tokens separator text hseparator _ ih =>
      have hhead : ∀ b ∈ (separator ++ text).head?, b ∈ whiteSpace := by
        cases hseparator with
        | mk hspace _ =>
            intro b hb
            cases hb
            exact hspace
      have ht := (hvalid t List.mem_cons_self).tokensOf_written hhead
      rw [List.append_assoc, ht, tokensOf_gap hseparator.gap,
        ih fun v hv => hvalid v (List.mem_cons_of_mem t hv)]
      rfl

/-- **What is written is scanned.**  However tokens are written, the tokens scanned are
the same, kind by kind and literal by literal, and then the end. -/
theorem scan_written {tokens : List Token} {text : Text} (hvalid : ∀ t ∈ tokens, t.Valid)
    (h : Writes tokens text) :
    (scan text).map (fun t => (t.kind, t.literal)) =
      tokens.map (fun t => (t.kind, t.literal)) ++ [(.eof, [])] := by
  have hbare := congrArg (List.map fun t : Token => (t.kind, t.literal)) (h.tokensOf_eq hvalid)
  simpa [tokensOf, Token.bare, Token.move, Function.comp_def] using hbare

/-- A text that ends in a backslash, marks that could run on, and a name that starts like
a reserved word. -/
def tangledTokens : List Token :=
  [⟨.string, "a\"\\", .start⟩, ⟨.slash, "/", .start⟩, ⟨.assign, "=", .start⟩,
    ⟨.equal, "==", .start⟩, ⟨.ident, "fn7", .start⟩]

/-- The tokens on three lines, the second one a comment behind the slash. -/
def tangledSource : Text :=
  Text.ofString "\"a\\\"\\\\\" /\n// a \"comment\"\n= ==\tfn7"

theorem scan_written_of_tangled :
    (∀ t ∈ tangledTokens, t.Valid) ∧ Writes tangledTokens tangledSource ∧
      (scan tangledSource).map (fun t => (t.kind, t.literal)) =
        tangledTokens.map (fun t => (t.kind, t.literal)) ++ [(.eof, [])] := by
  have hvalid : ∀ t ∈ tangledTokens, t.Valid := by
    simp only [tangledTokens, List.forall_mem_cons]
    refine ⟨.string rfl, .mark (by decide) rfl, .mark (by decide) rfl, .mark (by decide) rfl,
      .name rfl rfl (by decide) (List.all_eq_true.1 rfl) (by decide), nofun⟩
  have hspace : Separates (Text.ofString " ") := .mk (by decide) .nil
  have htab : Separates (Text.ofString "\t") := .mk (by decide) .nil
  have hbody : Text.newline ∉ Text.ofString " a \"comment\"" := by decide
  have hcomment : Separates (Text.ofString "\n// a \"comment\"\n") :=
    .mk (by decide) (.comment hbody .nil)
  have hwrites : Writes tangledTokens
      (Text.ofString "\"a\\\"\\\\\"" ++ Text.ofString " " ++ (Text.ofString "/" ++
        Text.ofString "\n// a \"comment\"\n" ++ (Text.ofString "=" ++ Text.ofString " " ++
          (Text.ofString "==" ++ Text.ofString "\t" ++ Text.ofString "fn7")))) :=
    .cons hspace (.cons hcomment (.cons hspace (.cons htab (.single _))))
  exact ⟨hvalid, hwrites, scan_written hvalid hwrites⟩

end MonkeyLang
