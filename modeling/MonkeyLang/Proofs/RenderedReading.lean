import MonkeyLang.Proofs.CutReading
import MonkeyLang.Proofs.MovedTrees

/-!
# Reading the canonical text of a program

The canonical text of an expression puts every operator and every index into
parentheses of its own, and calls and collections into none.  If the expression holds
no string, no conditional and no function, the text can be read: what is scanned from
it are the tokens of the expression with parentheses around, in places of their own,
and they derive the same expression.

The induction is on the derivation of what was read.  Each construct keeps
`Expr.Respelled`: what its text is scanned as, before anything that cannot belong to a
name or a number, and that the tokens are an expression that can be applied.
`rendering_reads_back` is about whole programs of one such statement.
-/

namespace MonkeyLang

/-! ## Texts between tokens -/

/-- At the start of the text stands nothing that could belong to a name or a number. -/
def Text.Parted (rest : Text) : Prop :=
  ∀ b ∈ rest.head?, Lexeme.continuesName b = false

theorem Text.parted_nil : Parted [] := by
  intro b hb
  cases hb

/-- The first byte of a text is the first byte of all that begins with the text. -/
theorem Text.head?_append {p : UInt8 → Bool} {text : Text} (rest : Text)
    (h : text.head?.any p = true) : ∀ b ∈ (text ++ rest).head?, p b = true := by
  cases text with
  | nil => cases h
  | cons c text =>
      intro b hb
      cases hb
      exact h

theorem Text.any_head?_append {p : UInt8 → Bool} {text : Text} (rest : Text)
    (h : text.head?.any p = true) : (text ++ rest).head?.any p = true := by
  cases text with
  | nil => cases h
  | cons c text => exact h

/-- What starts with a mark or a space parts what stands before it. -/
theorem Text.parted_append {text : Text} (rest : Text)
    (h : text.head?.any (fun b => !Lexeme.continuesName b) = true) : Parted (text ++ rest) := by
  intro b hb
  simpa using head?_append rest h b hb

theorem Kind.parts_of_parted {kind : Kind} (h : kind ∉ marks) {rest : Text}
    (hrest : rest.Parted) : kind.Parts rest := by
  intro b hb
  rw [absorbs_of_notMem_marks h]
  exact hrest b hb

/-- A space belongs to no token. -/
theorem Kind.parts_space (kind : Kind) (rest : Text) :
    kind.Parts (Text.ofString " " ++ rest) := by
  intro b hb
  have hspace : ' '.toUInt8 = b := Option.some.inj hb
  subst hspace
  unfold absorbs
  split
  · rfl
  · rfl
  · rfl
  · exact Bool.and_false _

theorem tokensOf_blank (rest : Text) : tokensOf (Text.ofString " " ++ rest) = tokensOf rest :=
  tokensOf_space rest

/-- A delimiter is scanned by itself, whatever stands behind it. -/
theorem tokensOf_text (kind : Kind) {text : String} (htext : Text.ofString text = kind.name)
    (hkind : kind ∈ Kind.marks) (habsorbs : ∀ b, kind.absorbs b = false) (rest : Text) :
    tokensOf (Text.ofString text ++ rest) = kind.mark :: tokensOf rest := by
  rw [htext]
  exact tokensOf_mark hkind fun b _ => habsorbs b

theorem tokensOf_comma (rest : Text) :
    tokensOf (Text.ofString ", " ++ rest) = Kind.comma.mark :: tokensOf rest := by
  have htext : Text.ofString ", " = Text.ofString "," ++ Text.ofString " " := rfl
  rw [htext, List.append_assoc, tokensOf_text .comma rfl (by decide) fun _ => rfl,
    tokensOf_blank]

/-- The text is scanned as the given tokens, whatever it is parted from. -/
def Text.ScannedAs (text : Text) (tokens : List Token) : Prop :=
  ∀ rest : Text, rest.Parted → tokensOf (text ++ rest) = tokens ++ tokensOf rest

/-! ## Expressions -/

mutual

/-- In the expression stands no string, no conditional and no function. -/
def Expr.isPlain : Expr → Bool
  | .ident _ | .int _ _ | .bool _ _ => true
  | .string _ | .cond _ _ _ _ | .function _ _ _ => false
  | .unary _ operand => operand.isPlain
  | .binary _ left right => left.isPlain && right.isPlain
  | .call _ callee arguments => callee.isPlain && allPlain arguments
  | .array _ elements => allPlain elements
  | .index _ collection key => collection.isPlain && key.isPlain
  | .hash _ pairs => pairsPlain pairs

/-- All of the expressions are plain. -/
def allPlain : List Expr → Bool
  | [] => true
  | e :: rest => e.isPlain && allPlain rest

/-- All keys and values are plain. -/
def pairsPlain : List (Expr × Expr) → Bool
  | [] => true
  | (key, value) :: rest => key.isPlain && value.isPlain && pairsPlain rest

end

/-- Operators stand between the loosest expressions and those that are complete. -/
theorem Level.powers_of_mem_operators {level : Level} {kind : Kind} (h : kind ∈ level.operators) :
    Level.equality.power ≤ level.power ∧ level.power ≤ Level.applied.power ∧
      level.tighter.power ≤ Level.applied.power := by
  cases level <;> simp [operators] at h <;> decide

/-- The canonical text of the expression is scanned as the given tokens, and they are
the expression again; and no sign before it takes its first byte. -/
structure Expr.Respelled (e : Expr) (tokens : List Token) : Prop where
  phrase : Phrase .applied tokens e.bare
  scanned : e.render.ScannedAs tokens
  starts : e.render.head?.any (fun b => b != '='.toUInt8) = true

namespace Expr.Respelled

variable {t : Token} {e a b : Expr} {u v w : List Token}

theorem loosest (h : e.Respelled w) : Phrase .equality w e.bare := h.phrase.loosen_to (by decide)

/-- The expression in parentheses. -/
theorem group (h : Phrase .equality w e.bare) :
    Phrase .applied (Kind.lparen.mark :: (w ++ [Kind.rparen.mark])) e.bare :=
  (Phrase.group rfl h rfl).loosen_to (by decide)

/-- A word or a number. -/
theorem single {kind : Kind} (hgenuine : t.Genuine) (hkind : t.kind = kind)
    (hword : kind ∈ [.ident, .int, .trueWord, .falseWord]) (hrender : e.render = t.literal)
    (hphrase : Phrase .primary [t.bare] e.bare) : e.Respelled [t.bare] := by
  have hwords : ∀ kind ∈ [.ident, .int, .trueWord, .falseWord],
      kind.isMark = true ∧ kind ≠ .string ∧ kind ∉ Kind.marks := by
    decide
  obtain ⟨hmark, hstring, hnotMem⟩ := hwords kind hword
  have hspelled := hgenuine.spelled hkind hmark hstring
  subst hkind
  refine ⟨hphrase.loosen_to (by decide), fun rest hrest => ?_, ?_⟩
  · rw [hrender, hspelled.tokensOf_append (Kind.parts_of_parted hnotMem hrest),
      List.singleton_append]
  · rw [hrender]
    cases hspelled with
    | word hliteral hletter _ _ =>
        have hplain := plain_of_continuesName (continuesName_of_isLetter hletter)
        simp [hliteral, hplain.2.2.2]
    | number hliteral hdigit _ _ =>
        have hplain := plain_of_continuesName (continuesName_of_isDigit hdigit)
        simp [hliteral, hplain.2.2.2]
    | mark hmem _ => exact absurd hmem hnotMem

/-- An operator before its operand. -/
theorem unary (hspelled : t.Spelled) (hkind : t.kind = .bang ∨ t.kind = .minus)
    (h : e.Respelled w) :
    (Expr.unary t e).Respelled
      (Kind.lparen.mark :: (t.bare :: w ++ [Kind.rparen.mark])) where
  phrase := by
    refine group (Phrase.loosen_to (?_ : Phrase .sign _ _) (by decide))
    rw [bare, move]
    exact Phrase.unary hkind (h.phrase.loosen_to (by decide))
  scanned := by
    intro rest hrest
    have hparts : t.kind.Parts (e.render ++ (Text.ofString ")" ++ rest)) := by
      intro b hb
      have hstarts := Text.head?_append _ h.starts b hb
      rcases hkind with hkind | hkind
      · rw [hkind]
        simpa [Kind.absorbs] using hstarts
      · rw [hkind]
        rfl
    simp only [render, List.append_assoc]
    rw [tokensOf_text .lparen rfl (by decide) fun _ => rfl,
      hspelled.tokensOf_append hparts, h.scanned _ (Text.parted_append rest rfl),
      tokensOf_text .rparen rfl (by decide) fun _ => rfl]
    simp
  starts := by
    simp only [render, List.append_assoc]
    rfl

/-- An operator between its operands. -/
theorem binary {level : Level} (hspelled : t.Spelled) (hkind : t.kind ∈ level.operators)
    (ha : a.Respelled u) (hb : b.Respelled v) :
    (Expr.binary t a b).Respelled
      (Kind.lparen.mark :: (u ++ t.bare :: v ++ [Kind.rparen.mark])) where
  phrase := by
    have hpowers := Level.powers_of_mem_operators hkind
    refine group (Phrase.loosen_to (?_ : Phrase level _ _) ?_)
    · rw [bare, move]
      exact Phrase.binary hkind (ha.phrase.loosen_to hpowers.2.1) (hb.phrase.loosen_to hpowers.2.2)
    · exact hpowers.1
  scanned := by
    intro rest hrest
    simp only [render, List.append_assoc]
    rw [tokensOf_text .lparen rfl (by decide) fun _ => rfl,
      ha.scanned _ (Text.parted_append _ rfl), tokensOf_blank,
      hspelled.tokensOf_append (Kind.parts_space _ _), tokensOf_blank,
      hb.scanned _ (Text.parted_append rest rfl),
      tokensOf_text .rparen rfl (by decide) fun _ => rfl]
    simp
  starts := by
    simp only [render, List.append_assoc]
    rfl

/-- An entry of a collection. -/
theorem index (ht : t.bare = Kind.lbracket.mark) (ha : a.Respelled u) (hb : b.Respelled v) :
    (Expr.index t a b).Respelled
      (Kind.lparen.mark ::
        (u ++ t.bare :: (v ++ [Kind.rbracket.mark]) ++ [Kind.rparen.mark])) where
  phrase := by
    refine group (Phrase.loosen_to (?_ : Phrase .applied _ _) (by decide))
    rw [bare, move]
    exact Phrase.index ha.phrase (congrArg Token.kind ht) hb.loosest rfl
  scanned := by
    intro rest hrest
    have htext : Text.ofString "])" = Text.ofString "]" ++ Text.ofString ")" := rfl
    simp only [render, List.append_assoc, htext]
    rw [tokensOf_text .lparen rfl (by decide) fun _ => rfl,
      ha.scanned _ (Text.parted_append _ rfl),
      tokensOf_text .lbracket rfl (by decide) fun _ => rfl,
      hb.scanned _ (Text.parted_append _ rfl),
      tokensOf_text .rbracket rfl (by decide) fun _ => rfl,
      tokensOf_text .rparen rfl (by decide) fun _ => rfl, ht]
    simp
  starts := by
    simp only [render, List.append_assoc]
    rfl

end Expr.Respelled

/-! ## Lists -/

namespace Expr.Respelled

variable {t : Token} {e f k : Expr} {list : List Expr} {pairs : List (Expr × Expr)}
  {u v w : List Token}

/-- A call. -/
theorem call (ht : t.bare = Kind.lparen.mark) (hf : f.Respelled u)
    (hlisting : Listing (Phrase .equality) w (moveAll (fun _ => .start) list))
    (hscanned : (Text.joined ", " (renderAll list)).ScannedAs w) :
    (Expr.call t f list).Respelled (u ++ t.bare :: (w ++ [Kind.rparen.mark])) where
  phrase := by
    rw [Expr.bare, Expr.move]
    exact Phrase.call hf.phrase (congrArg Token.kind ht) hlisting rfl
  scanned := by
    intro rest hrest
    simp only [Expr.render, List.append_assoc]
    rw [hf.scanned _ (Text.parted_append _ rfl),
      tokensOf_text .lparen rfl (by decide) fun _ => rfl,
      hscanned _ (Text.parted_append _ rfl),
      tokensOf_text .rparen rfl (by decide) fun _ => rfl, ht]
    simp
  starts := by
    simp only [Expr.render, List.append_assoc]
    exact Text.any_head?_append _ hf.starts

/-- An array literal. -/
theorem array (ht : t.bare = Kind.lbracket.mark)
    (hlisting : Listing (Phrase .equality) w (moveAll (fun _ => .start) list))
    (hscanned : (Text.joined ", " (renderAll list)).ScannedAs w) :
    (Expr.array t list).Respelled (t.bare :: (w ++ [Kind.rbracket.mark])) where
  phrase := by
    rw [Expr.bare, Expr.move]
    exact (Phrase.array (congrArg Token.kind ht) hlisting rfl).loosen_to (by decide)
  scanned := by
    intro rest hrest
    simp only [Expr.render, List.append_assoc]
    rw [tokensOf_text .lbracket rfl (by decide) fun _ => rfl,
      hscanned _ (Text.parted_append _ rfl),
      tokensOf_text .rbracket rfl (by decide) fun _ => rfl, ht]
    simp
  starts := by
    simp only [Expr.render, List.append_assoc]
    rfl

/-- A hash literal. -/
theorem hash (ht : t.bare = Kind.lbrace.mark)
    (hentries : Entries w (movePairs (fun _ => .start) pairs))
    (hscanned : (Text.joined ", " (renderPairs pairs)).ScannedAs w) :
    (Expr.hash t pairs).Respelled (t.bare :: (w ++ [Kind.rbrace.mark])) where
  phrase := by
    rw [Expr.bare, Expr.move]
    exact (Phrase.hash (congrArg Token.kind ht) hentries rfl).loosen_to (by decide)
  scanned := by
    intro rest hrest
    simp only [Expr.render, List.append_assoc]
    rw [tokensOf_text .lbrace rfl (by decide) fun _ => rfl,
      hscanned _ (Text.parted_append _ rfl),
      tokensOf_text .rbrace rfl (by decide) fun _ => rfl, ht]
    simp
  starts := by
    simp only [Expr.render, List.append_assoc]
    rfl

/-- The text of an entry. -/
theorem entry (hk : k.Respelled u) (he : e.Respelled v) :
    (k.render ++ Text.ofString ":" ++ e.render).ScannedAs (u ++ Kind.colon.mark :: v) := by
  intro rest hrest
  simp only [List.append_assoc]
  rw [hk.scanned _ (Text.parted_append _ rfl),
    tokensOf_text .colon rfl (by decide) fun _ => rfl, he.scanned rest hrest]
  simp

end Expr.Respelled

/-- Texts with commas between them. -/
theorem Text.ScannedAs.joined_cons {text : Text} {texts : List Text} {v w : List Token}
    (hne : texts ≠ []) (h : text.ScannedAs v) (hrest : (Text.joined ", " texts).ScannedAs w) :
    (Text.joined ", " (text :: texts)).ScannedAs (v ++ Kind.comma.mark :: w) := by
  obtain ⟨next, more, rfl⟩ := List.exists_cons_of_ne_nil hne
  have hjoined : Text.joined ", " (text :: next :: more) =
      text ++ (Text.ofString ", " ++ Text.joined ", " (next :: more)) := by
    simp [Text.joined, List.intercalate]
  intro rest hparted
  rw [hjoined]
  simp only [List.append_assoc]
  rw [h _ (Text.parted_append _ rfl), tokensOf_comma, hrest rest hparted]
  simp

theorem Text.ScannedAs.joined_single {text : Text} {w : List Token} (h : text.ScannedAs w) :
    (Text.joined ", " [text]).ScannedAs w := by
  have hjoined : Text.joined ", " [text] = text := by simp [Text.joined, List.intercalate]
  rwa [hjoined]

/-! ## Derivations -/

/-- All of the tokens are genuine. -/
def AllGenuine (w : List Token) : Prop := ∀ t ∈ w, t.Genuine

@[simp]
theorem allGenuine_cons {t : Token} {w : List Token} :
    AllGenuine (t :: w) ↔ t.Genuine ∧ AllGenuine w :=
  List.forall_mem_cons

@[simp]
theorem allGenuine_append {u v : List Token} :
    AllGenuine (u ++ v) ↔ AllGenuine u ∧ AllGenuine v :=
  List.forall_mem_append

@[simp]
theorem allGenuine_nil : AllGenuine [] := List.forall_mem_nil _

theorem Level.spelled_of_mem_operators {level : Level} {t : Token} (h : t.kind ∈ level.operators)
    (hgenuine : t.Genuine) : t.Spelled := by
  cases level <;> simp [operators] at h <;> rcases h with h | h <;>
    exact hgenuine.spelled h rfl (by decide)

theorem Series.ne_nil {α : Type} {item : List Token → α → Prop} {w : List Token} {list : List α}
    (h : Series item w list) : list ≠ [] := by
  cases h <;> simp

theorem renderAll_ne_nil {list : List Expr} (h : list ≠ []) : renderAll list ≠ [] := by
  cases list with
  | nil => exact absurd rfl h
  | cons e rest => simp [renderAll]

-- The induction is on the derivation; lists are opened along with their items.
mutual

theorem Phrase.respelled {level : Level} {w : List Token} {e : Expr} (h : Phrase level w e)
    (hgenuine : AllGenuine w) (hplain : e.isPlain = true) : ∃ tokens, e.Respelled tokens := by
  match h with
  | .binary operator left right =>
      simp only [allGenuine_append, allGenuine_cons] at hgenuine
      simp only [Expr.isPlain, Bool.and_eq_true] at hplain
      obtain ⟨u, hleft⟩ := left.respelled hgenuine.1 hplain.1
      obtain ⟨v, hright⟩ := right.respelled hgenuine.2.2 hplain.2
      have hspelled := Level.spelled_of_mem_operators operator hgenuine.2.1
      exact ⟨_, Expr.Respelled.binary hspelled operator hleft hright⟩
  | .loosen _ inner => exact inner.respelled hgenuine hplain
  | .unary operator operand =>
      simp only [allGenuine_cons] at hgenuine
      simp only [Expr.isPlain] at hplain
      obtain ⟨v, hoperand⟩ := operand.respelled hgenuine.2 hplain
      have hspelled := operator.elim (fun h => hgenuine.1.spelled h rfl (by decide))
        fun h => hgenuine.1.spelled h rfl (by decide)
      exact ⟨_, Expr.Respelled.unary hspelled operator hoperand⟩
  | .call callee hopening list hclosing =>
      simp only [allGenuine_append, allGenuine_cons] at hgenuine
      simp only [Expr.isPlain, Bool.and_eq_true] at hplain
      obtain ⟨u, hcallee⟩ := callee.respelled hgenuine.1 hplain.1
      obtain ⟨v, hlisting, hscanned⟩ := list.respelled hgenuine.2.2.1 hplain.2
      have hmark := hgenuine.2.1.bare_eq hopening (by decide)
      exact ⟨_, Expr.Respelled.call hmark hcallee hlisting hscanned⟩
  | .index collection hopening key hclosing =>
      simp only [allGenuine_append, allGenuine_cons] at hgenuine
      simp only [Expr.isPlain, Bool.and_eq_true] at hplain
      obtain ⟨u, hcollection⟩ := collection.respelled hgenuine.1 hplain.1
      obtain ⟨v, hkey⟩ := key.respelled hgenuine.2.2.1 hplain.2
      have hmark := hgenuine.2.1.bare_eq hopening (by decide)
      exact ⟨_, Expr.Respelled.index hmark hcollection hkey⟩
  | .ident h =>
      exact ⟨_, Expr.Respelled.single (hgenuine _ List.mem_cons_self) h (by decide) rfl
        (Phrase.ident h)⟩
  | .int h hvalue =>
      exact ⟨_, Expr.Respelled.single (hgenuine _ List.mem_cons_self) h (by decide) rfl
        (Phrase.int h hvalue)⟩
  | .string h => simp [Expr.isPlain] at hplain
  | .yes h =>
      exact ⟨_, Expr.Respelled.single (hgenuine _ List.mem_cons_self) h (by decide) rfl
        (Phrase.yes h)⟩
  | .no h =>
      exact ⟨_, Expr.Respelled.single (hgenuine _ List.mem_cons_self) h (by decide) rfl
        (Phrase.no h)⟩
  | .group hopening inner hclosing =>
      simp only [allGenuine_append, allGenuine_cons] at hgenuine
      exact inner.respelled hgenuine.2.1 hplain
  | .cond _ _ _ => simp [Expr.isPlain] at hplain
  | .condElse _ _ _ _ _ => simp [Expr.isPlain] at hplain
  | .function _ _ _ _ _ => simp [Expr.isPlain] at hplain
  | .array hopening list hclosing =>
      simp only [allGenuine_append, allGenuine_cons] at hgenuine
      simp only [Expr.isPlain] at hplain
      obtain ⟨v, hlisting, hscanned⟩ := list.respelled hgenuine.2.1 hplain
      have hmark := hgenuine.1.bare_eq hopening (by decide)
      exact ⟨_, Expr.Respelled.array hmark hlisting hscanned⟩
  | .hash hopening entries hclosing =>
      simp only [allGenuine_append, allGenuine_cons] at hgenuine
      simp only [Expr.isPlain] at hplain
      obtain ⟨v, hentries, hscanned⟩ := entries.respelled hgenuine.2.1 hplain
      have hmark := hgenuine.1.bare_eq hopening (by decide)
      exact ⟨_, Expr.Respelled.hash hmark hentries hscanned⟩

theorem Listing.respelled {w : List Token} {list : List Expr}
    (h : Listing (Phrase .equality) w list) (hgenuine : AllGenuine w)
    (hplain : allPlain list = true) :
    ∃ tokens, Listing (Phrase .equality) tokens (moveAll (fun _ => .start) list) ∧
      (Text.joined ", " (renderAll list)).ScannedAs tokens := by
  match h with
  | .none =>
      refine ⟨[], ?_, fun rest _ => rfl⟩
      rw [moveAll]
      exact Listing.none
  | .some series =>
      obtain ⟨tokens, hseries, hscanned⟩ := series.respelled hgenuine hplain
      exact ⟨tokens, Listing.some hseries, hscanned⟩

theorem Series.respelled {w : List Token} {list : List Expr}
    (h : Series (Phrase .equality) w list) (hgenuine : AllGenuine w)
    (hplain : allPlain list = true) :
    ∃ tokens, Series (Phrase .equality) tokens (moveAll (fun _ => .start) list) ∧
      (Text.joined ", " (renderAll list)).ScannedAs tokens := by
  match h with
  | .one first =>
      simp only [allPlain, Bool.and_true] at hplain
      obtain ⟨v, hfirst⟩ := first.respelled hgenuine hplain
      simp only [moveAll, renderAll]
      exact ⟨v, Series.one hfirst.loosest, hfirst.scanned.joined_single⟩
  | .more first hcomma others =>
      simp only [allGenuine_append, allGenuine_cons] at hgenuine
      simp only [allPlain, Bool.and_eq_true] at hplain
      obtain ⟨u, hfirst⟩ := first.respelled hgenuine.1 hplain.1
      obtain ⟨v, hothers, hscanned⟩ := others.respelled hgenuine.2.2 hplain.2
      simp only [moveAll, renderAll]
      refine ⟨_, Series.more hfirst.loosest (rfl : Kind.comma.mark.kind = .comma) hothers, ?_⟩
      exact Text.ScannedAs.joined_cons (renderAll_ne_nil others.ne_nil) hfirst.scanned hscanned

theorem Entries.respelled {w : List Token} {pairs : List (Expr × Expr)} (h : Entries w pairs)
    (hgenuine : AllGenuine w) (hplain : pairsPlain pairs = true) :
    ∃ tokens, Entries tokens (movePairs (fun _ => .start) pairs) ∧
      (Text.joined ", " (renderPairs pairs)).ScannedAs tokens := by
  match pairs, h with
  | _, .none =>
      simp only [movePairs, renderPairs]
      exact ⟨[], Entries.none, fun rest _ => rfl⟩
  | _, .last key hcolon value =>
      simp only [allGenuine_append, allGenuine_cons] at hgenuine
      simp only [pairsPlain, Bool.and_eq_true] at hplain
      obtain ⟨u, hkey⟩ := key.respelled hgenuine.1 hplain.1.1
      obtain ⟨v, hvalue⟩ := value.respelled hgenuine.2.2 hplain.1.2
      simp only [movePairs, renderPairs]
      exact ⟨_, Entries.last hkey.loosest rfl hvalue.loosest,
        (hkey.entry hvalue).joined_single⟩
  | _ :: rest, .more key hcolon value hcomma others =>
      simp only [allGenuine_append, allGenuine_cons] at hgenuine
      simp only [pairsPlain, Bool.and_eq_true] at hplain
      obtain ⟨u, hkey⟩ := key.respelled hgenuine.1 hplain.1.1
      obtain ⟨v, hvalue⟩ := value.respelled hgenuine.2.2.1 hplain.1.2
      obtain ⟨tokens, hothers, hscanned⟩ := others.respelled hgenuine.2.2.2.2 hplain.2
      simp only [movePairs, renderPairs]
      -- The comma behind the last entry is not written again.
      cases rest with
      | nil =>
          simp only [movePairs, renderPairs]
          exact ⟨_, Entries.last hkey.loosest rfl hvalue.loosest,
            (hkey.entry hvalue).joined_single⟩
      | cons entry rest =>
          have htexts : renderPairs (entry :: rest) ≠ [] := by
            obtain ⟨key, value⟩ := entry
            simp [renderPairs]
          have hjoined := Text.ScannedAs.joined_cons htexts (hkey.entry hvalue) hscanned
          have htokens : u ++ Kind.colon.mark :: v ++ Kind.comma.mark :: tokens =
              u ++ Kind.colon.mark :: (v ++ Kind.comma.mark :: tokens) := by
            simp
          rw [htokens] at hjoined
          exact ⟨_, Entries.more hkey.loosest rfl hvalue.loosest
            (rfl : Kind.comma.mark.kind = .comma) hothers, hjoined⟩

end

/-! ## Statements -/

/-- In the statement stands no string, no conditional and no function. -/
def Stmt.isPlain : Stmt → Bool
  | .bind _ _ value | .leave _ (some value) | .expr _ value => value.isPlain
  | .leave _ none => true

/-- The statement without the token that an expression in it starts with. -/
def Stmt.unled : Stmt → Stmt
  | .expr _ value => .expr ⟨.eof, [], .start⟩ value
  | s => s

/-- The statement, wherever its tokens stand, and whatever token an expression in it
starts with. -/
def Stmt.outline (s : Stmt) : Stmt := (s.move fun _ => .start).unled

theorem tokensOf_assign (rest : Text) :
    tokensOf (Text.ofString " = " ++ rest) = Kind.assign.mark :: tokensOf rest := by
  have htext : Text.ofString " = " ++ rest =
      Text.ofString " " ++ (Kind.assign.name ++ (Text.ofString " " ++ rest)) := rfl
  rw [htext, tokensOf_blank, tokensOf_mark (by decide) (Kind.parts_space _ _), tokensOf_blank]

/-- The end of a statement. -/
theorem tokensOf_semicolon :
    tokensOf (Text.ofString ";") = [Kind.semicolon.mark, ⟨.eof, [], .start⟩] := by
  have hsemicolon : tokensOf (Text.ofString ";" ++ []) = Kind.semicolon.mark :: tokensOf [] :=
    tokensOf_text .semicolon rfl (by decide) (fun _ => rfl) []
  rwa [List.append_nil, tokensOf_nil] at hsemicolon

/-- An expression at the end of a statement. -/
theorem Expr.Respelled.ended {e : Expr} {w : List Token} (h : e.Respelled w) :
    tokensOf (e.render ++ Text.ofString ";") =
      w ++ [Kind.semicolon.mark, ⟨.eof, [], .start⟩] := by
  have hparted : (Text.ofString ";" ++ []).Parted := Text.parted_append [] rfl
  rw [List.append_nil] at hparted
  rw [h.scanned _ hparted, tokensOf_semicolon]

/-- A `return` without a value. -/
theorem Token.Genuine.respelled_leave {t : Token} (h : t.Genuine) (hkind : t.kind = .returnWord) :
    ∃ tokens s', Sentence .eof tokens s' ∧ s'.unled = (Stmt.leave t none).outline ∧
      tokensOf (Stmt.leave t none).render = tokens ++ [⟨.eof, [], .start⟩] := by
  have hreturn := h.spelled hkind rfl (by decide)
  have htext : Text.ofString " ;" = Text.ofString " " ++ Text.ofString ";" := rfl
  refine ⟨_, _, Sentence.leaveMarked (t := t.bare) hkind
    (rfl : Kind.semicolon.mark.kind = .semicolon), ?_, ?_⟩
  · rw [Stmt.outline, Stmt.move]
    rfl
  · rw [Stmt.render, htext, hreturn.tokensOf_append (Kind.parts_space _ _), tokensOf_blank,
      tokensOf_semicolon]
    rfl

/-- The canonical text of the statement is scanned as tokens that are a statement of the
same outline. -/
theorem Sentence.respelled {behind : Kind} {w : List Token} {s : Stmt} (h : Sentence behind w s)
    (hgenuine : AllGenuine w) (hplain : s.isPlain = true) :
    ∃ tokens s', Sentence .eof tokens s' ∧ s'.unled = s.outline ∧
      tokensOf s.render = tokens ++ [⟨.eof, [], .start⟩] := by
  cases h with
  | bind h hname hsign value ending =>
      simp only [allGenuine_append, allGenuine_cons] at hgenuine
      simp only [Stmt.isPlain] at hplain
      obtain ⟨v, hvalue⟩ := value.respelled hgenuine.2.2.2.1 hplain
      have hlet := hgenuine.1.spelled h rfl (by decide)
      have hspelled := hgenuine.2.1.spelled hname rfl (by decide)
      have hword : Kind.ident ∉ Kind.marks := by decide
      refine ⟨_, _, Sentence.bind (t := Token.bare _) h
        (show (Token.bare _).kind = .ident from hname) (rfl : Kind.assign.mark.kind = .assign)
        hvalue.loosest
        (.semicolon (t := Kind.semicolon.mark) rfl), ?_, ?_⟩
      · rw [Stmt.outline, Stmt.move]
        rfl
      · simp only [Stmt.render, List.append_assoc]
        rw [hlet.tokensOf_append (Kind.parts_space _ _), tokensOf_blank,
          hspelled.tokensOf_append
            (Kind.parts_of_parted (hname ▸ hword) (Text.parted_append _ rfl)), tokensOf_assign,
          hvalue.ended]
        simp
  | leave h _ => exact (hgenuine _ List.mem_cons_self).respelled_leave h
  | leaveMarked h _ => exact (hgenuine _ List.mem_cons_self).respelled_leave h
  | leaveWith h value ending =>
      simp only [allGenuine_append, allGenuine_cons] at hgenuine
      simp only [Stmt.isPlain] at hplain
      obtain ⟨v, hvalue⟩ := value.respelled hgenuine.2.1 hplain
      have hreturn := hgenuine.1.spelled h rfl (by decide)
      refine ⟨_, _, Sentence.leaveWith (t := Token.bare _) h hvalue.loosest
        (.semicolon (t := Kind.semicolon.mark) rfl), ?_, ?_⟩
      · rw [Stmt.outline, Stmt.move]
        rfl
      · simp only [Stmt.render, List.append_assoc]
        rw [hreturn.tokensOf_append (Kind.parts_space _ _), tokensOf_blank,
          hvalue.ended]
        simp
  | expr value ending =>
      rw [← List.cons_append, allGenuine_append] at hgenuine
      simp only [Stmt.isPlain] at hplain
      obtain ⟨v, hvalue⟩ := value.respelled hgenuine.1 hplain
      obtain ⟨first, more, rfl⟩ := List.exists_cons_of_ne_nil hvalue.loosest.ne_nil
      have hscanned := hvalue.scanned [] Text.parted_nil
      rw [List.append_nil, tokensOf_nil] at hscanned
      refine ⟨_, _, Sentence.expr hvalue.loosest (.omitted (by decide)), ?_, ?_⟩
      · rw [Stmt.outline, Stmt.move]
        rfl
      · rw [Stmt.render, hscanned]
        simp

/-! ## Programs of one statement -/

/-- The canonical text shows the outline and no more. -/
theorem Stmt.render_outline (s : Stmt) : s.outline.render = s.render := by
  have hunled (s : Stmt) : s.unled.render = s.render := by cases s <;> rfl
  rw [outline, hunled, render_move]

/-- A statement among others is derived from some of the tokens. -/
theorem Body.exists_sentence {behind : Kind} {w : List Token} {list : List Stmt} {s : Stmt}
    (h : Body behind w list) (hs : s ∈ list) : ∃ kind u, Sentence kind u s ∧ u ⊆ w := by
  match h with
  | .done => cases hs
  | .semicolon _ rest =>
      obtain ⟨kind, u, hsentence, hsubset⟩ := rest.exists_sentence hs
      exact ⟨kind, u, hsentence, List.subset_cons_of_subset _ hsubset⟩
  | .statement first rest =>
      rcases List.mem_cons.1 hs with rfl | hs
      · exact ⟨_, _, first, List.subset_append_left _ _⟩
      · obtain ⟨kind, u, hsentence, hsubset⟩ := rest.exists_sentence hs
        exact ⟨kind, u, hsentence, List.subset_append_of_subset_right _ hsubset⟩

/-- A text is read as its tokens are, wherever they stand. -/
theorem exists_parse?_iff_derives {text : Text} {tokens : List Token} {last : Token} {p : Program}
    (htokens : tokensOf text = tokens ++ [last]) :
    (∃ q, parse? text = .ok q ∧ q.move (fun _ => .start) = p) ↔ p.Derives tokens := by
  obtain ⟨shared, final, hscan, hfinal⟩ := (Scanner.start text).drain_eq_concat
  have hmoved := parseTokens_move (fun _ => .start) shared hfinal
  rw [← hscan] at hmoved
  rw [← beforeEnd_tokensOf htokens, derives_iff_parseTokens]
  constructor
  · rintro ⟨q, hparse, rfl⟩
    rw [parse?_eq_ok_iff] at hparse
    refine hmoved.trans ?_
    change Prod.map _ _ (parse text) = _
    rw [hparse]
    rfl
  · intro hread
    obtain ⟨hprogram, herrors⟩ := Prod.ext_iff.1 (hmoved.symm.trans hread)
    have hclean : (parse text).2 = [] := List.map_eq_nil_iff.1 herrors
    exact ⟨(parse text).1, parse?_eq_ok_iff.2 (Prod.ext rfl hclean), hprogram⟩

/-- A text whose tokens are a statement is read as that statement. -/
theorem parse_of_tokensOf {text : Text} {tokens : List Token} {last : Token} {s : Stmt}
    (htokens : tokensOf text = tokens ++ [last]) (h : Sentence .eof tokens s) :
    ∃ s', parse? text = .ok ⟨[s']⟩ ∧ (s'.move fun _ => .start) = s := by
  have hderives : Program.Derives ⟨[s]⟩ tokens := by
    have hbody : Body .eof (tokens ++ []) [s] := Body.statement h Body.done
    rwa [List.append_nil] at hbody
  obtain ⟨⟨list⟩, hparse, hmove⟩ := (exists_parse?_iff_derives htokens).2 hderives
  have hlist : list.map (Stmt.move fun _ => .start) = [s] := congrArg Program.statements hmove
  obtain ⟨s', rfl, hs⟩ := List.map_eq_singleton_iff.1 hlist
  exact ⟨s', hparse, hs⟩

/-- A text whose tokens are an expression is read as that expression. -/
theorem parse_of_phrase {text : Text} {tokens : List Token} {last : Token} {e : Expr}
    (htokens : tokensOf text = tokens ++ [last]) (h : Phrase .equality tokens e) :
    ∃ t e', parse? text = .ok ⟨[.expr t e']⟩ ∧ e.Copy .placed e' := by
  obtain ⟨first, more, rfl⟩ := List.exists_cons_of_ne_nil h.ne_nil
  have hsentence : Sentence .eof (first :: (more ++ [])) (.expr first e) :=
    .expr h (.omitted (by decide))
  rw [List.append_nil] at hsentence
  obtain ⟨s, hparse, hmove⟩ := parse_of_tokensOf htokens hsentence
  cases s <;>
    simp only [Stmt.move_bind, Stmt.move_leave, Stmt.move_expr, reduceCtorEq,
      Stmt.expr.injEq] at hmove
  next t e' =>
  refine ⟨t, e', hparse, Expr.copy_of_bare ?_⟩
  rw [← hmove.2, Expr.move_move]
  rfl

/-- The canonical text of a plain statement is accepted, and read with the same outline. -/
theorem exists_parse?_render {source : Text} {s : Stmt} (h : parse? source = .ok ⟨[s]⟩)
    (hplain : s.isPlain = true) :
    ∃ s', parse? (Program.render ⟨[s]⟩) = .ok ⟨[s']⟩ ∧ s'.outline = s.outline := by
  have hderives := derives_iff_parseTokens.2 (parse?_eq_ok_iff.1 h)
  obtain ⟨kind, w, hsentence, hsubset⟩ := Body.exists_sentence hderives List.mem_cons_self
  have hgenuine : AllGenuine w := by
    intro t ht
    exact genuine_of_mem_scan ((List.takeWhile_sublist _).subset (hsubset ht))
  obtain ⟨tokens, s', hsentence', hunled, htokens⟩ := hsentence.respelled hgenuine hplain
  obtain ⟨t, hparse, hmove⟩ := parse_of_tokensOf htokens hsentence'
  refine ⟨t, ?_, ?_⟩
  · rw [Program.render, renderStatements, renderStatements, List.append_nil]
    exact hparse
  · rw [Stmt.outline, hmove, hunled]

/-- **The canonical text reads back.**  If a source is read as one statement without
strings, conditionals and functions, its canonical text is accepted and read as the same
statement, but for the places of tokens and the token that an expression starts with.  So
it has the same canonical text, and all such statements with that text are the same. -/
theorem rendering_reads_back (source : Text) (s : Stmt) (h : parse? source = .ok ⟨[s]⟩)
    (hplain : s.isPlain = true) :
    ∃ s', parse? (Program.render ⟨[s]⟩) = .ok ⟨[s']⟩ ∧ s'.outline = s.outline ∧
      Program.render ⟨[s']⟩ = Program.render ⟨[s]⟩ ∧
        ∀ other t, parse? other = .ok ⟨[t]⟩ → t.isPlain = true →
          Program.render ⟨[t]⟩ = Program.render ⟨[s]⟩ → t.outline = s.outline := by
  obtain ⟨s', hparse, houtline⟩ := exists_parse?_render h hplain
  refine ⟨s', hparse, houtline, ?_, ?_⟩
  · simp only [Program.render, renderStatements]
    rw [← s'.render_outline, houtline, s.render_outline]
  · intro other t ht htplain hrender
    obtain ⟨t', hparse', houtline'⟩ := exists_parse?_render ht htplain
    rw [hrender, hparse] at hparse'
    cases hparse'
    rw [← houtline', houtline]

/-- A source with every plain construct in it, comments and a comma that is not needed. -/
def busySource : Text :=
  "let x = -f(1, !a)[(2 * 03) == b] // c\n + \x7b true: [], (4): g()(5),\x7d;"

/-- Its canonical text. -/
def busyText : Text :=
  "let x = ((-(f(1, (!a))[((2 * 03) == b)])) + \x7btrue:[], 4:g()(5)\x7d);"

theorem rendering_reads_back_of_busy :
    ∃ s, parse? busySource = .ok ⟨[s]⟩ ∧ s.isPlain = true ∧ Program.render ⟨[s]⟩ = busyText ∧
      ∃ s', parse? busyText = .ok ⟨[s']⟩ ∧ s'.outline = s.outline := by
  have hclean : (parse busySource).2 = [] := by decide +kernel
  have hone : (parse busySource).1.statements.length = 1 := by decide +kernel
  have hplain : (parse busySource).1.statements.all Stmt.isPlain = true := by decide +kernel
  have hrender : (parse busySource).1.render = busyText := by decide +kernel
  obtain ⟨s, hs⟩ := List.length_eq_one_iff.1 hone
  have hprogram : (parse busySource).1 = ⟨[s]⟩ := by rw [← hs]
  rw [hprogram] at hplain hrender
  have hparse : parse? busySource = .ok ⟨[s]⟩ := parse?_eq_ok_iff.2 (Prod.ext hprogram hclean)
  have hs : s.isPlain = true := by simpa using hplain
  obtain ⟨s', hparse', houtline, _⟩ := rendering_reads_back busySource s hparse hs
  rw [hrender] at hparse'
  exact ⟨s, hparse, hs, hrender, s', hparse', houtline⟩

end MonkeyLang
