import MonkeyLang.Token.Scanner

/-!
# White space and comments

Between two tokens there may stand white space and comments, and nothing else.  `Gap`
says which texts those are, without a word about scanning.  What a scanner passes over
is always such a text (`gap_splitGap`), and in front of any text such a gap is passed
over as a whole (`splitGap_append_of_gap`).

The key fact about comments is that a comment is over with its line: only the last
comment of a source may lack the newline.
-/

namespace MonkeyLang

/-- The bytes of white space. -/
def whiteSpace : Text := Text.ofString " \t\r\n"

/-- White space and comments.  A comment ends with its line; at the end of a source the
last one may end with the source. -/
inductive Gap (atEnd : Bool) : Text → Prop
  | nil : Gap atEnd []
  | space {b : UInt8} {rest : Text} (hspace : b ∈ whiteSpace) (hrest : Gap atEnd rest) :
      Gap atEnd (b :: rest)
  | comment {body rest : Text} (hbody : Text.newline ∉ body) (hrest : Gap atEnd rest) :
      Gap atEnd (Text.ofString "//" ++ body ++ Text.newline :: rest)
  | lastComment {body : Text} (hend : atEnd = true) (hbody : Text.newline ∉ body) :
      Gap atEnd (Text.ofString "//" ++ body)

theorem mem_whiteSpace {b : UInt8} : b ∈ whiteSpace ↔ isSpace b = true := by
  have hbytes : whiteSpace = [' '.toUInt8, '\t'.toUInt8, '\r'.toUInt8, '\n'.toUInt8] := by decide
  simp only [hbytes, List.mem_cons, List.not_mem_nil, or_false, isSpace, Bool.or_eq_true,
    beq_iff_eq]
  grind

theorem slashes_eq : Text.ofString "//" = ['/'.toUInt8, '/'.toUInt8] := by decide

/-! ## One byte passed over -/

theorem splitGap_of_space {b : UInt8} (h : isSpace b = true) (rest : Text) :
    splitGap false (b :: rest) = (b :: (splitGap false rest).1, (splitGap false rest).2) := by
  rw [splitGap]
  simp [h]

/-- Two slashes start a comment. -/
theorem splitGap_of_slashes (rest : Text) :
    splitGap false ('/'.toUInt8 :: '/'.toUInt8 :: rest) =
      ('/'.toUInt8 :: (splitGap true ('/'.toUInt8 :: rest)).1,
        (splitGap true ('/'.toUInt8 :: rest)).2) :=
  rfl

/-- A byte that is no newline stays in the comment. -/
theorem splitGap_of_comment {b : UInt8} (h : b ≠ Text.newline) (rest : Text) :
    splitGap true (b :: rest) = (b :: (splitGap true rest).1, (splitGap true rest).2) := by
  rw [splitGap]
  simp [bne_iff_ne.2 h]

/-- A newline ends the comment. -/
theorem splitGap_of_newline (rest : Text) :
    splitGap true (Text.newline :: rest) =
      (Text.newline :: (splitGap false rest).1, (splitGap false rest).2) :=
  rfl

/-- A byte that is no space and starts no comment belongs to a token. -/
theorem splitGap_of_byte {b : UInt8} {rest : Text} (hspace : isSpace b = false)
    (hslash : b = '/'.toUInt8 → rest.head? ≠ some '/'.toUInt8) :
    splitGap false (b :: rest) = ([], b :: rest) := by
  unfold splitGap
  by_cases hb : b = '/'.toUInt8
  · simp [hspace, hslash hb]
  · simp [hspace, hb]

/-- What a text begins with: white space, a comment, or a token. -/
theorem gap_start_cases (b : UInt8) (rest : Text) :
    isSpace b = true ∨ (∃ more, b = '/'.toUInt8 ∧ rest = '/'.toUInt8 :: more) ∨
      isSpace b = false ∧ (b = '/'.toUInt8 → rest.head? ≠ some '/'.toUInt8) := by
  by_cases hspace : isSpace b = true
  · exact Or.inl hspace
  · by_cases hslash : b = '/'.toUInt8 → rest.head? ≠ some '/'.toUInt8
    · exact Or.inr (Or.inr ⟨Bool.eq_false_iff.2 hspace, hslash⟩)
    · obtain ⟨hb, hhead⟩ := Classical.not_imp.1 hslash
      obtain ⟨more, hmore⟩ := List.head?_eq_some_iff.1 (Classical.not_not.1 hhead)
      exact Or.inr (Or.inl ⟨more, hb, hmore⟩)

/-! ## What is passed over is a gap -/

/-- What is left of a gap inside a comment: the rest of the line and a gap behind it,
or a line that ends with the source. -/
inductive CommentTail (atEnd : Bool) : Text → Prop
  | closed {body rest : Text} (hbody : Text.newline ∉ body) (hrest : Gap atEnd rest) :
      CommentTail atEnd (body ++ Text.newline :: rest)
  | last {body : Text} (hend : atEnd = true) (hbody : Text.newline ∉ body) :
      CommentTail atEnd body

theorem CommentTail.cons {atEnd : Bool} {b : UInt8} {tail : Text} (hb : b ≠ Text.newline)
    (h : CommentTail atEnd tail) : CommentTail atEnd (b :: tail) := by
  cases h with
  | @closed body rest hbody hrest =>
      have hline : Text.newline ∉ b :: body := by simp [hb.symm, hbody]
      exact .closed hline hrest
  | last hend hbody => exact .last hend (by simp [hb.symm, hbody])

/-- A slash and what begins with another one inside a comment are a gap. -/
theorem CommentTail.gap {atEnd : Bool} {tail : Text}
    (h : CommentTail atEnd ('/'.toUInt8 :: tail)) :
    Gap atEnd ('/'.toUInt8 :: '/'.toUInt8 :: tail) := by
  have hslash : '/'.toUInt8 ≠ Text.newline := by decide
  generalize htext : '/'.toUInt8 :: tail = text at h
  cases h with
  | @closed body rest hbody hrest =>
      cases body with
      | nil => exact absurd (List.cons.inj htext).1 hslash
      | cons b body =>
          obtain ⟨rfl, rfl⟩ := List.cons.inj htext
          have hgap := Gap.comment (fun hmem => hbody (List.mem_cons_of_mem _ hmem)) hrest
          rwa [slashes_eq] at hgap
  | last hend hbody =>
      subst htext
      have hgap := Gap.lastComment hend (fun hmem => hbody (List.mem_cons_of_mem _ hmem))
      rwa [slashes_eq] at hgap

/-- What is passed over is a gap, and inside a comment it is the rest of one.  A comment
may lack its newline only if nothing is left behind it. -/
theorem gap_and_commentTail (text : Text) :
    Gap (splitGap false text).2.isEmpty (splitGap false text).1 ∧
      CommentTail (splitGap true text).2.isEmpty (splitGap true text).1 := by
  induction text with
  | nil => exact ⟨.nil, .last rfl (by simp [splitGap])⟩
  | cons b rest ih =>
      obtain ⟨hgap, htail⟩ := ih
      constructor
      · rcases gap_start_cases b rest with hspace | ⟨more, rfl, rfl⟩ | ⟨hspace, hslash⟩
        · rw [splitGap_of_space hspace]
          exact .space (mem_whiteSpace.2 hspace) hgap
        · rw [splitGap_of_comment (by decide)] at htail
          rw [splitGap_of_slashes, splitGap_of_comment (by decide)]
          exact htail.gap
        · rw [splitGap_of_byte hspace hslash]
          exact .nil
      · by_cases hb : b = Text.newline
        · subst hb
          rw [splitGap_of_newline]
          exact .closed List.not_mem_nil hgap
        · rw [splitGap_of_comment hb]
          exact htail.cons hb

/-- **Only gaps are passed over.** -/
theorem gap_splitGap (text : Text) :
    Gap (splitGap false text).2.isEmpty (splitGap false text).1 :=
  (gap_and_commentTail text).1

/-! ## A gap is passed over -/

/-- A comment that has begun is passed over with its newline. -/
theorem splitGap_of_line {body : Text} (h : Text.newline ∉ body) (rest : Text) :
    splitGap true (body ++ Text.newline :: rest) =
      (body ++ Text.newline :: (splitGap false rest).1, (splitGap false rest).2) := by
  induction body with
  | nil => exact splitGap_of_newline rest
  | cons b body ih =>
      have hb : b ≠ Text.newline := fun hb => h (hb ▸ List.mem_cons_self)
      have hbody := ih fun hmem => h (List.mem_cons_of_mem b hmem)
      rw [List.cons_append, splitGap_of_comment hb, hbody, List.cons_append]

/-- **A gap in front is passed over**, and with it what else stands there to pass over. -/
theorem splitGap_append_of_gap {gap : Text} (h : Gap false gap) (rest : Text) :
    splitGap false (gap ++ rest) = (gap ++ (splitGap false rest).1, (splitGap false rest).2) := by
  induction h with
  | nil => rfl
  | space hspace _ ih =>
      rw [List.cons_append, splitGap_of_space (mem_whiteSpace.1 hspace), ih, List.cons_append]
  | @comment body gap hbody _ ih =>
      have hslash : Text.newline ∉ '/'.toUInt8 :: body := by simpa using ⟨by decide, hbody⟩
      have hline := splitGap_of_line hslash (gap ++ rest)
      simp only [slashes_eq, List.cons_append, List.nil_append, List.append_assoc] at hline ⊢
      rw [splitGap_of_slashes, hline, ih]
  | lastComment hend => cases hend

end MonkeyLang
