import MonkeyLang.Proofs.Tiling

/-!
# Lines of a text

A text is cut at its newlines in two ways.  `Text.lines` cuts it from front to back, and
a place is found by counting newlines and bytes behind the last of them.  Here the two
are brought together: around every index of a text there is one line, cut in two by the
index, and the place of the index says which line that is and how long its front is.
-/

namespace MonkeyLang

namespace Text

/-! ## Cutting at newlines -/

theorem lines_newline (rest : Text) : lines (newline :: rest) = [] :: lines rest := by
  simp [lines]

theorem lines_ne_nil (text : Text) : lines text ≠ [] := by
  cases text with
  | nil => simp [lines]
  | cons b rest =>
      unfold lines
      split
      · simp
      · split <;> simp

/-- Any other byte is the first one of the first line. -/
theorem lines_cons {b : UInt8} (hb : b ≠ newline) {rest line : Text} {more : List Text}
    (h : lines rest = line :: more) : lines (b :: rest) = (b :: line) :: more := by
  rw [lines, if_neg hb, h]

/-- The lines before a newline and those behind it are the lines of the whole. -/
theorem lines_append_newline (text rest : Text) :
    lines (text ++ newline :: rest) = lines text ++ lines rest := by
  induction text with
  | nil => exact lines_newline rest
  | cons b text ih =>
      by_cases hb : b = newline
      · rw [hb, List.cons_append, lines_newline, lines_newline, ih, List.cons_append]
      · obtain ⟨line, more, hlines⟩ := List.exists_cons_of_ne_nil (lines_ne_nil text)
        rw [hlines, List.cons_append] at ih
        rw [List.cons_append, lines_cons hb ih, lines_cons hb hlines, List.cons_append]

theorem lines_of_line {text : Text} (h : newline ∉ text) : lines text = [text] := by
  induction text with
  | nil => rfl
  | cons b text ih =>
      have hb : b ≠ newline := fun hb => h (hb ▸ List.mem_cons_self)
      exact lines_cons hb (ih fun hmem => h (List.mem_cons_of_mem b hmem))

/-- There is one line more than there are newlines. -/
theorem length_lines (text : Text) : (lines text).length = text.count newline + 1 := by
  induction text with
  | nil => rfl
  | cons b text ih =>
      by_cases hb : b = newline
      · rw [hb, lines_newline, List.length_cons, ih, List.count_cons_self]
      · obtain ⟨line, more, hlines⟩ := List.exists_cons_of_ne_nil (lines_ne_nil text)
        rw [lines_cons hb hlines, List.count_cons_of_ne hb, ← ih, hlines]
        rfl

/-- The lines of a text that ends a line, or of none. -/
theorem lines_append_of_closed {early : Text}
    (h : early = [] ∨ early.getLast? = some newline) (rest : Text) :
    ∃ above, lines (early ++ rest) = above ++ lines rest ∧
      above.length = early.count newline := by
  rcases h with rfl | hlast
  · exact ⟨[], rfl, rfl⟩
  · obtain ⟨init, rfl⟩ := List.getLast?_eq_some_iff.1 hlast
    refine ⟨lines init, ?_, ?_⟩
    · rw [List.append_assoc, List.singleton_append, lines_append_newline]
    · rw [length_lines, List.count_append, List.count_singleton_self]

/-! ## The line around an index -/

/-- The line of a text that an index falls on: `front` lies before the index and `back`
behind it.  Before the line stands nothing or a newline, and so behind it. -/
structure LineAt (text : Text) (index : Nat) (front back : Text) : Prop where
  split : ∃ early later, text = early ++ (front ++ back) ++ later ∧
    index = early.length + front.length ∧
    (early = [] ∨ early.getLast? = some newline) ∧ (later = [] ∨ later.head? = some newline)
  line : newline ∉ front ++ back

/-- The last line of a text. -/
theorem exists_front (text : Text) :
    ∃ early front, text = early ++ front ∧ newline ∉ front ∧
      (early = [] ∨ early.getLast? = some newline) := by
  induction text with
  | nil => exact ⟨[], [], rfl, List.not_mem_nil, Or.inl rfl⟩
  | cons b text ih =>
      obtain ⟨early, front, rfl, hfront, rfl | hlast⟩ := ih
      · by_cases hb : b = newline
        · exact ⟨[b], front, rfl, hfront, Or.inr (by rw [hb]; rfl)⟩
        · exact ⟨[], b :: front, rfl, by simp [Ne.symm hb, hfront], Or.inl rfl⟩
      · refine ⟨b :: early, front, rfl, hfront, Or.inr ?_⟩
        rw [List.getLast?_cons, hlast]
        rfl

/-- The first line of a text. -/
theorem exists_back (text : Text) :
    ∃ back later, text = back ++ later ∧ newline ∉ back ∧
      (later = [] ∨ later.head? = some newline) := by
  induction text with
  | nil => exact ⟨[], [], rfl, List.not_mem_nil, Or.inl rfl⟩
  | cons b text ih =>
      by_cases hb : b = newline
      · exact ⟨[], b :: text, rfl, List.not_mem_nil, Or.inr (by rw [hb]; rfl)⟩
      · obtain ⟨back, later, rfl, hback, hlater⟩ := ih
        exact ⟨b :: back, later, rfl, by simp [Ne.symm hb, hback], hlater⟩

/-- What stands before the index. -/
theorem take_front (early front back later : Text) :
    (early ++ (front ++ back) ++ later).take (early.length + front.length) = early ++ front := by
  rw [← List.append_assoc, List.append_assoc _ back, ← List.length_append, List.take_left]

/-- Around every index there is a line. -/
theorem exists_lineAt {text : Text} {index : Nat} (h : index ≤ text.length) :
    ∃ front back, LineAt text index front back := by
  obtain ⟨early, front, hbefore, hfront, hearly⟩ := exists_front (text.take index)
  obtain ⟨back, later, hrest, hback, hlater⟩ := exists_back (text.drop index)
  refine ⟨front, back, ⟨early, later, ?_, ?_, hearly, hlater⟩, ?_⟩
  · rw [← List.append_assoc, ← hbefore, List.append_assoc, ← hrest, List.take_append_drop]
  · rw [← List.length_append, ← hbefore, List.length_take]
    omega
  · simp [hfront, hback]

end Text

/-- Bytes of one line lead on along it. -/
theorem Position.after_of_line {text : Text} (h : Text.newline ∉ text) (p : Position) :
    p.after text = ⟨p.line, p.column + text.length⟩ := by
  induction text generalizing p with
  | nil => simp [after]
  | cons b text ih =>
      have hb : b ≠ Text.newline := fun hb => h (hb ▸ List.mem_cons_self)
      have hrest := ih (fun hmem => h (List.mem_cons_of_mem b hmem)) (p.step b)
      change (p.step b).after text = _
      rw [hrest]
      simp only [step, if_neg hb, List.length_cons, mk.injEq, true_and]
      omega

/-- Behind a newline, and at the start, columns begin anew. -/
theorem Text.column_endPlace {early : Text}
    (h : early = [] ∨ early.getLast? = some Text.newline) : early.endPlace.column = 1 := by
  rcases h with rfl | hlast
  · rfl
  · obtain ⟨init, rfl⟩ := List.getLast?_eq_some_iff.1 hlast
    rw [endPlace_concat]
    rfl

namespace Text.LineAt

variable {text front back : Text} {index : Nat}

/-- The place of an index has the column behind the front of its line. -/
theorem column_eq (h : text.LineAt index front back) :
    (Text.endPlace (text.take index)).column = 1 + front.length := by
  obtain ⟨early, later, htext, hindex, hearly, _⟩ := h.split
  have hfront : newline ∉ front := fun hmem => h.line (List.mem_append_left back hmem)
  rw [htext, hindex, take_front, endPlace_append, Position.after_of_line hfront]
  change early.endPlace.column + front.length = 1 + front.length
  rw [column_endPlace hearly]

/-- The place of an index has the number of its line. -/
theorem getElem?_lines (h : text.LineAt index front back) :
    (Text.lines text)[(text.take index).count newline]? = some (front ++ back) := by
  obtain ⟨early, later, htext, hindex, hearly, hlater⟩ := h.split
  have hcount : (text.take index).count newline = early.count newline := by
    have hfront : newline ∉ front := fun hmem => h.line (List.mem_append_left back hmem)
    rw [htext, hindex, take_front, List.count_append, List.count_eq_zero_of_not_mem hfront,
      Nat.add_zero]
  obtain ⟨above, habove, hlength⟩ := lines_append_of_closed hearly (front ++ back ++ later)
  have hbelow : ∃ below, Text.lines (front ++ back ++ later) = (front ++ back) :: below := by
    rcases hlater with rfl | hhead
    · exact ⟨[], by rw [List.append_nil, lines_of_line h.line]⟩
    · obtain ⟨rest, rfl⟩ := List.head?_eq_some_iff.1 hhead
      exact ⟨Text.lines rest, by rw [lines_append_newline, lines_of_line h.line]; rfl⟩
  obtain ⟨below, hbelow⟩ := hbelow
  rw [hcount, ← hlength, htext, List.append_assoc, habove, hbelow, List.getElem?_append_right]
  · simp
  · exact Nat.le_refl _

end Text.LineAt
end MonkeyLang
