import MonkeyLang.Console

/-!
# The turns of a dialogue

The answers to the prompts of the loop fall into turns: some lines, and what becomes of
them.  Either the last line makes a unit of them, or a blank line hands them over as they
are, or they are dropped.  Whether lines make a unit is known from the lines alone, so
where one turn ends and the next begins does not depend on what was evaluated before.

Lines wait as long as none of the texts they begin with is ready.  So a unit that no blank
line has handed over is the shortest one that its lines begin with, and `exists_turns` says
that every row of answers falls into such turns, up to the end of the input or to a unit
that ends the loop.
-/

namespace MonkeyLang.Repl

/-! ## Lines that wait for more -/

/-- Lines as one text. -/
def unitOf (lines : List Text) : Text := Text.joined "\n" lines

/-- The text is a command, or more lines cannot mend what is wrong with it. -/
def ready (unit : Text) : Bool := isCommand unit || !wantsMore unit

/-- The lines stay pending: neither all of them nor the first of them make a unit, and no
line but the first is blank. -/
structure Waits (lines : List Text) : Prop where
  early : ∀ first, first <+: lines → first ≠ [] → ready (unitOf first) = false
  typed : ∀ line ∈ lines.tail, line.isBlank = false

theorem unitOf_concat (lines : List Text) (line : Text) :
    unitOf (lines ++ [line]) =
      if lines = [] then line else unitOf lines ++ Text.newline :: line := by
  have hnewline : Text.ofString "\n" = [Text.newline] := by decide +kernel
  induction lines with
  | nil => simp [unitOf, Text.joined]
  | cons first rest ih =>
      cases rest with
      | nil => simp [unitOf, Text.joined, List.intercalate_cons_cons, hnewline]
      | cons second rest =>
          have hrest := ih
          simp only [unitOf, Text.joined, List.cons_append, reduceCtorEq, if_false,
            List.intercalate_cons_cons] at hrest ⊢
          rw [hrest]
          simp

/-- No text at all is a unit. -/
theorem ready_nil : ready [] = true := by decide +kernel

namespace Waits

variable {lines : List Text} {line : Text}

theorem nil : Waits [] where
  early := by
    intro first hfirst hne
    exact absurd (List.prefix_nil.1 hfirst) hne
  typed := by
    intro line hline
    cases hline

theorem concat (h : Waits lines) (hline : lines ≠ [] → line.isBlank = false)
    (hready : ready (unitOf (lines ++ [line])) = false) : Waits (lines ++ [line]) where
  early := by
    intro first hfirst hne
    rcases List.prefix_concat_iff.1 hfirst with rfl | hfirst
    · exact hready
    · exact h.early first hfirst hne
  typed := by
    intro other hother
    cases lines with
    | nil => cases hother
    | cons first rest =>
        rcases List.mem_append.1 hother with hother | hother
        · exact h.typed other hother
        · rw [List.mem_singleton.1 hother]
          exact hline (List.cons_ne_nil _ _)

theorem of_append {more : List Text} (h : Waits (lines ++ more)) : Waits lines where
  early := by
    intro first hfirst
    exact h.early first (hfirst.trans (List.prefix_append lines more))
  typed := by
    intro other hother
    apply h.typed other
    cases lines with
    | nil => cases hother
    | cons first rest => exact List.mem_append_left more hother

/-- While lines are pending, so is a text. -/
theorem isEmpty_unitOf (h : Waits lines) : (unitOf lines).isEmpty = lines.isEmpty := by
  cases lines with
  | nil => rfl
  | cons first rest =>
      have hready := h.early _ (List.prefix_refl _) (List.cons_ne_nil first rest)
      cases hunit : unitOf (first :: rest) with
      | nil =>
          rw [hunit, ready_nil] at hready
          cases hready
      | cons b text => rfl

/-- A line that is not blank, or the first one, is gathered with those before it. -/
theorem gather_line (h : Waits lines) (hline : lines ≠ [] → line.isBlank = false) :
    gather (unitOf lines) line =
      (unitOf (lines ++ [line]), ready (unitOf (lines ++ [line]))) := by
  have hunit := unitOf_concat lines line
  unfold gather
  rw [h.isEmpty_unitOf]
  cases lines with
  | nil =>
      rw [hunit]
      rfl
  | cons first rest =>
      rw [hline (List.cons_ne_nil first rest), hunit]
      rfl

/-- A blank line hands over the lines before it. -/
theorem gather_blank (h : Waits lines) (hne : lines ≠ []) (hline : line.isBlank = true) :
    gather (unitOf lines) line = (unitOf lines, true) := by
  unfold gather
  rw [h.isEmpty_unitOf, hline, List.isEmpty_eq_false_iff.2 hne]
  rfl

end Waits

/-! ## Turns -/

/-- Some lines, and what becomes of them. -/
inductive Turn where
  /-- The last line makes a unit of the lines. -/
  | complete (earlier : List Text) (last : Text)
  /-- A blank line hands the lines over as they are. -/
  | forced (lines : List Text) (blank : Text)
  /-- The lines are dropped. -/
  | dropped (lines : List Text)

namespace Turn

/-- The lines that were pending in the turn. -/
def lines : Turn → List Text
  | complete earlier _ => earlier
  | forced lines _ | dropped lines => lines

/-- The answer that ends the turn. -/
def last : Turn → Answer
  | complete _ line | forced _ line => .line line
  | dropped _ => .interrupt

/-- The answers of the turn. -/
def answers (turn : Turn) : List Answer := turn.lines.map .line ++ [turn.last]

/-- The unit that is submitted, if any. -/
def unit? : Turn → Option Text
  | complete earlier last => some (unitOf (earlier ++ [last]))
  | forced lines _ => some (unitOf lines)
  | dropped _ => none

/-- The turn ends where it has to, and not before: a unit that no blank line has handed
over is the shortest one that its lines begin with. -/
def Proper : Turn → Prop
  | complete earlier last => Waits earlier ∧ (earlier ≠ [] → last.isBlank = false) ∧
      ready (unitOf (earlier ++ [last])) = true
  | forced lines blank => Waits lines ∧ lines ≠ [] ∧ blank.isBlank = true
  | dropped lines => Waits lines

end Turn

/-- The unit ends the loop. -/
def quits (unit : Text) : Bool :=
  isCommand unit &&
    (unit.trimmed.lower == Text.ofString ":quit" || unit.trimmed.lower == Text.ofString ":q")

/-- The loop goes on after the turn. -/
def Turn.GoesOn (turn : Turn) : Prop := ∀ unit ∈ turn.unit?, quits unit = false

/-- How a dialogue ends. -/
inductive Ending where
  /-- The input ends while lines are pending. -/
  | input (lines : List Text)
  /-- A turn ends the loop, and further answers are not read. -/
  | quit (turn : Turn) (unread : List Answer)

namespace Ending

/-- The answers from the last turn on. -/
def answers : Ending → List Answer
  | input lines => lines.map .line
  | quit turn unread => turn.answers ++ unread

/-- The unit that is submitted, if any. -/
def unit? : Ending → Option Text
  | input _ => none
  | quit turn _ => turn.unit?

/-- The number of answers that are not read. -/
def unread : Ending → Nat
  | input _ => 0
  | quit _ unread => unread.length

/-- The lines at the end wait, and what ends the loop is a unit that does. -/
def Proper : Ending → Prop
  | input lines => Waits lines
  | quit turn _ => turn.Proper ∧ ∃ unit ∈ turn.unit?, quits unit = true

end Ending

/-- The answers are those of the turns and of the ending, in order. -/
structure Parted (answers : List Answer) (turns : List Turn) (ending : Ending) : Prop where
  turns_proper : ∀ turn ∈ turns, turn.Proper ∧ turn.GoesOn
  ending_proper : ending.Proper
  answers_eq : turns.flatMap Turn.answers ++ ending.answers = answers

/-- A turn stands before others, or ends the loop. -/
theorem Turn.Proper.parted {turn : Turn} (h : turn.Proper) {rest : List Answer}
    (hrest : ∃ turns ending, Parted rest turns ending) :
    ∃ turns ending, Parted (turn.answers ++ rest) turns ending := by
  by_cases hgoes : turn.GoesOn
  · obtain ⟨turns, ending, hparted⟩ := hrest
    refine ⟨turn :: turns, ending, ?_, hparted.ending_proper, ?_⟩
    · rw [List.forall_mem_cons]
      exact ⟨⟨h, hgoes⟩, hparted.turns_proper⟩
    · rw [List.flatMap_cons, List.append_assoc, hparted.answers_eq]
  · refine ⟨[], .quit turn rest, by simp, ⟨h, ?_⟩, rfl⟩
    simpa [Turn.GoesOn] using hgoes

/-- Every row of answers behind pending lines falls into turns and an ending. -/
theorem exists_turns {lines : List Text} (h : Waits lines) (answers : List Answer) :
    ∃ turns ending, Parted (lines.map .line ++ answers) turns ending := by
  induction answers generalizing lines with
  | nil => exact ⟨[], .input lines, by simp, h, by simp [Ending.answers]⟩
  | cons answer rest ih =>
      -- A turn that ends with this answer takes all the lines that are pending.
      have hturn (turn : Turn) (hproper : turn.Proper)
          (hanswers : turn.answers = lines.map .line ++ [answer]) :
          ∃ turns ending, Parted (lines.map .line ++ answer :: rest) turns ending := by
        have hparted := hproper.parted (ih Waits.nil)
        rwa [hanswers, List.append_assoc] at hparted
      cases answer with
      | interrupt => exact hturn (.dropped lines) h rfl
      | line line =>
          by_cases hblank : lines ≠ [] ∧ line.isBlank = true
          · exact hturn (.forced lines line) ⟨h, hblank⟩ rfl
          · have hline : lines ≠ [] → line.isBlank = false := by
              intro hne
              cases hvalue : line.isBlank with
              | true => exact absurd ⟨hne, hvalue⟩ hblank
              | false => rfl
            cases hready : ready (unitOf (lines ++ [line])) with
            | true => exact hturn (.complete lines line) ⟨h, hline, hready⟩ rfl
            | false =>
                have hparted := ih (h.concat hline hready)
                rwa [List.map_append, List.append_assoc] at hparted

end MonkeyLang.Repl
