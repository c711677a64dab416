import MonkeyLang.Proofs.Turns

/-!
# A dialogue is a fold over its units

The loop asks for one line at a time and keeps the lines that do not make a unit yet.  Seen
from outside it does something simpler: it goes from turn to turn, and between two turns
nothing is kept but the interpreter.  `act` says what a unit does to it, and what is left of
a whole dialogue is the fold of `act` over its units.

`course` is the loop with the interpreter that it is left with.  Pending lines are followed
by `course_waiting`, one turn by `course_turn_of_goesOn`, and any number of turns by
`course_turns`.
-/

namespace MonkeyLang.Repl

/-! ## What a unit does -/

/-- What a unit does to the interpreter.  A program is evaluated where its bindings stay,
`:reset` makes a new interpreter, and nothing else changes it. -/
def act (budget limit : Nat) (ip : Interpreter) (unit : Text) : Option Interpreter :=
  if unit.isBlank then some ip
  else if isCommand unit then
    some (if unit.trimmed.lower = (":reset" : Text) then Interpreter.new limit else ip)
  else
    match ip.withoutOutput.interpret budget unit with
    | .error _ => some ip
    | .ok result => result.map Prod.snd

theorem isBlank_of_isCommand {unit : Text} (h : isCommand unit = true) : unit.isBlank = false := by
  unfold isCommand Text.startsWith at h
  unfold Text.isBlank
  cases htrimmed : unit.trimmed with
  | nil =>
      rw [htrimmed] at h
      cases h
  | cons b rest => rfl

variable (budget : Nat) (settings : ReplSettings) (ip : Interpreter)

/-- A unit that ends the loop shows nothing. -/
theorem submit_of_quits {unit : Text} (h : quits unit = true) :
    submit budget ⟨settings, ip, []⟩ unit = some ([], none) ∧
      act budget settings.limit ip unit = some ip := by
  simp only [quits, Bool.and_eq_true, Bool.or_eq_true, beq_iff_eq] at h
  obtain ⟨hcommand, hname⟩ := h
  have hreset : unit.trimmed.lower ≠ (":reset" : Text) := by
    rcases hname with hname | hname <;> rw [hname] <;> decide
  simp [submit, act, obey, isBlank_of_isCommand hcommand, hcommand, hname, hreset]

/-- A command that does not end the loop leaves no lines pending, and does to the
interpreter what it should. -/
theorem obey_of_goesOn {name : Text}
    (h : ¬ (name = (":quit" : Text) ∨ name = (":q" : Text))) :
    ∃ events, obey ⟨settings, ip, []⟩ name =
      (events, some ⟨settings,
        if name = (":reset" : Text) then Interpreter.new settings.limit else ip, []⟩) := by
  unfold obey
  rw [if_neg h]
  by_cases hhelp : name = (":help" : Text)
  · have hreset : name ≠ (":reset" : Text) := by
      rw [hhelp]
      decide
    rw [if_pos hhelp, if_neg hreset]
    exact ⟨_, rfl⟩
  · by_cases henv : name = (":env" : Text)
    · have hreset : name ≠ (":reset" : Text) := by
        rw [henv]
        decide
      rw [if_neg hhelp, if_pos henv, if_neg hreset]
      exact ⟨_, rfl⟩
    · rw [if_neg hhelp, if_neg henv]
      by_cases hreset : name = (":reset" : Text)
      · rw [if_pos hreset, if_pos hreset]
        exact ⟨_, rfl⟩
      · rw [if_neg hreset, if_neg hreset]
        split <;> exact ⟨_, rfl⟩

/-- **A unit leaves nothing behind but an interpreter.**  Any unit that does not end the loop
is evaluated without end, or the loop is again at the beginning of a unit, with the
interpreter the unit has made. -/
theorem submit_of_goesOn {unit : Text} (h : quits unit = false) :
    (submit budget ⟨settings, ip, []⟩ unit = none ∧
      act budget settings.limit ip unit = none) ∨
    ∃ events next, submit budget ⟨settings, ip, []⟩ unit =
        some (events, some ⟨settings, next, []⟩) ∧
      act budget settings.limit ip unit = some next := by
  unfold submit act
  cases hblank : unit.isBlank with
  | true => exact Or.inr ⟨[], ip, rfl, rfl⟩
  | false =>
      cases hcommand : isCommand unit with
      | true =>
          have hname : ¬ (unit.trimmed.lower = (":quit" : Text) ∨
              unit.trimmed.lower = (":q" : Text)) := by
            simpa [quits, hcommand] using h
          obtain ⟨events, hobey⟩ := obey_of_goesOn settings ip hname
          exact Or.inr ⟨events, _, congrArg some hobey, rfl⟩
      | false =>
          simp only [Bool.false_eq_true, if_false, Interpreter.interpret]
          cases parse? unit with
          | error errors => exact Or.inr ⟨_, ip, rfl, rfl⟩
          | ok program =>
              simp only [evaluate, Except.map]
              cases ip.withoutOutput.evalGlobal budget program with
              | none => exact Or.inl ⟨rfl, rfl⟩
              | some out => exact Or.inr ⟨_, out.2, rfl, rfl⟩

/-! ## The loop, turn by turn -/

/-- The outcome when something has been shown before. -/
def showing {α : Type} (shown : List Event) (out : List Event × α) : List Event × α :=
  (shown ++ out.1, out.2)

theorem map_showing_nil {α : Type} (x : Option (List Event × α)) : x.map (showing []) = x := by
  cases x <;> rfl

theorem map_showing_showing {α : Type} (shown more : List Event) (x : Option (List Event × α)) :
    (x.map (showing more)).map (showing shown) = x.map (showing (shown ++ more)) := by
  cases x with
  | none => rfl
  | some out => simp [showing]

/-- The loop followed to its end: its events, the number of answers left over, and the
interpreter it is left with. -/
def course (budget : Nat) (r : Repl) : List Answer → Option (List Event × Nat × Interpreter)
  | [] => some ([.prompt r.prompt, .outLine []], 0, r.interpreter)
  | answer :: rest =>
    match r.step budget answer with
    | none => none
    | some (events, none) => some (.prompt r.prompt :: events, rest.length, r.interpreter)
    | some (events, some after) =>
      (after.course budget rest).map (showing (.prompt r.prompt :: events))

theorem follow_eq_course (budget : Nat) (r : Repl) (answers : List Answer) :
    r.follow budget answers = (r.course budget answers).map (Prod.map id Prod.fst) := by
  induction answers generalizing r with
  | nil => rfl
  | cons answer rest ih =>
      rw [follow, course]
      cases r.step budget answer with
      | none => rfl
      | some out =>
          obtain ⟨events, after⟩ := out
          cases after with
          | none => rfl
          | some after =>
              dsimp only
              rw [ih after]
              cases after.course budget rest <;> rfl

/-- The prompts for lines of one unit, when so many lines are pending: the first line is
asked for with the one prompt, every other line with the continuation prompt. -/
def prompts (settings : ReplSettings) (pending count : Nat) : List Event :=
  (List.range' pending count).map fun n =>
    .prompt (if n = 0 then settings.prompt else settings.continuation)

namespace Waits

variable {lines : List Text}

theorem prompts_succ (h : Waits lines) (count : Nat) :
    prompts settings lines.length (count + 1) =
      .prompt (prompt ⟨settings, ip, unitOf lines⟩) ::
        prompts settings (lines.length + 1) count := by
  rw [prompts, List.range'_succ, List.map_cons, prompt, h.isEmpty_unitOf]
  cases lines <;> rfl

theorem step_line (h : Waits lines) {line : Text} (hline : lines ≠ [] → line.isBlank = false) :
    step budget ⟨settings, ip, unitOf lines⟩ (.line line) =
      if ready (unitOf (lines ++ [line])) then
        submit budget ⟨settings, ip, []⟩ (unitOf (lines ++ [line]))
      else some ([], some ⟨settings, ip, unitOf (lines ++ [line])⟩) := by
  rw [step, h.gather_line hline]
  cases ready (unitOf (lines ++ [line])) <;> rfl

theorem step_blank (h : Waits lines) (hne : lines ≠ []) {line : Text}
    (hline : line.isBlank = true) :
    step budget ⟨settings, ip, unitOf lines⟩ (.line line) =
      submit budget ⟨settings, ip, []⟩ (unitOf lines) := by
  rw [step, h.gather_blank hne hline]

end Waits

/-- Lines that stay pending are asked for, and nothing is shown in between. -/
theorem course_waiting {earlier lines : List Text} (h : Waits (earlier ++ lines))
    (rest : List Answer) :
    course budget ⟨settings, ip, unitOf earlier⟩ (lines.map .line ++ rest) =
      (course budget ⟨settings, ip, unitOf (earlier ++ lines)⟩ rest).map
        (showing (prompts settings earlier.length lines.length)) := by
  induction lines generalizing earlier with
  | nil =>
      rw [List.append_nil]
      exact (map_showing_nil _).symm
  | cons line lines ih =>
      have hline : Waits (earlier ++ [line] ++ lines) := by simpa using h
      have hwaits := h.of_append
      have htyped : earlier ≠ [] → line.isBlank = false := by
        intro hne
        obtain ⟨first, more, rfl⟩ := List.exists_cons_of_ne_nil hne
        apply h.typed
        simp
      have hready : ready (unitOf (earlier ++ [line])) = false :=
        hline.of_append.early _ (List.prefix_refl _) (by simp)
      rw [List.map_cons, List.cons_append, course, hwaits.step_line _ _ _ htyped, hready]
      have hrest := ih hline
      rw [List.length_append, List.length_singleton, List.append_assoc,
        List.singleton_append] at hrest
      dsimp only
      rw [if_neg Bool.false_ne_true]
      dsimp only
      rw [hrest, map_showing_showing, List.length_cons, hwaits.prompts_succ settings ip]
      rfl

/-- The answer that ends a turn is asked for behind the lines that were pending. -/
theorem Waits.prompts_concat {lines : List Text} (h : Waits lines) :
    prompts settings 0 (lines.length + 1) =
      prompts settings 0 lines.length ++ [.prompt (prompt ⟨settings, ip, unitOf lines⟩)] := by
  have hlast := h.prompts_succ settings ip 0
  simp only [prompts, List.range'_1_concat, List.map_append] at hlast ⊢
  simpa using hlast

namespace Turn.Proper

variable {turn : Turn}

theorem waits (h : turn.Proper) : Waits turn.lines := by
  cases turn with
  | complete _ _ => exact h.1
  | forced _ _ => exact h.1
  | dropped _ => exact h

/-- The answer that ends a turn submits its unit, or drops the pending lines. -/
theorem step (h : turn.Proper) :
    Repl.step budget ⟨settings, ip, unitOf turn.lines⟩ turn.last =
      match turn.unit? with
      | none => some ([], some ⟨settings, ip, []⟩)
      | some unit => submit budget ⟨settings, ip, []⟩ unit := by
  cases turn with
  | complete earlier last =>
      obtain ⟨hwaits, hline, hready⟩ := h
      have hstep := hwaits.step_line budget settings ip hline
      rwa [hready] at hstep
  | forced lines blank =>
      obtain ⟨hwaits, hne, hblank⟩ := h
      exact hwaits.step_blank budget settings ip hne hblank
  | dropped lines => rfl

end Turn.Proper

/-- The lines of a turn are asked for, and then goes what the answer that ends it leads to. -/
theorem course_turn {turn : Turn} (h : turn.Proper) (rest : List Answer) :
    course budget ⟨settings, ip, []⟩ (turn.answers ++ rest) =
      (course budget ⟨settings, ip, unitOf turn.lines⟩ (turn.last :: rest)).map
        (showing (prompts settings 0 turn.lines.length)) := by
  have hlines : Waits ([] ++ turn.lines) := h.waits
  rw [Turn.answers, List.append_assoc, List.singleton_append]
  exact course_waiting budget settings ip hlines (turn.last :: rest)

/-- What is shown in a turn, and the interpreter after it. -/
def Turn.tell (budget : Nat) (settings : ReplSettings) (ip : Interpreter) (turn : Turn) :
    Option (List Event × Interpreter) :=
  let asked := prompts settings 0 turn.answers.length
  match turn.unit? with
  | none => some (asked, ip)
  | some unit =>
    (act budget settings.limit ip unit).bind fun next =>
      (submit budget ⟨settings, ip, []⟩ unit).map fun out => (asked ++ out.1, next)

/-- **Nothing is kept between turns but the interpreter.** -/
theorem course_turn_of_goesOn {turn : Turn} (h : turn.Proper) (hgoes : turn.GoesOn)
    (rest : List Answer) :
    course budget ⟨settings, ip, []⟩ (turn.answers ++ rest) =
      (turn.tell budget settings ip).bind fun out =>
        (course budget ⟨settings, out.2, []⟩ rest).map (showing out.1) := by
  have hlength : turn.answers.length = turn.lines.length + 1 := by simp [Turn.answers]
  rw [course_turn _ _ _ h, course, h.step, Turn.tell, hlength, h.waits.prompts_concat settings ip]
  unfold Turn.GoesOn at hgoes
  cases hunit : turn.unit? with
  | none => exact map_showing_showing _ _ _
  | some unit =>
      rw [hunit] at hgoes
      rcases submit_of_goesOn budget settings ip (hgoes unit rfl) with
        ⟨hsubmit, hact⟩ | ⟨events, next, hsubmit, hact⟩
      · dsimp only
        rw [hsubmit, hact]
        rfl
      · dsimp only
        rw [hsubmit, hact]
        dsimp only
        rw [map_showing_showing, Option.bind_some, Option.map_some, Option.bind_some]
        simp

/-- What is shown in turns, and the interpreter after them. -/
def tell (budget : Nat) (settings : ReplSettings) :
    List Turn → Interpreter → Option (List Event × Interpreter)
  | [], ip => some ([], ip)
  | turn :: rest, ip =>
    (turn.tell budget settings ip).bind fun out =>
      (tell budget settings rest out.2).map (showing out.1)

theorem course_turns {turns : List Turn} (h : ∀ turn ∈ turns, turn.Proper ∧ turn.GoesOn)
    (rest : List Answer) :
    course budget ⟨settings, ip, []⟩ (turns.flatMap Turn.answers ++ rest) =
      (tell budget settings turns ip).bind fun out =>
        (course budget ⟨settings, out.2, []⟩ rest).map (showing out.1) := by
  induction turns generalizing ip with
  | nil => exact (map_showing_nil _).symm
  | cons turn turns ih =>
      rw [List.forall_mem_cons] at h
      rw [List.flatMap_cons, List.append_assoc, course_turn_of_goesOn _ _ _ h.1.1 h.1.2, tell,
        Option.bind_assoc]
      congr 1
      funext out
      rw [ih _ h.2]
      cases tell budget settings turns out.2 with
      | none => rfl
      | some more => exact map_showing_showing _ _ _

theorem follow_turns {turns : List Turn} (h : ∀ turn ∈ turns, turn.Proper ∧ turn.GoesOn)
    (rest : List Answer) :
    follow budget ⟨settings, ip, []⟩ (turns.flatMap Turn.answers ++ rest) =
      (tell budget settings turns ip).bind fun out =>
        (follow budget ⟨settings, out.2, []⟩ rest).map (showing out.1) := by
  simp only [follow_eq_course, course_turns budget settings ip h]
  cases tell budget settings turns ip with
  | none => rfl
  | some out =>
      dsimp only [Option.bind_some]
      rw [Option.map_map, Option.map_map]
      rfl

/-- What is shown from the last turn on. -/
def Ending.shown (settings : ReplSettings) : Ending → List Event
  | input lines => prompts settings 0 (lines.length + 1) ++ [.outLine []]
  | quit turn _ => prompts settings 0 turn.answers.length

theorem course_ending {ending : Ending} (h : ending.Proper) :
    course budget ⟨settings, ip, []⟩ ending.answers =
      some (ending.shown settings, ending.unread, ip) := by
  cases ending with
  | input lines =>
      have hlines : Waits ([] ++ lines) := h
      have hcourse := course_waiting budget settings ip hlines []
      rw [List.append_nil] at hcourse
      refine hcourse.trans ?_
      rw [Ending.shown, Waits.prompts_concat settings ip h]
      simp [course, showing, Ending.unread]
  | quit turn unread =>
      obtain ⟨hproper, unit, hunit, hquits⟩ := h
      have hlength : turn.answers.length = turn.lines.length + 1 := by simp [Turn.answers]
      rw [Ending.answers, course_turn _ _ _ hproper, course, hproper.step, hunit]
      dsimp only
      rw [(submit_of_quits budget settings ip hquits).1, Ending.shown, hlength,
        hproper.waits.prompts_concat settings ip]
      rfl

/-- The whole dialogue: its turns, and its ending. -/
theorem Parted.course_eq {answers : List Answer} {turns : List Turn} {ending : Ending}
    (h : Parted answers turns ending) :
    course budget ⟨settings, ip, []⟩ answers =
      (tell budget settings turns ip).map fun out =>
        (out.1 ++ ending.shown settings, ending.unread, out.2) := by
  rw [← h.answers_eq, course_turns budget settings ip h.turns_proper]
  cases tell budget settings turns ip with
  | none => rfl
  | some out =>
      rw [Option.bind_some, course_ending budget settings out.2 h.ending_proper]
      rfl

/-! ## What is left of the interpreter -/

/-- The interpreter the loop is left with. -/
def left (budget : Nat) (r : Repl) (answers : List Answer) : Option Interpreter :=
  (r.course budget answers).map fun out => out.2.2

theorem Turn.tell_snd {turn : Turn} (h : turn.GoesOn) :
    (turn.tell budget settings ip).map Prod.snd =
      turn.unit?.toList.foldlM (act budget settings.limit) ip := by
  unfold Turn.GoesOn at h
  unfold Turn.tell
  cases hunit : turn.unit? with
  | none => rfl
  | some unit =>
      rw [hunit] at h
      rcases submit_of_goesOn budget settings ip (h unit rfl) with
        ⟨hsubmit, hact⟩ | ⟨events, next, hsubmit, hact⟩
      · simp [hact]
      · simp [hsubmit, hact]

/-- The interpreter after turns is the fold of their units. -/
theorem tell_snd {turns : List Turn} (h : ∀ turn ∈ turns, turn.GoesOn) :
    (tell budget settings turns ip).map Prod.snd =
      (turns.filterMap Turn.unit?).foldlM (act budget settings.limit) ip := by
  induction turns generalizing ip with
  | nil => rfl
  | cons turn turns ih =>
      rw [List.forall_mem_cons] at h
      have hunits : (turn :: turns).filterMap Turn.unit? =
          turn.unit?.toList ++ turns.filterMap Turn.unit? := by
        cases hunit : turn.unit? <;> simp [hunit]
      rw [hunits, List.foldlM_append, ← Turn.tell_snd _ _ _ h.1, tell]
      cases turn.tell budget settings ip with
      | none => rfl
      | some out =>
          have hrest := ih out.2 h.2
          simp only [Option.bind_some, Option.map_some, Option.map_map]
          exact hrest

/-- The unit that ends the loop changes nothing. -/
theorem fold_ending {ending : Ending} (h : ending.Proper) :
    ending.unit?.toList.foldlM (act budget settings.limit) ip = some ip := by
  cases ending with
  | input lines => rfl
  | quit turn unread =>
      obtain ⟨_, unit, hunit, hquits⟩ := h
      have hact := (submit_of_quits budget settings ip hquits).2
      rw [Ending.unit?, hunit]
      simp [hact]

/-- After a `:reset` the interpreter is new, whatever it was before. -/
theorem act_reset {unit : Text} (hcommand : isCommand unit = true)
    (hname : unit.trimmed.lower = (":reset" : Text)) :
    act budget settings.limit ip unit = some (Interpreter.new settings.limit) := by
  simp [act, isBlank_of_isCommand hcommand, hcommand, hname]

theorem tell_reset {earlier : List Turn} {turn : Turn} {unit : Text}
    (h : ∀ each ∈ earlier ++ [turn], each.GoesOn) (hunit : turn.unit? = some unit)
    (hcommand : isCommand unit = true) (hname : unit.trimmed.lower = (":reset" : Text))
    {out : List Event × Interpreter}
    (hout : tell budget settings (earlier ++ [turn]) ip = some out) :
    out.2 = Interpreter.new settings.limit := by
  have hfold := tell_snd budget settings ip h
  rw [hout, List.filterMap_append, List.foldlM_append] at hfold
  cases hearlier : (earlier.filterMap Turn.unit?).foldlM (act budget settings.limit) ip with
  | none =>
      rw [hearlier] at hfold
      cases hfold
  | some mid =>
      rw [hearlier] at hfold
      simpa [hunit, act_reset budget settings mid hcommand hname] using hfold

/-! ## The banner -/

/-- The loop without a banner. -/
def quiet (r : Repl) : Repl := { r with settings := { r.settings with banner := false } }

theorem obey_quiet (r : Repl) (name : Text) :
    r.quiet.obey name = Prod.map id (Option.map quiet) (r.obey name) := by
  simp only [obey, apply_ite (Prod.map id (Option.map quiet))]
  rfl

theorem submit_quiet (r : Repl) (unit : Text) :
    r.quiet.submit budget unit =
      (r.submit budget unit).map (Prod.map id (Option.map quiet)) := by
  unfold submit
  cases unit.isBlank with
  | true => rfl
  | false =>
      cases isCommand unit with
      | true => exact congrArg some (obey_quiet r unit.trimmed.lower)
      | false =>
          cases parse? unit with
          | error errors => rfl
          | ok program =>
              simp only [evaluate, quiet]
              cases r.interpreter.withoutOutput.evalGlobal budget program <;> rfl

theorem step_quiet (r : Repl) (answer : Answer) :
    r.quiet.step budget answer =
      (r.step budget answer).map (Prod.map id (Option.map quiet)) := by
  cases answer with
  | interrupt => rfl
  | line line =>
      have hgather : gather r.quiet.pending line = gather r.pending line := rfl
      rw [step, step, hgather]
      rcases gather r.pending line with ⟨unit, _ | _⟩
      · rfl
      · exact submit_quiet budget { r with pending := [] } unit

/-- The banner makes no difference once the loop has started. -/
theorem follow_quiet (r : Repl) (answers : List Answer) :
    r.quiet.follow budget answers = r.follow budget answers := by
  induction answers generalizing r with
  | nil => rfl
  | cons answer rest ih =>
      rw [follow, follow, step_quiet]
      cases r.step budget answer with
      | none => rfl
      | some out =>
          obtain ⟨events, after⟩ := out
          cases after with
          | none => rfl
          | some after =>
              simp only [Option.map_some, Prod.map_apply, ih after]
              rfl

theorem dialogue_quiet (answers : List Answer) :
    dialogue budget { settings with banner := false } answers =
      follow budget ⟨settings, Interpreter.new settings.limit, []⟩ answers := by
  have hquiet := follow_quiet budget ⟨settings, Interpreter.new settings.limit, []⟩ answers
  rw [← hquiet]
  exact map_showing_nil _

/-- **A dialogue is a fold over its units.**  The answers fall into turns and an ending, with
all their lines in order.  Every line is asked for with the continuation prompt exactly when
lines of its unit are pending; the unit of a turn is the shortest that its lines begin with,
unless a blank line has handed it over; and lines that are dropped, or pending when the
input ends, are in no unit.  The interpreter that is left, when the steps of the loop are
followed to the end, is the fold of the units.  At the end of every turn, what is seen from
there on is what a loop shows that starts with the interpreter made so far and is given the
same answers; after a `:reset` it is a new dialogue without a banner. -/
theorem dialogue_folds_units (budget : Nat) (settings : ReplSettings) (ip : Interpreter)
    (answers : List Answer) :
    ∃ (turns : List Turn) (ending : Ending), Parted answers turns ending ∧
      follow budget ⟨settings, ip, []⟩ answers =
        (tell budget settings turns ip).map
          (fun out => (out.1 ++ ending.shown settings, ending.unread)) ∧
      follow budget ⟨settings, ip, []⟩ answers =
        (course budget ⟨settings, ip, []⟩ answers).map (Prod.map id Prod.fst) ∧
      left budget ⟨settings, ip, []⟩ answers =
        (turns.filterMap Turn.unit? ++ ending.unit?.toList).foldlM
          (act budget settings.limit) ip ∧
      ∀ earlier, earlier <+: turns →
        (tell budget settings earlier ip).map Prod.snd =
          (earlier.filterMap Turn.unit?).foldlM (act budget settings.limit) ip ∧
        ∀ remaining,
          follow budget ⟨settings, ip, []⟩ (earlier.flatMap Turn.answers ++ remaining) =
            (tell budget settings earlier ip).bind (fun out =>
              (follow budget ⟨settings, out.2, []⟩ remaining).map (showing out.1)) ∧
          ∀ turn ∈ earlier.getLast?, ∀ unit ∈ turn.unit?, isCommand unit = true →
            unit.trimmed.lower = (":reset" : Text) →
            follow budget ⟨settings, ip, []⟩ (earlier.flatMap Turn.answers ++ remaining) =
              (tell budget settings earlier ip).bind (fun out =>
                (dialogue budget { settings with banner := false } remaining).map
                  (showing out.1)) := by
  obtain ⟨turns, ending, hparted⟩ : ∃ turns ending, Parted answers turns ending :=
    exists_turns Waits.nil answers
  have hcourse := hparted.course_eq budget settings ip
  refine ⟨turns, ending, hparted, ?_, follow_eq_course _ _ _, ?_, ?_⟩
  · rw [follow_eq_course, hcourse, Option.map_map]
    rfl
  · have hgoes : ∀ turn ∈ turns, turn.GoesOn :=
      fun turn hturn => (hparted.turns_proper turn hturn).2
    have hfold := tell_snd budget settings ip hgoes
    rw [left, hcourse, Option.map_map, List.foldlM_append, ← hfold]
    cases tell budget settings turns ip with
    | none => rfl
    | some out => exact (fold_ending budget settings out.2 hparted.ending_proper).symm
  · intro earlier hearlier
    have hproper : ∀ turn ∈ earlier, turn.Proper ∧ turn.GoesOn :=
      fun turn hturn => hparted.turns_proper turn (hearlier.subset hturn)
    have hgoes : ∀ turn ∈ earlier, turn.GoesOn := fun turn hturn => (hproper turn hturn).2
    refine ⟨tell_snd budget settings ip hgoes, ?_⟩
    intro remaining
    have hfollow := follow_turns budget settings ip hproper remaining
    refine ⟨hfollow, ?_⟩
    intro turn hturn unit hunit hcommand hname
    obtain ⟨before, rfl⟩ := List.getLast?_eq_some_iff.1 hturn
    rw [hfollow]
    cases hout : tell budget settings (before ++ [turn]) ip with
    | none => rfl
    | some out =>
        have hreset := tell_reset budget settings ip hgoes hunit hcommand hname hout
        rw [Option.bind_some, Option.bind_some, hreset, dialogue_quiet]

end MonkeyLang.Repl
