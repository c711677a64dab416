import MonkeyLang.Proofs.Retracing

/-!
# Every call and every turn gets on

A walk through the grammar never goes back and never beyond the last token.  A rule is called
at a later position than any call of it that has not returned, and a turn of a loop is over at
a later position than it began.  So a walk ends under any limit above the number of tokens,
and then it has gone the way of the rules.

The rules are retraced one by one.  Each lemma is given a reader of expressions that goes the
way of its rule from some position on, and `expression_readsFrom` ties the knot: expressions
inside another one are read from the next position on.
-/

namespace MonkeyLang

/-- Nothing binds less tightly than a token that continues no expression. -/
theorem Kind.lowest_le_power (kind : Kind) : Power.lowest ≤ kind.power := by
  unfold Kind.power
  split <;> decide

/-! ## Calls that were made before -/

/-- All the calls were made before the position. -/
def Before (sites : List Site) (i : Nat) : Prop := ∀ site ∈ sites, site.place < i

namespace Before

variable {sites : List Site} {i j : Nat}

theorem mono (h : Before sites i) (hij : i ≤ j) : Before sites j :=
  fun site hsite => Nat.lt_of_lt_of_le (h site hsite) hij

theorem cons (h : Before sites i) (call : Nesting) : Before (⟨call, i⟩ :: sites) (i + 1) := by
  intro site hsite
  rcases List.mem_cons.1 hsite with rfl | hsite
  · exact Nat.lt_succ_self i
  · exact Nat.lt_succ_of_lt (h site hsite)

theorem justified (h : Before sites i) (call : Nesting) :
    (Footstep.called call sites i).Justified :=
  fun site hsite => Or.inl (h site hsite)

end Before

/-- From the position on, the walk through an expression is the way of its rule. -/
def ReadsFrom (start : Cursor) (i : Nat) (read : Walk.Reader) (read' : Grammar.Reader) : Prop :=
  ∀ ⦃power sites j⦄, Power.lowest ≤ power → i ≤ j → j ≤ start.size → Before sites j →
    Retraces start sites j (read power) (read' power)

theorem ReadsFrom.mono {start : Cursor} {i j : Nat} {read : Walk.Reader}
    {read' : Grammar.Reader} (h : ReadsFrom start i read read') (hij : i ≤ j) :
    ReadsFrom start j read read' :=
  fun _ _ _ hpower hj => h hpower (Nat.le_trans hij hj)

/-! ## Lists -/

section Items

variable {α : Type} {start : Cursor} {sites : List Site} {i limit : Nat} {item : Walk α}
  {item' : Rule α} {close : Kind}

/-- Where no comma comes next, the list is to be closed. -/
theorem Rule.moreItems_run_of_ne {c : Cursor} (h : c.upcoming.kind ≠ .comma) (turns : Nat) :
    moreItems item' close turns c = (do expectNext close; pure [] : Rule (List α)) c := by
  cases turns with
  | zero => rfl
  | succ turns =>
      unfold moreItems
      rw [upcoming_bind_run, if_neg h]

theorem moreItems_retraces (hclose : close ≠ .eof)
    (hitem : ∀ j, i < j → j ≤ start.size → Retraces start sites j item item')
    (hi : i ≤ start.size) {turns turns' : Nat} (hturns : start.size < i + turns)
    (hturns' : start.size ≤ i + turns') :
    Retraces start sites i (Walk.moreItems item close turns)
      (Rule.moreItems item' close turns') := by
  induction turns generalizing i turns' with
  | zero => omega
  | succ turns ih =>
      by_cases hcomma : (start.seek i).upcoming.kind = .comma
      · -- The comma is not the last token, so the item behind it starts two tokens further on.
        have hlt : i + 1 < start.size := Cursor.lt_of_upcoming (by simp [hcomma])
        obtain ⟨turns', rfl⟩ : ∃ n, turns' = n + 1 := ⟨turns' - 1, by omega⟩
        refine Retraces.upcoming_bind (Retraces.ite (fun _ => ?_) fun hne => absurd hcomma hne)
        refine Retraces.place_bind (Retraces.advance_bind_of_lt (by omega) ?_)
        refine Retraces.advance_bind_of_lt hlt ((hitem _ (by omega) hlt).bind fun a j hij hj => ?_)
        refine Retraces.turned_bind (by omega) hj ?_
        refine (ih (fun k hk => hitem k (by omega)) hj (by omega) (by omega)).bind ?_
        exact fun rest k _ hk => Retraces.pure hk (a :: rest)
      · have hclosing : Retraces start sites i (do Walk.expectNext close; pure [])
            (do Rule.expectNext close; pure [] : Rule (List α)) :=
          Retraces.expectNext_bind hclose hi fun hlt => Retraces.pure (Nat.le_of_lt hlt) []
        refine Retraces.congr ?_ (Rule.moreItems_run_of_ne hcomma turns') hclosing
        unfold Walk.moreItems
        rw [Walk.upcoming_bind_run, if_neg hcomma]

/-- A list that opens at a position before the last token has its items behind it. -/
theorem items_retraces (hlimit : start.size < limit) (hclose : close ≠ .eof)
    (hi : i < start.size) (hcall : (Footstep.called .items sites i).Justified)
    (hitem : ∀ j, i < j → j ≤ start.size →
      Retraces start (⟨.items, i⟩ :: sites) j item item') :
    Retraces start sites i (Walk.items limit item close) (Rule.items item' close) := by
  refine Retraces.within hcall (Nat.le_of_lt hi) (Retraces.upcoming_bind ?_)
  refine Retraces.ite (fun _ => ?_) fun _ => ?_
  · exact Retraces.advance_bind_of_lt hi (Retraces.pure hi [])
  · refine Retraces.advance_bind_of_lt hi ((hitem _ (by omega) hi).bind fun a j hij hj => ?_)
    have hmore : Retraces start (⟨.items, i⟩ :: sites) j (Walk.moreItems item close limit)
        (Rule.moreItems item' close (start.size - j)) :=
      moreItems_retraces hclose (fun k hk => hitem k (by omega)) hj (by omega) (by omega)
    exact hmore.looped.bind fun rest k _ hk => Retraces.pure hk (a :: rest)

end Items

section Rules

open Grammar

variable {start : Cursor} {sites : List Site} {i limit : Nat} {read : Walk.Reader}
  {read' : Grammar.Reader}

/-! ## Statements -/

/-- The end of a statement, behind its expression. -/
theorem ending_retraces {s : Stmt} (hi : i ≤ start.size) :
    Retraces start sites i (do Walk.skipNext .semicolon; pure s)
      (do Rule.skipNext .semicolon; pure s) :=
  (Retraces.skipNext hi).bind fun _ _ _ hj => Retraces.pure hj s

section Statements

variable (hread : ReadsFrom start i read read') (hsites : Before sites i) (hi : i ≤ start.size)
include hread hsites hi

theorem bindStatement_retraces :
    Retraces start sites i (Walk.bindStatement read) (bindStatement read') := by
  refine Retraces.current_bind (Retraces.expectNext_bind (by decide) hi fun hname => ?_)
  refine Retraces.current_bind (Retraces.expectNext_bind (by decide) (Nat.le_of_lt hname) ?_)
  intro hassign
  refine Retraces.advance_bind_of_lt hassign ?_
  refine (hread (Nat.le_refl _) (by omega) hassign (hsites.mono (by omega))).bind ?_
  exact fun value j _ hj => ending_retraces hj

theorem leaveStatement_retraces :
    Retraces start sites i (Walk.leaveStatement read) (leaveStatement read') := by
  refine Retraces.current_bind (Retraces.upcoming_bind (Retraces.ite (fun _ => ?_) fun _ => ?_))
  · exact ending_retraces hi
  · have honward := start.le_onwardFrom i
    refine Retraces.advance_bind hi ?_
    refine (hread (Nat.le_refl _) honward (Cursor.onwardFrom_le hi) (hsites.mono honward)).bind ?_
    exact fun value j _ hj => ending_retraces hj

theorem exprStatement_retraces :
    Retraces start sites i (Walk.exprStatement read) (exprStatement read') := by
  refine Retraces.current_bind ?_
  refine (hread (Nat.le_refl _) (Nat.le_refl i) hi hsites).bind ?_
  exact fun value j _ hj => ending_retraces hj

theorem statement_retraces :
    Retraces start sites i (Walk.statement read) (statement read') := by
  refine Retraces.current_bind ?_
  cases (start.seek i).current.kind
  case letWord => exact bindStatement_retraces hread hsites hi
  case returnWord => exact leaveStatement_retraces hread hsites hi
  all_goals exact exprStatement_retraces hread hsites hi

end Statements

/-- Every turn over statements gets on: it starts before the last token, and moves on from
where the statement was left. -/
theorem statements_retraces (hread : ReadsFrom start i read read') (hsites : Before sites i)
    (hi : i ≤ start.size) (inBlock : Bool) {turns turns' : Nat} (hturns : start.size < i + turns)
    (hturns' : start.size ≤ i + turns') :
    Retraces start sites i (Walk.statements read inBlock turns)
      (statements read' inBlock turns') := by
  induction turns generalizing i turns' with
  | zero => omega
  | succ turns ih =>
      by_cases hstop : stops inBlock (start.seek i).current.kind = true
      · refine Retraces.congr ?_ (statements_run_of_stops hstop) (Retraces.pure hi [])
        unfold Walk.statements
        rw [Walk.current_bind_run, if_pos hstop]
      · -- An end token stops the loop wherever it stands, so this turn starts before the last.
        have hlt : i < start.size := by
          refine Cursor.lt_of_current fun heof => hstop ?_
          rw [heof]
          rfl
        obtain ⟨turns', rfl⟩ : ∃ n, turns' = n + 1 := ⟨turns' - 1, by omega⟩
        have hrest {j : Nat} (hij : i < j) (hj : j ≤ start.size) :
            Retraces start sites j (Walk.statements read inBlock turns)
              (statements read' inBlock turns') :=
          ih (hread.mono (by omega)) (hsites.mono (by omega)) hj (by omega) (by omega)
        refine Retraces.current_bind (Retraces.ite (fun h => absurd h hstop) fun _ => ?_)
        refine Retraces.place_bind (Retraces.ite (fun _ => ?_) fun _ => ?_)
        · refine Retraces.advance_bind_of_lt hlt ?_
          exact Retraces.turned_bind (by omega) hlt (hrest (by omega) hlt)
        · refine (statement_retraces hread hsites hi).attempt.bind fun found j hij hj => ?_
          -- A statement may end where it began, or on the last token; moving on makes up for
          -- the one, and in the other case there is nothing to make up for.
          have hafter : i < start.onwardFrom j := Cursor.lt_onwardFrom hlt hij
          have hlast : start.onwardFrom j ≤ start.size := Cursor.onwardFrom_le hj
          refine Retraces.advance_bind hj (Retraces.turned_bind hafter hlast ?_)
          exact (hrest hafter hlast).bind fun rest k _ hk => Retraces.pure hk (found.toList ++ rest)

/-- A block that opens at a position before the last token has its statements behind it. -/
theorem block_retraces (hlimit : start.size < limit) (hread : ReadsFrom start (i + 1) read read')
    (hsites : Before sites i) (hi : i < start.size) :
    Retraces start sites i (Walk.block limit read) (block read') := by
  refine Retraces.within (hsites.justified .block) (Nat.le_of_lt hi) (Retraces.current_bind ?_)
  refine Retraces.advance_bind_of_lt hi ?_
  have hbody : Retraces start (⟨.block, i⟩ :: sites) (i + 1) (Walk.statements read true limit)
      (statements read' true (start.size - (i + 1))) :=
    statements_retraces hread (hsites.cons .block) hi true (by omega) (by omega)
  refine hbody.looped.bind fun body j _ hj => Retraces.current_bind ?_
  exact Retraces.ite (fun _ => Retraces.fail hj _ _) fun _ => Retraces.pure hj _

/-! ## Expressions -/

theorem parameter_retraces (hi : i ≤ start.size) :
    Retraces start sites i Walk.parameter parameter :=
  Retraces.current_bind
    (Retraces.ite (fun _ => Retraces.pure hi _) fun _ => Retraces.fail hi _ _)

/-- Every turn over the entries of a hash gets on: it starts on the opening brace or on a
comma, or it is the last. -/
theorem pairs_retraces (hread : ReadsFrom start (i + 1) read read')
    (hsites : Before sites (i + 1)) (hi : i < start.size) {turns turns' : Nat}
    (hturns : start.size < i + turns) (hturns' : start.size ≤ i + turns') :
    Retraces start sites i (Walk.pairs read turns) (pairs read' turns') := by
  induction turns generalizing i turns' with
  | zero => omega
  | succ turns ih =>
      obtain ⟨turns', rfl⟩ : ∃ n, turns' = n + 1 := ⟨turns' - 1, by omega⟩
      have hinner {j : Nat} (hij : i < j) (hj : j ≤ start.size) :
          Retraces start sites j (read .lowest) (read' .lowest) :=
        hread (Nat.le_refl _) hij hj (hsites.mono hij)
      refine Retraces.upcoming_bind (Retraces.ite (fun _ => ?_) fun _ => ?_)
      · exact Retraces.advance_bind_of_lt hi (Retraces.pure hi [])
      · refine Retraces.place_bind (Retraces.advance_bind_of_lt hi ?_)
        refine (hinner (by omega) hi).bind fun key j hij hj => ?_
        refine Retraces.expectNext_bind (by decide) hj fun hcolon => ?_
        refine Retraces.advance_bind_of_lt hcolon ?_
        refine (hinner (by omega) hcolon).bind fun value k hjk hk => Retraces.upcoming_bind ?_
        have hrest {l : Nat} (hil : i < l) (hl : l < start.size) :
            Retraces start sites l
              (do
                Walk.turned .pairs i
                let rest ← Walk.pairs read turns
                pure ((key, value) :: rest))
              (do
                let rest ← pairs read' turns'
                pure ((key, value) :: rest)) := by
          refine Retraces.turned_bind hil (Nat.le_of_lt hl) ?_
          refine (ih (hread.mono (by omega)) (hsites.mono (by omega)) hl (by omega)
            (by omega)).bind ?_
          exact fun rest m _ hm => Retraces.pure hm ((key, value) :: rest)
        -- The next turn starts on a comma, or where the value ends if a brace comes next; in
        -- either case the key alone has taken it further.
        by_cases hbrace : (start.seek k).upcoming.kind = .rbrace
        · have hlt : k + 1 < start.size := Cursor.lt_of_upcoming (by simp [hbrace])
          refine Retraces.ite (fun h => absurd hbrace h) fun _ => hrest (by omega) (by omega)
        · refine Retraces.ite (fun _ => ?_) fun h => absurd hbrace h
          exact Retraces.expectNext_bind (by decide) hk fun hcomma => hrest (by omega) hcomma

section Operands

variable (hlimit : start.size < limit) (hread : ReadsFrom start (i + 1) read read')
  (hi : i < start.size)
include hlimit hread hi

theorem conditional_retraces (hsites : Before sites (i + 1)) :
    Retraces start sites i (Walk.conditional limit read) (conditional read') := by
  have hblock {j : Nat} (hij : i < j) (hj : j < start.size) :
      Retraces start sites j (Walk.block limit read) (block read') :=
    block_retraces hlimit (hread.mono (by omega)) (hsites.mono hij) hj
  refine Retraces.current_bind (Retraces.advance_bind_of_lt hi ?_)
  refine (hread (Nat.le_refl _) (Nat.le_refl _) hi hsites).bind fun test j hij hj => ?_
  refine Retraces.expectNext_bind (by decide) hj fun hbrace => ?_
  refine (hblock (by omega) hbrace).bind fun consequence k hjk hk => ?_
  refine Retraces.upcoming_bind (Retraces.ite (fun helse => ?_) fun _ => Retraces.pure hk _)
  have hlt : k + 1 < start.size := Cursor.lt_of_upcoming (by simp [helse])
  refine Retraces.advance_bind_of_lt (by omega) ?_
  refine Retraces.expectNext_bind (by decide) (Nat.le_of_lt hlt) fun hbrace => ?_
  exact (hblock (by omega) hbrace).bind fun alternative l _ hl => Retraces.pure hl _

theorem function_retraces (hsites : Before sites (i + 1)) :
    Retraces start sites i (Walk.function limit read) (function read') := by
  refine Retraces.current_bind ?_
  refine Retraces.expectNext_bind (by decide) (Nat.le_of_lt hi) fun hparen => ?_
  refine (items_retraces hlimit (by decide) hparen (hsites.justified .items)
    fun j _ hj => parameter_retraces hj).bind fun parameters j hij hj => ?_
  refine Retraces.expectNext_bind (by decide) hj fun hbrace => ?_
  refine (block_retraces hlimit (hread.mono (by omega)) (hsites.mono (by omega)) hbrace).bind ?_
  exact fun body k _ hk => Retraces.pure hk _

/-- Items that are expressions. -/
theorem expressions_retraces {close : Kind} (hclose : close ≠ .eof)
    (hcall : (Footstep.called .items sites i).Justified) (hsites : Before sites (i + 1)) :
    Retraces start sites i (Walk.items limit (read .lowest) close)
      (Rule.items (read' .lowest) close) := by
  refine items_retraces hlimit hclose hi hcall fun j hij hj => ?_
  refine hread (Nat.le_refl _) hij hj fun site hsite => ?_
  rcases List.mem_cons.1 hsite with rfl | hsite
  · exact hij
  · exact hsites.mono hij site hsite

end Operands

/-- An operator and the expression right behind it. -/
theorem operator_retraces (hread : ReadsFrom start (i + 1) read read') (hi : i < start.size)
    (hsites : Before sites (i + 1)) {power : Power} (hpower : Power.lowest ≤ power)
    (node : Expr → Expr) :
    Retraces start sites i (do Walk.advance; let right ← read power; pure (node right))
      (do Rule.advance; let right ← read' power; pure (node right)) := by
  refine Retraces.advance_bind_of_lt hi ?_
  refine (hread hpower (Nat.le_refl _) hi hsites).bind ?_
  exact fun right j _ hj => Retraces.pure hj (node right)

/-- What an expression starts with.  A list there opens at the position of the expression
itself; everything else that is called stands behind it. -/
theorem operand_retraces (hlimit : start.size < limit)
    (hread : ReadsFrom start (i + 1) read read') (hi : i ≤ start.size) (hsites : Before sites i) :
    Retraces start (⟨.expression, i⟩ :: sites) i (Walk.operand limit read) (operand read') := by
  have hbehind : Before (⟨.expression, i⟩ :: sites) (i + 1) := hsites.cons .expression
  have hlist : (Footstep.called .items (⟨.expression, i⟩ :: sites) i).Justified := by
    intro site hsite
    rcases List.mem_cons.1 hsite with rfl | hsite
    · exact Or.inr ⟨rfl, rfl⟩
    · exact Or.inl (hsites site hsite)
  have hlt (hreal : (start.seek i).current.kind ≠ .eof) : i < start.size :=
    Cursor.lt_of_current hreal
  refine Retraces.current_bind ?_
  cases hkind : (start.seek i).current.kind
  case ident => exact Retraces.pure hi _
  case int =>
    cases (start.seek i).current.literal.toInt64? with
    | some value => exact Retraces.pure hi _
    | none => exact Retraces.fail hi _ _
  case string => exact Retraces.pure hi _
  case trueWord => exact Retraces.pure hi _
  case falseWord => exact Retraces.pure hi _
  case bang => exact operator_retraces hread (hlt (by simp [hkind])) hbehind (by decide) _
  case minus => exact operator_retraces hread (hlt (by simp [hkind])) hbehind (by decide) _
  case lparen =>
    have hi' := hlt (by simp [hkind])
    refine Retraces.advance_bind_of_lt hi' ?_
    refine (hread (Nat.le_refl _) (Nat.le_refl _) hi' hbehind).bind fun inner j _ hj => ?_
    exact Retraces.expectNext_bind (by decide) hj fun hparen =>
      Retraces.pure (Nat.le_of_lt hparen) _
  case ifWord => exact conditional_retraces hlimit hread (hlt (by simp [hkind])) hbehind
  case fnWord => exact function_retraces hlimit hread (hlt (by simp [hkind])) hbehind
  case lbracket =>
    refine (expressions_retraces hlimit hread (hlt (by simp [hkind])) (by decide) hlist
      hbehind).bind ?_
    exact fun elements j _ hj => Retraces.pure hj _
  case lbrace =>
    have hentries : Retraces start (⟨.expression, i⟩ :: sites) i (Walk.pairs read limit)
        (pairs read' (start.size - i)) :=
      pairs_retraces hread hbehind (hlt (by simp [hkind])) (by omega) (by omega)
    exact hentries.looped.bind fun entries j _ hj => Retraces.pure hj _
  all_goals exact Retraces.fail hi _ _

/-- What continues an expression is called behind all calls around it. -/
theorem continuation_retraces (hlimit : start.size < limit)
    (hread : ReadsFrom start (i + 1) read read') (hi : i < start.size) (hsites : Before sites i)
    (left : Expr) :
    Retraces start sites i (Walk.continuation limit read left) (continuation read' left) := by
  have hbehind : Before sites (i + 1) := hsites.mono (Nat.le_succ i)
  refine Retraces.current_bind ?_
  cases hkind : (start.seek i).current.kind
  case lparen =>
    refine (expressions_retraces hlimit hread hi (by decide) (hsites.justified .items)
      hbehind).bind ?_
    exact fun arguments j _ hj => Retraces.pure hj _
  case lbracket =>
    refine Retraces.advance_bind_of_lt hi ?_
    refine (hread (Nat.le_refl _) (Nat.le_refl _) hi hbehind).bind fun key j _ hj => ?_
    exact Retraces.expectNext_bind (by decide) hj fun hbracket =>
      Retraces.pure (Nat.le_of_lt hbracket) _
  all_goals exact operator_retraces hread hi hbehind (Kind.lowest_le_power _) _

/-- Where nothing binds tighter, nothing is read on. -/
theorem climb_run_of_le {c : Cursor} {power : Power} (h : ¬ power < c.upcoming.kind.power)
    (turns : Nat) (left : Expr) : climb read' power turns left c = ⟨some left, c, []⟩ := by
  cases turns with
  | zero => rfl
  | succ turns =>
      unfold climb
      rw [Rule.upcoming_bind_run, if_neg h]
      rfl

/-- Every turn over operators gets on: an operator is not the end. -/
theorem climb_retraces (hlimit : start.size < limit)
    (hread : ReadsFrom start (i + 1) read read') (hi : i ≤ start.size)
    (hsites : Before sites (i + 1)) {power : Power} (hpower : Power.lowest ≤ power)
    {turns turns' : Nat} (hturns : start.size < i + turns) (hturns' : start.size ≤ i + turns')
    (left : Expr) :
    Retraces start sites i (Walk.climb limit read power turns left)
      (climb read' power turns' left) := by
  induction turns generalizing i turns' left with
  | zero => omega
  | succ turns ih =>
      by_cases htighter : power < (start.seek i).upcoming.kind.power
      · -- The end token binds as loosely as anything can, so it is no operator here.
        have hlt : i + 1 < start.size := by
          refine Cursor.lt_of_upcoming fun heof => ?_
          rw [heof] at htighter
          exact absurd htighter (Nat.not_lt_of_le hpower)
        obtain ⟨turns', rfl⟩ : ∃ n, turns' = n + 1 := ⟨turns' - 1, by omega⟩
        refine Retraces.upcoming_bind (Retraces.ite (fun _ => ?_) fun h => absurd htighter h)
        refine Retraces.place_bind (Retraces.advance_bind_of_lt (by omega) ?_)
        refine (continuation_retraces hlimit (hread.mono (by omega)) hlt hsites left).bind ?_
        intro larger j hij hj
        refine Retraces.turned_bind (by omega) hj ?_
        exact ih (hread.mono (by omega)) hj (hsites.mono (by omega)) (by omega) (by omega) larger
      · refine Retraces.congr ?_ (climb_run_of_le htighter turns' left) (Retraces.pure hi left)
        unfold Walk.climb
        rw [Walk.upcoming_bind_run, if_neg htighter]

/-- **The recursion gets on.**  Where both have more levels than tokens are left, a walk through
an expression goes the way of the rule: the expressions inside start at least one token further
on. -/
theorem expression_readsFrom (hlimit : start.size < limit) {levels levels' : Nat}
    (hlevels : start.size < i + levels) (hlevels' : start.size < i + levels') :
    ReadsFrom start i (Walk.expression limit levels) (expression levels') := by
  induction levels generalizing i levels' with
  | zero =>
      intro power sites j _ hij hj
      omega
  | succ levels ih =>
      intro power sites j hpower hij hj hsites
      obtain ⟨levels', rfl⟩ : ∃ n, levels' = n + 1 := ⟨levels' - 1, by omega⟩
      -- One level less is enough from the next position on.
      have hread : ReadsFrom start (j + 1) (Walk.expression limit levels) (expression levels') :=
        ih (by omega) (by omega)
      refine Retraces.within (hsites.justified .expression) hj ?_
      refine (operand_retraces hlimit hread hj hsites).bind fun left k hjk hk => ?_
      exact Retraces.looped (climb_retraces hlimit (hread.mono (by omega)) hk
        ((hsites.cons .expression).mono (by omega)) hpower (by omega) (by omega) left)

/-- A whole program is walked through. -/
theorem program_retraces (hlimit : start.size < limit) :
    Retraces start [] 0 (Walk.program limit) program := by
  refine Retraces.looped ?_
  have hread : ReadsFrom start 0 (Walk.expression limit limit)
      (expression (start.size - 0 + 1)) :=
    expression_readsFrom hlimit (by omega) (by omega)
  refine (statements_retraces hread (by simp [Before]) (Nat.zero_le _) false (by omega)
    (by omega)).bind ?_
  exact fun body j _ hj => Retraces.pure hj (Program.mk body)

end Rules

/-- A program is always read, be it empty. -/
theorem Grammar.exists_node_program (c : Cursor) : ∃ p, (program c).node? = some p := by
  obtain ⟨body, hbody⟩ := exists_node_statements (expression (c.size + 1)) false c.size c
  rcases hrun : statements (expression (c.size + 1)) false c.size c with ⟨node?, d, errors⟩
  obtain rfl : node? = some body := by rw [← hbody, hrun]
  have hprogram : program c = ⟨some ⟨body⟩, d, errors ++ []⟩ := Rule.bind_run_of_some hrun _
  exact ⟨⟨body⟩, by rw [hprogram]⟩

/-- **The parser ends on every list of tokens**, whatever their kinds and literals, with end
tokens among them or without one at the end.  Under any limit above the index of the last
token the walk through a program ends, with the program and the errors that the parser gives.
Its positions never go back and never beyond the last token.  Every rule is called later than
the calls around it, but for the list that an expression starts with, and every turn of a loop
is over later than it began. -/
theorem parsing_terminates (tokens : List Token) {limit : Nat}
    (hlimit : (Cursor.ofTokens tokens).size < limit) :
    ∃ walked, Walk.program limit (Cursor.ofTokens tokens) [] 0 = some walked ∧
      walked.node? = some (parseTokens tokens).1 ∧ walked.errors = (parseTokens tokens).2 ∧
      Steady (Cursor.ofTokens tokens).size 0 walked.place walked.trail := by
  obtain ⟨walked, hwalk, hmatches⟩ := program_retraces hlimit
  obtain ⟨p, hp⟩ := Grammar.exists_node_program (Cursor.ofTokens tokens)
  refine ⟨walked, hwalk, ?_, hmatches.errors, hmatches.steady⟩
  rw [hmatches.node, parseTokens, Cursor.seek_zero, hp]
  rfl

/-- An unclosed list with an unclosed function in it, an operator and a sign without operands,
with end tokens behind the first two and none behind the last. -/
def strayEnds : List Token :=
  [.lbracket, .fnWord, .lparen, .rparen, .lbrace, .eof, .semicolon, .ident, .plus, .eof,
    .minus].map fun kind => ⟨kind, [], .start⟩

theorem parsing_terminates_among_stray_ends :
    (Cursor.ofTokens strayEnds).size = 11 ∧
      ∃ walked, Walk.program 12 (Cursor.ofTokens strayEnds) [] 0 = some walked ∧
        walked.place = 11 ∧ walked.errors.length = 3 ∧
        .called .items [⟨.expression, 0⟩] 0 ∈ walked.trail ∧
        .called .block [⟨.expression, 1⟩, ⟨.items, 0⟩, ⟨.expression, 0⟩] 4 ∈ walked.trail ∧
        walked.trail.getLast? = some (.turned .statements 10 11) ∧
        Steady 11 0 walked.place walked.trail := by
  have hsize : (Cursor.ofTokens strayEnds).size = 11 := by decide
  obtain ⟨walked, hwalk, _, _, hsteady⟩ :=
    parsing_terminates strayEnds (by omega : (Cursor.ofTokens strayEnds).size < 12)
  have htrail : (Walk.program 12 (Cursor.ofTokens strayEnds) [] 0).all (fun walked =>
      walked.place = 11 ∧ walked.errors.length = 3 ∧
        .called .items [⟨.expression, 0⟩] 0 ∈ walked.trail ∧
        .called .block [⟨.expression, 1⟩, ⟨.items, 0⟩, ⟨.expression, 0⟩] 4 ∈ walked.trail ∧
        walked.trail.getLast? = some (.turned .statements 10 11)) = true := by
    decide +kernel
  rw [hwalk, Option.all_some, decide_eq_true_eq] at htrail
  obtain ⟨hplace, herrors, hlist, hblock, hlast⟩ := htrail
  exact ⟨hsize, walked, hwalk, hplace, herrors, hlist, hblock, hlast, hsize ▸ hsteady⟩

/-- Under a lower limit the walk may have no outcome: three brackets nest three deep, and a
fourth expression is looked for at the end. -/
example : (Walk.program 3 (Cursor.ofTokens ([.lbracket, .lbracket, .lbracket].map fun kind =>
    ⟨kind, [], .start⟩)) [] 0).isNone = true := by decide

end MonkeyLang
