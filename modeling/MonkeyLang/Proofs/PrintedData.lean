import MonkeyLang.Proofs.KeyedWrites
import MonkeyLang.Proofs.Numerals
import MonkeyLang.Proofs.RenderedReading
import MonkeyLang.Interpreter

/-!
# Printed data is a program

Integers, booleans, arrays and hashes show themselves in the syntax of the language.  A
negative integer is printed with a minus sign and read as a sign before a numeral, so
the least integer cannot be read back; every other value that is made of these can.  Its
text is one expression, which evaluates to the same value, made anew: with new stamps, and
equal to it in all else.

The induction is on how the value is made.  Each construct keeps `Value.WrittenAs`: what
the text is scanned as, the expression these tokens are, and that the expression gives
the value wherever its tokens stand.
-/

namespace MonkeyLang

/-! ## Data -/

/-- Integers above the least one and booleans can be keys of printed hashes. -/
inductive Key.Plain : Key → Prop
  | integer {n : Int64} (h : n ≠ Int64.minValue) : Key.Plain (.integer n)
  | boolean (b : Bool) : Key.Plain (.boolean b)

/-- Values made of integers above the least one, of booleans, of arrays, and of hashes with
such keys, each key once. -/
inductive Value.Data : Value → Prop
  | integer {n : Int64} (h : n ≠ Int64.minValue) : Value.Data (.integer n)
  | boolean (b : Bool) : Value.Data (.boolean b)
  | array {stamp : Stamp} {elements : List Value} (h : ∀ v ∈ elements, v.Data) :
      Value.Data (.array stamp elements)
  | hash {stamp : Stamp} {entries : Table Value} (honce : entries.order.Nodup)
      (hkeys : ∀ entry ∈ entries, entry.1.Plain) (h : ∀ entry ∈ entries, entry.2.Data) :
      Value.Data (.hash stamp entries)

mutual

/-- What is left of a value when it is not told from another one of the same make. -/
def Value.unstamped : Value → Value
  | .integer n => .integer n
  | .boolean b => .boolean b
  | .string s => .string s
  | .null => .null
  | .returned _ value => .returned 0 value.unstamped
  | .error cause => .error cause
  | .function _ parameters body frame => .function 0 parameters body frame
  | .builtin name code => .builtin name code
  | .array _ elements => .array 0 (unstampedAll elements)
  | .hash _ entries => .hash 0 (unstampedEntries entries)

/-- Values without their stamps. -/
def unstampedAll : List Value → List Value
  | [] => []
  | value :: rest => value.unstamped :: unstampedAll rest

/-- Entries of a hash, in order, without the stamps of their values. -/
def unstampedEntries : List (Key × Value) → List (Key × Value)
  | [] => []
  | (key, value) :: rest => (key, value.unstamped) :: unstampedEntries rest

end

theorem unstampedEntries_eq_map (entries : List (Key × Value)) :
    unstampedEntries entries = entries.map (Prod.map id Value.unstamped) := by
  induction entries with
  | nil => rw [unstampedEntries, List.map_nil]
  | cons entry rest ih =>
      obtain ⟨key, value⟩ := entry
      rw [unstampedEntries, List.map_cons, ih]
      rfl

/-- A value made like a key is that key. -/
theorem Value.eq_of_unstamped_eq {v : Value} {k : Key} (h : v.unstamped = k.value.unstamped) :
    v = k.value := by
  cases k <;> cases v <;> simp_all [Key.value, Value.unstamped]

/-- A value made like data is neither an error nor on its way out of a function. -/
theorem Value.Data.of_unstamped_eq {v v' : Value} (h : v.Data) (heq : v'.unstamped = v.unstamped) :
    v'.isError = false ∧ v'.landed = v' := by
  cases h <;> cases v' <;> simp_all [Value.unstamped, Value.isError, Value.landed]

/-! ## Expressions that give data -/

/-- Wherever it is evaluated, the expression gives a value made like the given one. -/
def Expr.Denotes (e : Expr) (v : Value) : Prop :=
  ∀ call frame s, ∃ v' s', e.eval call frame s = some (v', s') ∧ v'.unstamped = v.unstamped

theorem Expr.Denotes.int (t : Token) (n : Int64) : (Expr.int t n).Denotes (.integer n) := by
  intro call frame s
  refine ⟨.integer n, s, ?_, rfl⟩
  rw [Expr.eval]
  rfl

theorem Expr.Denotes.bool (t : Token) (b : Bool) : (Expr.bool t b).Denotes (.boolean b) := by
  intro call frame s
  refine ⟨.boolean b, s, ?_, rfl⟩
  rw [Expr.eval]
  rfl

/-- A minus sign before a numeral. -/
theorem Expr.Denotes.negated {t : Token} (h : t.literal = ("-" : Text)) (u : Token) (n : Int64) :
    (Expr.unary t (.int u n)).Denotes (.integer (-n)) := by
  intro call frame s
  refine ⟨.integer (-n), s, ?_, rfl⟩
  rw [Expr.eval, Expr.eval, h]
  rfl

/-- Expressions of data, evaluated from left to right. -/
theorem evalValues_of_denotes {es : List Expr} {values : List Value}
    (h : List.Forall₂ Expr.Denotes es values) (hdata : ∀ v ∈ values, v.Data) (call : Call)
    (frame : FrameId) (s : State) :
    ∃ made s', evalValues call frame es s = some (.ok made, s') ∧
      unstampedAll made = unstampedAll values := by
  induction h generalizing s with
  | nil => exact ⟨[], s, rfl, rfl⟩
  | @cons e v es values he _ ih =>
      obtain ⟨v', t, heval, hmade⟩ := he call frame s
      obtain ⟨made, s', hrest, hmades⟩ := ih (fun w hw => hdata w (List.mem_cons_of_mem v hw)) t
      have hsound := ((hdata v List.mem_cons_self).of_unstamped_eq hmade).1
      refine ⟨v' :: made, s', ?_, by rw [unstampedAll, unstampedAll, hmade, hmades]⟩
      rw [evalValues_cons_of_value heval hsound, hrest]
      rfl

/-- An array literal. -/
theorem Expr.Denotes.array {es : List Expr} {values : List Value}
    (h : List.Forall₂ Expr.Denotes es values) (hdata : ∀ v ∈ values, v.Data) (t : Token)
    (stamp : Stamp) : (Expr.array t es).Denotes (.array stamp values) := by
  intro call frame s
  obtain ⟨made, s', hall, hmade⟩ := evalValues_of_denotes h hdata call frame s
  refine ⟨.array s'.effects.nextStamp made, s'.stamped, ?_, by simp [Value.unstamped, hmade]⟩
  rw [Expr.eval, onValues_evalAll, Run.bind_run_of_some hall]
  rfl

/-- The expressions are a key and a value. -/
def DenotesEntry (pair : Expr × Expr) (entry : Key × Value) : Prop :=
  pair.1.Denotes entry.1.value ∧ pair.2.Denotes entry.2

/-- Entries of a hash literal, evaluated from left to right. -/
theorem exists_pairsGive {pairs : List (Expr × Expr)} {entries : List (Key × Value)}
    (h : List.Forall₂ DenotesEntry pairs entries) (hdata : ∀ entry ∈ entries, entry.2.Data)
    (call : Call) (frame : FrameId) (s : State) :
    ∃ made s', PairsGive call frame pairs s made s' ∧
      unstampedEntries made = unstampedEntries entries := by
  induction h generalizing s with
  | nil => exact ⟨[], s, .nil s, rfl⟩
  | @cons pair entry pairs entries hpair _ ih =>
      obtain ⟨k', t, hkey, hmadeKey⟩ := hpair.1 call frame s
      obtain ⟨v', u, hvalue, hmade⟩ := hpair.2 call frame t
      obtain ⟨made, s', hrest, hmades⟩ :=
        ih (fun other hother => hdata other (List.mem_cons_of_mem entry hother)) u
      have hsound := ((hdata entry List.mem_cons_self).of_unstamped_eq hmade).1
      rw [Value.eq_of_unstamped_eq hmadeKey] at hkey
      exact ⟨(entry.1, v') :: made, s', .cons hkey hvalue hsound hrest, by
        rw [unstampedEntries, unstampedEntries, hmade, hmades]⟩

/-- A write under a new key goes to the end. -/
theorem Table.set_of_new {α : Type} {table : Table α} {k : Key} (h : k.code ∉ table.order)
    (v : α) : table.set k v = table ++ [(k, v)] := by
  induction table with
  | nil => rfl
  | cons entry rest ih =>
      simp only [order, List.map_cons, List.mem_cons, not_or] at h
      rw [set, beq_false_of_ne (Ne.symm h.1), ih h.2]
      rfl

/-- Writes under keys that all differ are the entries they make. -/
theorem Table.ofWrites_of_nodup {α : Type} {writes : List (Key × α)}
    (h : (order writes).Nodup) : ofWrites writes = writes := by
  induction writes using List.reverseRecOn with
  | nil => rfl
  | append_singleton writes write ih =>
      rw [order, List.map_append, List.nodup_append] at h
      obtain ⟨hbefore, _, hnew⟩ := h
      have hfresh : write.1.code ∉ order writes :=
        fun hmem => hnew _ hmem _ (List.mem_singleton_self _) rfl
      rw [ofWrites_concat, ih hbefore, set_of_new hfresh]

/-- A hash literal. -/
theorem Expr.Denotes.hash {pairs : List (Expr × Expr)} {entries : Table Value}
    (h : List.Forall₂ DenotesEntry pairs entries) (hdata : ∀ entry ∈ entries, entry.2.Data)
    (honce : entries.order.Nodup) (t : Token) (stamp : Stamp) :
    (Expr.hash t pairs).Denotes (.hash stamp entries) := by
  intro call frame s
  obtain ⟨made, s', hgive, hmade⟩ := exists_pairsGive h hdata call frame s
  have horder : Table.order made = Table.order entries := by
    rw [unstampedEntries_eq_map, unstampedEntries_eq_map] at hmade
    have hcodes := congrArg (List.map fun entry : Key × Value => entry.1.code) hmade
    simpa [Table.order, Function.comp_def] using hcodes
  refine ⟨.hash s'.effects.nextStamp made, s'.stamped, ?_, by simp [Value.unstamped, hmade]⟩
  rw [Expr.eval, evalPairs_of_gives hgive .empty]
  change some (Value.hash _ (Hash.ofWrites made).table, _) = _
  rw [(Hash.shows_ofWrites made).table_eq, Table.ofWrites_of_nodup (horder ▸ honce)]

/-! ## Data as it is written -/

/-- The text of the value is scanned as the given tokens, they are the given expression, and
with its tokens anywhere the expression gives the value. -/
structure Value.WrittenAs (v : Value) (e : Expr) (tokens : List Token) : Prop where
  phrase : Phrase .sign tokens e
  scanned : v.inspect.ScannedAs tokens
  denotes : ∀ e', e.Copy .placed e' → e'.Denotes v

theorem Value.WrittenAs.loosest {v : Value} {e : Expr} {tokens : List Token}
    (h : v.WrittenAs e tokens) : Phrase .equality tokens e :=
  h.phrase.loosen_to (by decide)

/-- A word or a number is one token. -/
theorem Token.Spelled.scannedAs {t : Token} (h : t.Spelled) (hkind : t.kind ∉ Kind.marks) :
    t.literal.ScannedAs [t.bare] := by
  intro rest hrest
  exact h.tokensOf_append (Kind.parts_of_parted hkind hrest)

/-- The numeral of a number, as a token. -/
def numeral (n : Nat) : Token := ⟨.int, Text.ofNat n, .start⟩

theorem scannedAs_numeral (n : Nat) : (Text.ofNat n).ScannedAs [numeral n] := by
  have hdigits := Text.isDigit_of_mem_ofNat n
  obtain ⟨b, more, hcons⟩ := List.exists_cons_of_ne_nil (Text.ofNat_ne_nil n)
  have hspelled : (numeral n).Spelled := by
    rw [hcons, List.forall_mem_cons] at hdigits
    exact .number hcons hdigits.1 hdigits.2 rfl
  have hkind : Kind.int ∉ Kind.marks := by decide
  exact hspelled.scannedAs hkind

theorem phrase_numeral {n : Nat} (h : n < 0x8000000000000000) :
    Phrase .primary [numeral n] (.int (numeral n) (Int64.ofNat n)) :=
  Phrase.int rfl (Text.toInt64?_ofNat h)

namespace Value

/-- Integers above the least one are numerals, or numerals behind a sign. -/
theorem exists_writtenAs_integer {n : Int64} (h : n ≠ Int64.minValue) :
    ∃ e tokens, (Value.integer n).WrittenAs e tokens := by
  have hupper := n.toInt_lt
  have hlower := n.le_toInt
  have hword := n.ofInt_toInt
  have hleast : n.toInt ≠ -2 ^ 63 := by
    intro heq
    exact h (Int64.toInt_inj.1 (heq.trans Int64.toInt_minValue.symm))
  cases hn : n.toInt with
  | ofNat m =>
      rw [hn, Int.ofNat_eq_natCast] at hupper hword
      have hm : m < 0x8000000000000000 := by omega
      have hvalue : n = Int64.ofNat m := hword.symm.trans Int64.ofInt_eq_ofNat
      refine ⟨_, _, (phrase_numeral hm).loosen_to (by decide), ?_, ?_⟩
      · rw [inspect, hn]
        exact scannedAs_numeral m
      · intro e' hcopy
        cases hcopy
        rw [hvalue]
        exact Expr.Denotes.int _ _
  | negSucc m =>
      rw [hn] at hlower hword hleast
      have hm : m + 1 < 0x8000000000000000 := by omega
      have hvalue : n = -Int64.ofNat (m + 1) := by
        rw [← hword, Int.negSucc_eq, Int64.ofInt_neg]
        exact congrArg _ Int64.ofInt_eq_ofNat
      have hoperand := (phrase_numeral hm).loosen_to (show Level.sign.power ≤ _ by decide)
      refine ⟨_, _, Phrase.unary (t := Kind.minus.mark) (Or.inr rfl) hoperand, ?_, ?_⟩
      · intro rest hrest
        have htext : (Value.integer n).inspect = Text.ofString "-" ++ Text.ofNat (m + 1) := by
          rw [inspect, hn]
          rfl
        rw [htext, List.append_assoc, tokensOf_text .minus rfl (by decide) fun _ => rfl,
          scannedAs_numeral (m + 1) rest hrest]
        rfl
      · intro e' hcopy
        rw [hvalue]
        cases hcopy with
        | unary hsign hnumeral =>
            cases hnumeral
            exact Expr.Denotes.negated (Token.literal_eq_of_bare hsign) _ _

theorem exists_writtenAs_boolean (b : Bool) : ∃ e tokens, (Value.boolean b).WrittenAs e tokens := by
  have hdenotes (t : Token) : ∀ e', (Expr.bool t b).Copy .placed e' → e'.Denotes (.boolean b) := by
    intro e' hcopy
    cases hcopy
    exact Expr.Denotes.bool _ _
  cases b with
  | true =>
      have hspelled : Token.Spelled ⟨.trueWord, "true", .start⟩ :=
        .word rfl rfl (List.all_eq_true.1 rfl) rfl
      exact ⟨_, _, (Phrase.yes rfl).loosen_to (by decide), hspelled.scannedAs (by decide),
        hdenotes _⟩
  | false =>
      have hspelled : Token.Spelled ⟨.falseWord, "false", .start⟩ :=
        .word rfl rfl (List.all_eq_true.1 rfl) rfl
      exact ⟨_, _, (Phrase.no rfl).loosen_to (by decide), hspelled.scannedAs (by decide),
        hdenotes _⟩

theorem exists_writtenAs_key {k : Key} (h : k.Plain) : ∃ e tokens, k.value.WrittenAs e tokens := by
  cases h with
  | integer hn => exact exists_writtenAs_integer hn
  | boolean b => exact exists_writtenAs_boolean b

/-! ## Collections as they are written -/

theorem inspectAll_ne_nil {values : List Value} (h : values ≠ []) : inspectAll values ≠ [] := by
  cases values with
  | nil => exact absurd rfl h
  | cons v rest => simp [inspectAll]

/-- Values with commas between them. -/
theorem exists_series {values : List Value} (hne : values ≠ [])
    (h : ∀ v ∈ values, ∃ e tokens, v.WrittenAs e tokens) :
    ∃ es tokens, Series (Phrase .equality) tokens es ∧
      (Text.joined ", " (inspectAll values)).ScannedAs tokens ∧
      ∀ es', CopyAll .placed es es' → List.Forall₂ Expr.Denotes es' values := by
  induction values with
  | nil => exact absurd rfl hne
  | cons v rest ih =>
      rw [List.forall_mem_cons] at h
      obtain ⟨e, tokens, hv⟩ := h.1
      by_cases hrest : rest = []
      · subst hrest
        refine ⟨[e], tokens, .one hv.loosest, hv.scanned.joined_single, ?_⟩
        intro es' hcopy
        cases hcopy with
        | cons hfirst hnone =>
            cases hnone
            exact .cons (hv.denotes _ hfirst) .nil
      · obtain ⟨es, others, hseries, hscanned, hdenotes⟩ := ih hrest h.2
        refine ⟨e :: es, tokens ++ Kind.comma.mark :: others, .more hv.loosest rfl hseries,
          hv.scanned.joined_cons (inspectAll_ne_nil hrest) hscanned, ?_⟩
        intro es' hcopy
        cases hcopy with
        | cons hfirst hothers => exact .cons (hv.denotes _ hfirst) (hdenotes _ hothers)

theorem inspectEntries_ne_nil {entries : List (Key × Value)} (h : entries ≠ []) :
    inspectEntries entries ≠ [] := by
  cases entries with
  | nil => exact absurd rfl h
  | cons entry rest => simp [inspectEntries]

theorem scannedAs_joined_nil : (Text.joined ", " []).ScannedAs [] := by
  intro rest _
  rfl

theorem exists_writtenAs_array {stamp : Stamp} {values : List Value} (hdata : ∀ v ∈ values, v.Data)
    (h : ∀ v ∈ values, ∃ e tokens, v.WrittenAs e tokens) :
    ∃ e tokens, (Value.array stamp values).WrittenAs e tokens := by
  obtain ⟨es, tokens, hlisting, hscanned, hdenotes⟩ :
      ∃ es tokens, Listing (Phrase .equality) tokens es ∧
        (Text.joined ", " (inspectAll values)).ScannedAs tokens ∧
        ∀ es', CopyAll .placed es es' → List.Forall₂ Expr.Denotes es' values := by
    by_cases hne : values = []
    · subst hne
      refine ⟨[], [], .none, scannedAs_joined_nil, ?_⟩
      intro es' hcopy
      cases hcopy
      exact .nil
    · obtain ⟨es, tokens, hseries, hrest⟩ := exists_series hne h
      exact ⟨es, tokens, .some hseries, hrest⟩
  have hphrase : Phrase .primary (Kind.lbracket.mark :: (tokens ++ [Kind.rbracket.mark])) _ :=
    .array rfl hlisting rfl
  refine ⟨_, _, hphrase.loosen_to (by decide), ?_, ?_⟩
  · intro rest hrest
    simp only [inspect, List.append_assoc]
    rw [tokensOf_text .lbracket rfl (by decide) fun _ => rfl, hscanned _ (Text.parted_append _ rfl),
      tokensOf_text .rbracket rfl (by decide) fun _ => rfl]
    simp
  · intro e' hcopy
    cases hcopy with
    | array _ helements => exact Expr.Denotes.array (hdenotes _ helements) hdata _ stamp

/-- The text of an entry. -/
theorem scannedAs_entry {k v : Value} {a b : Expr} {key value : List Token}
    (hkey : k.WrittenAs a key) (hvalue : v.WrittenAs b value) :
    (k.inspect ++ Text.ofString ": " ++ v.inspect).ScannedAs (key ++ Kind.colon.mark :: value) := by
  have htext : Text.ofString ": " = Text.ofString ":" ++ Text.ofString " " := rfl
  intro rest hrest
  simp only [List.append_assoc, htext]
  rw [hkey.scanned _ (Text.parted_append _ rfl), tokensOf_text .colon rfl (by decide) fun _ => rfl,
    tokensOf_blank, hvalue.scanned rest hrest]
  simp

theorem inspect_value (k : Key) : k.value.inspect = k.inspect := by
  cases k with
  | boolean b => cases b <;> rfl
  | _ => rfl

/-- Entries with commas between them. -/
theorem exists_entries {entries : List (Key × Value)}
    (hkeys : ∀ entry ∈ entries, ∃ e tokens, entry.1.value.WrittenAs e tokens)
    (h : ∀ entry ∈ entries, ∃ e tokens, entry.2.WrittenAs e tokens) :
    ∃ pairs tokens, Entries tokens pairs ∧
      (Text.joined ", " (inspectEntries entries)).ScannedAs tokens ∧
      ∀ pairs', CopyPairs .placed pairs pairs' → List.Forall₂ DenotesEntry pairs' entries := by
  induction entries with
  | nil =>
      refine ⟨[], [], .none, scannedAs_joined_nil, ?_⟩
      intro pairs' hcopy
      cases hcopy
      exact .nil
  | cons entry rest ih =>
      rw [List.forall_mem_cons] at hkeys h
      obtain ⟨a, key, hkey⟩ := hkeys.1
      obtain ⟨b, value, hvalue⟩ := h.1
      have hentry := scannedAs_entry hkey hvalue
      rw [inspect_value] at hentry
      -- No comma stands behind the last entry.
      by_cases hrest : rest = []
      · subst hrest
        have hcolon : Kind.colon.mark.kind = .colon := rfl
        refine ⟨_, _, .last hkey.loosest hcolon hvalue.loosest, hentry.joined_single, ?_⟩
        intro pairs' hcopy
        cases hcopy with
        | cons ha hb hnone =>
            cases hnone
            exact .cons ⟨hkey.denotes _ ha, hvalue.denotes _ hb⟩ .nil
      · obtain ⟨pairs, others, hentries, hscanned, hdenotes⟩ := ih hkeys.2 h.2
        have hjoined := hentry.joined_cons (inspectEntries_ne_nil hrest) hscanned
        rw [List.append_assoc key, List.cons_append] at hjoined
        refine ⟨_, _, .more hkey.loosest rfl hvalue.loosest rfl hentries, hjoined, ?_⟩
        intro pairs' hcopy
        cases hcopy with
        | cons ha hb hothers =>
            exact .cons ⟨hkey.denotes _ ha, hvalue.denotes _ hb⟩ (hdenotes _ hothers)

theorem exists_writtenAs_hash {stamp : Stamp} {entries : Table Value}
    (honce : entries.order.Nodup) (hkeys : ∀ entry ∈ entries, entry.1.Plain)
    (hdata : ∀ entry ∈ entries, entry.2.Data)
    (h : ∀ entry ∈ entries, ∃ e tokens, entry.2.WrittenAs e tokens) :
    ∃ e tokens, (Value.hash stamp entries).WrittenAs e tokens := by
  have hwritten : ∀ entry ∈ entries, ∃ e tokens, entry.1.value.WrittenAs e tokens :=
    fun entry hentry => exists_writtenAs_key (hkeys entry hentry)
  obtain ⟨pairs, tokens, hentries, hscanned, hdenotes⟩ := exists_entries hwritten h
  have hphrase : Phrase .primary (Kind.lbrace.mark :: (tokens ++ [Kind.rbrace.mark])) _ :=
    .hash rfl hentries rfl
  refine ⟨_, _, hphrase.loosen_to (by decide), ?_, ?_⟩
  · intro rest hrest
    simp only [inspect, List.append_assoc]
    rw [tokensOf_text .lbrace rfl (by decide) fun _ => rfl, hscanned _ (Text.parted_append _ rfl),
      tokensOf_text .rbrace rfl (by decide) fun _ => rfl]
    simp
  · intro e' hcopy
    cases hcopy with
    | hash _ hpairs => exact Expr.Denotes.hash (hdenotes _ hpairs) hdata honce _ stamp

/-- All data can be written. -/
theorem Data.exists_writtenAs {v : Value} (h : v.Data) : ∃ e tokens, v.WrittenAs e tokens := by
  induction h with
  | integer h => exact exists_writtenAs_integer h
  | boolean b => exact exists_writtenAs_boolean b
  | array h ih => exact exists_writtenAs_array h ih
  | hash honce hkeys h ih => exact exists_writtenAs_hash honce hkeys h ih

end Value

/-! ## Programs of one expression -/

/-- The result of a single statement is the result of all. -/
theorem evalStatements_single (call : Call) (frame : FrameId) (statement : Stmt) (last : Value) :
    evalStatements call frame [statement] last = statement.eval call frame := by
  simp only [evalStatements, ite_self, bind_pure]

/-- **Printed data is a program that gives the data again.**  The text of a value made of
integers above the least one, booleans, arrays and hashes is read without an error, in any
interpreter, and evaluates to the same value but for its stamps.  So the entries of hashes
come back in their order. -/
theorem printed_data_reads_back {v : Value} (h : v.Data) (ip : Interpreter) (budget : Nat) :
    ∃ v' ip', ip.interpretApart budget v.inspect = .ok (some (v', ip')) ∧
      v'.unstamped = v.unstamped := by
  obtain ⟨e, tokens, hwritten⟩ := h.exists_writtenAs
  have htokens := hwritten.scanned [] Text.parted_nil
  rw [List.append_nil, tokensOf_nil] at htokens
  obtain ⟨t, e', hparse, hcopy⟩ := parse_of_phrase htokens hwritten.loosest
  let apart := (ip.addFrame (some Frames.global)).2
  obtain ⟨v', s', heval, hmade⟩ :=
    hwritten.denotes e' hcopy (apart.call budget) ip.state.frames.size apart.state
  have hprogram : (Program.mk [.expr t e']).eval (apart.call budget) ip.state.frames.size
      apart.state = some (v', s') := by
    rw [Program.eval, evalStatements_single, Stmt.eval, Run.bind_run_of_some heval,
      (h.of_unstamped_eq hmade).2]
    rfl
  have hrun : ip.evalApart budget ⟨[.expr t e']⟩ = some (v', { apart with state := s' }) :=
    congrArg (Option.map _) hprogram
  refine ⟨v', { apart with state := s' }, ?_, hmade⟩
  rw [Interpreter.interpretApart, hparse]
  exact congrArg Except.ok hrun

/-- A hash in an array: the ends of the range of integers, an empty array, and a key that is
a boolean. -/
def nestedData : Value :=
  .array 7 [.integer 9223372036854775807, .integer (-9223372036854775807),
    .hash 8 [(.integer (-1), .array 9 []), (.boolean false, .hash 10 []),
      (.integer 0, .array 11 [.boolean true])]]

theorem printed_data_reads_back_of_nested :
    nestedData.Data ∧
      nestedData.inspect = Text.ofString
        "[9223372036854775807, -9223372036854775807, \x7b-1: [], false: \x7b\x7d, 0: [true]\x7d]" ∧
      ∃ v' ip', (Interpreter.new 1).interpretApart 0 nestedData.inspect = .ok (some (v', ip')) ∧
        v'.unstamped = nestedData.unstamped := by
  have hdata : nestedData.Data := by
    refine .array ?_
    simp only [List.forall_mem_cons]
    refine ⟨.integer (by decide), .integer (by decide), .hash (by decide) ?_ ?_, by simp⟩
    · simp only [List.forall_mem_cons]
      exact ⟨.integer (by decide), .boolean _, .integer (by decide), by simp⟩
    · simp only [List.forall_mem_cons]
      exact ⟨.array (by simp), .hash (by decide) (by simp) (by simp),
        .array (by simpa using Value.Data.boolean true), by simp⟩
  exact ⟨hdata, by decide +kernel, printed_data_reads_back hdata _ _⟩

end MonkeyLang
