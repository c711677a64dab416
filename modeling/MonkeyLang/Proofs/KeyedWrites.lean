import Mathlib.Data.List.Induction
import MonkeyLang.Proofs.Hashes
import MonkeyLang.Proofs.RunSteps

/-!
# Hashes as maps

A hash is put together by writing values under keys.  Two keys have the same code
exactly when the language calls them equal, whatever their fingerprints: the code of a
string holds the string.  So what a hash holds can be told from the writes alone.  Under
a key is what was last written under an equal one, and the keys stand in the order in
which they were first written, each of them once.

What holds of every table that was written follows along the writes, and the hash made by
the same writes shows that table (`Hash.shows_ofWrites`).  A hash literal is a row of writes
too (`evalPairs_of_gives`).
-/

namespace MonkeyLang

/-! ## Keys -/

/-- Codes tell keys apart, strings with the same fingerprint among them. -/
theorem Key.code_injective {k l : Key} (h : k.code = l.code) : k = l := by
  have hkind := congrArg KeyCode.kind h
  have hword := congrArg KeyCode.word h
  have htext := congrArg KeyCode.text h
  cases k with
  | integer m =>
      cases l with
      | integer n =>
          have hsigned : m.toUInt64.toInt64 = n.toUInt64.toInt64 := congrArg UInt64.toInt64 hword
          rw [Int64.toInt64_toUInt64, Int64.toInt64_toUInt64] at hsigned
          rw [hsigned]
      | boolean b => cases hkind
      | string s => cases hkind
  | boolean b =>
      cases l with
      | boolean c =>
          have hbool : ∀ b c : Bool,
              (if b then 1 else 0 : UInt64) = (if c then 1 else 0) → b = c := by decide
          rw [hbool b c hword]
      | integer n => cases hkind
      | string s => cases hkind
  | string s =>
      cases l with
      | string t => rw [show s = t from htext]
      | integer n => cases hkind
      | boolean b => cases hkind

/-- The values with keys are the values of keys. -/
theorem Value.key?_eq_some {v : Value} {k : Key} (h : v.key? = some k) : v = k.value := by
  cases v <;> cases h <;> rfl

@[simp]
theorem Value.key?_value (k : Key) : k.value.key? = some k := by
  cases k <;> rfl

@[simp]
theorem Value.isError_value (k : Key) : k.value.isError = false := by
  cases k <;> rfl

/-- The language calls two keys equal when they are. -/
theorem Key.same_value_iff {k l : Key} : k.value.same l.value = true ↔ k = l := by
  cases k <;> cases l <;> simp [Key.value, Value.same]

/-- **Two keys have one code exactly when they are equal.** -/
theorem Key.code_eq_iff {k l : Key} : k.code = l.code ↔ k.value.same l.value = true := by
  rw [same_value_iff]
  exact ⟨code_injective, congrArg code⟩

/-! ## Writes -/

namespace Table

variable {α : Type}

/-- Writes made one after another. -/
def setAll (table : Table α) (writes : List (Key × α)) : Table α :=
  writes.foldl (fun table write => set table write.1 write.2) table

/-- The table that writes make of an empty one. -/
def ofWrites (writes : List (Key × α)) : Table α := setAll [] writes

/-- What was last written under a key that is equal to the given one. -/
def lastWrite (writes : List (Key × α)) (k : Key) : Option α :=
  (writes.reverse.find? fun write => write.1.value.same k.value).map Prod.snd

theorem ofWrites_concat (writes : List (Key × α)) (write : Key × α) :
    ofWrites (writes ++ [write]) = (ofWrites writes).set write.1 write.2 := by
  simp [ofWrites, setAll]

/-- Under a code stands the last write there. -/
theorem pair?_ofWrites (writes : List (Key × α)) (code : KeyCode) :
    (ofWrites writes).pair? code = writes.reverse.find? fun write => write.1.code == code := by
  induction writes using List.reverseRecOn with
  | nil => rfl
  | append_singleton writes write ih =>
      rw [ofWrites_concat, pair?_set, ih, List.reverse_append, List.reverse_singleton,
        List.singleton_append, List.find?_cons]
      by_cases h : write.1.code = code
      · simp [h]
      · simp [h, beq_false_of_ne h]

/-- Codes stand in the order of their first writes. -/
theorem order_ofWrites (writes : List (Key × α)) :
    (ofWrites writes).order = (writes.map fun write => write.1.code).eraseDups := by
  induction writes using List.reverseRecOn with
  | nil => rfl
  | append_singleton writes write ih =>
      have hmem : write.1.code ∈ (ofWrites writes).order ↔
          write.1.code ∈ writes.map fun write => write.1.code := by
        rw [ih, List.mem_eraseDups]
      rw [ofWrites_concat, order_set, List.map_append, List.eraseDups_append, ← ih]
      by_cases hnew : write.1.code ∈ (ofWrites writes).order
      · simp [List.removeAll, hnew, hmem.1 hnew]
      · simp [List.removeAll, hnew, mt hmem.2 hnew]
        rfl

/-- Looking up a key finds what was last written under an equal one. -/
theorem get?_ofWrites (writes : List (Key × α)) (k : Key) :
    (ofWrites writes).get? k = lastWrite writes k := by
  have hequal : (fun write : Key × α => write.1.code == k.code) =
      fun write => write.1.value.same k.value := by
    funext write
    rw [Bool.eq_iff_iff, beq_iff_eq, Key.code_eq_iff]
  have hpair := pair?_ofWrites writes k.code
  rw [hequal] at hpair
  rw [lastWrite, ← hpair]
  rfl

end Table

namespace Hash

/-- Pairs put in one after another. -/
def setAll {α : Type} (hash : Hash α) (writes : List (Key × α)) : Hash α :=
  writes.foldl (fun hash write => hash.set write.1 write.2) hash

/-- The hash that writes make of an empty one. -/
def ofWrites {α : Type} (writes : List (Key × α)) : Hash α := setAll .empty writes

/-- Hash and table stay in step along any writes. -/
theorem Shows.setAll {α : Type} {hash : Hash α} {table : Table α} (h : hash.Shows table)
    (writes : List (Key × α)) : (hash.setAll writes).Shows (Table.setAll table writes) := by
  induction writes generalizing hash table with
  | nil => exact h
  | cons write rest ih => exact ih (h.set write.1 write.2)

/-- **The same writes make a hash and the table it shows.** -/
theorem shows_ofWrites {α : Type} (writes : List (Key × α)) :
    (ofWrites writes).Shows (Table.ofWrites writes) :=
  Shows.empty.setAll writes

/-- The hash is the map that the writes make. -/
structure Maps (hash : Hash Value) (writes : List (Key × Value)) : Prop where
  /-- Under a key stands what was last written under an equal one, if anything was. -/
  get : ∀ k, hash.get? k = Table.lastWrite writes k
  /-- Codes stand in the order of their first writes. -/
  first : hash.order = (writes.map fun write => write.1.code).eraseDups
  once : hash.order.Nodup
  /-- The codes in order are the codes with a pair. -/
  present : ∀ code, code ∈ hash.order ↔ (hash.pairs code).isSome = true
  /-- The text of the hash shows every key once, in order, with its last value. -/
  shown : ∃ entries : List (Key × Value),
    entries.map (fun entry => entry.1.code) = hash.order ∧
    (∀ entry ∈ entries, Table.lastWrite writes entry.1 = some entry.2) ∧
    hash.inspect? =
      some (Text.ofString "\x7b" ++ Text.joined ", " (entries.map fun entry =>
        entry.1.inspect ++ Text.ofString ": " ++ entry.2.inspect) ++ Text.ofString "\x7d")

/-- **Writes make a map.** -/
theorem maps_ofWrites (writes : List (Key × Value)) : (ofWrites writes).Maps writes := by
  have hshows := shows_ofWrites writes
  have hget : ∀ k, (ofWrites writes).get? k = Table.lastWrite writes k := by
    intro k
    rw [hshows.get?, Table.get?_ofWrites]
  refine ⟨hget, ?_, ?_, ?_, ?_⟩
  · rw [hshows.order, Table.order_ofWrites]
  · rw [hshows.order]
    exact hshows.once
  · intro code
    rw [hshows.order, hshows.pairs]
    exact Table.mem_order_iff
  · refine ⟨Table.ofWrites writes, hshows.order.symm, ?_, ?_⟩
    · intro entry hentry
      rw [← hget, Hash.get?, hshows.pairs, Table.pair?_of_mem hshows.once hentry]
      rfl
    · rw [hshows.inspect? 0, Value.inspect, Value.inspectEntries_eq_map]

end Hash

/-! ## Hash literals -/

/-- The keys and values of a hash literal, evaluated one by one in a frame, do not fail,
and the pairs they give are the given writes. -/
inductive PairsGive (call : Call) (frame : FrameId) :
    List (Expr × Expr) → State → List (Key × Value) → State → Prop
  | nil (s : State) : PairsGive call frame [] s [] s
  | cons {key value : Expr} {k : Key} {v : Value} {rest : List (Expr × Expr)}
      {writes : List (Key × Value)} {s s₁ s₂ s₃ : State}
      (hkey : key.eval call frame s = some (k.value, s₁))
      (hvalue : value.eval call frame s₁ = some (v, s₂))
      (hsound : v.isError = false)
      (hrest : PairsGive call frame rest s₂ writes s₃) :
      PairsGive call frame ((key, value) :: rest) s ((k, v) :: writes) s₃

/-- The state after a stamp was given out. -/
def State.stamped (s : State) : State :=
  { s with effects := { s.effects with nextStamp := s.effects.nextStamp + 1 } }

/-- A hash literal writes its pairs one after another. -/
theorem evalPairs_of_gives {call : Call} {frame : FrameId} {pairs : List (Expr × Expr)}
    {writes : List (Key × Value)} {s s' : State} (h : PairsGive call frame pairs s writes s')
    (hash : Hash Value) :
    evalPairs call frame pairs hash s =
      some (.hash s'.effects.nextStamp (hash.setAll writes).table, s'.stamped) := by
  induction h generalizing hash with
  | nil s => rfl
  | @cons key value k v rest writes s s₁ s₂ s₃ hkey hvalue hsound _ ih =>
      rw [evalPairs, Run.onValue_run_of_value hkey (Value.isError_value k), Value.key?_value]
      change Run.onValue _ _ s₁ = _
      rw [Run.onValue_run_of_value hvalue hsound]
      exact ih (hash.set k v)

/-- Indexing a hash that writes made. -/
theorem Value.index_ofWrites (stamp : Stamp) (writes : List (Key × Value)) (k : Key) :
    Value.index (.hash stamp (Hash.ofWrites writes).table) k.value =
      (Table.lastWrite writes k).getD .null := by
  rw [(Hash.shows_ofWrites writes).table_eq, ← Table.get?_ofWrites]
  simp [Value.index]

/-- **A hash is a map by the equality of the language.**  Keys have one code exactly when
they are equal; what writes make of an empty hash is the map of those writes, with its pairs
and its order both read off the table of the writes; and a hash literal whose keys and values
do not fail makes such a hash of its pairs, so that its value is written like it, and indexing
gives the value of the last pair with an equal key, or null. -/
theorem hash_maps_by_equality :
    (∀ (a b : Value) (k l : Key), a.key? = some k → b.key? = some l →
      (k.code = l.code ↔ a.same b = true)) ∧
    (∀ writes : List (Key × Value), (Hash.ofWrites writes).Maps writes ∧
      (Hash.ofWrites writes).Shows (Table.ofWrites writes)) ∧
    ∀ (call : Call) (frame : FrameId) (pairs : List (Expr × Expr))
      (writes : List (Key × Value)) (s s₁ : State), PairsGive call frame pairs s writes s₁ →
        ∀ t, ∃ value, (Expr.hash t pairs).eval call frame s = some (value, s₁.stamped) ∧
          value = .hash s₁.effects.nextStamp (Hash.ofWrites writes).table ∧
          some value.inspect = (Hash.ofWrites writes).inspect? ∧
          (∀ k : Key, value.index k.value = (Table.lastWrite writes k).getD .null) ∧
          ∀ (u : Token) (key : Expr) (k : Key) (s₂ : State),
            key.eval call frame s₁.stamped = some (k.value, s₂) →
              (Expr.index u (.hash t pairs) key).eval call frame s =
                some ((Table.lastWrite writes k).getD .null, s₂) := by
  refine ⟨?_, fun writes => ⟨Hash.maps_ofWrites writes, Hash.shows_ofWrites writes⟩, ?_⟩
  · intro a b k l ha hb
    rw [Value.key?_eq_some ha, Value.key?_eq_some hb]
    exact Key.code_eq_iff
  · intro call frame pairs writes s s₁ hpairs t
    have hshows := Hash.shows_ofWrites writes
    have hhash : (Expr.hash t pairs).eval call frame s =
        some (.hash s₁.effects.nextStamp (Hash.ofWrites writes).table, s₁.stamped) := by
      rw [Expr.eval]
      exact evalPairs_of_gives hpairs .empty
    refine ⟨_, hhash, rfl, ?_, Value.index_ofWrites _ writes, ?_⟩
    · rw [hshows.table_eq, hshows.inspect?]
    · intro u key k s₂ hkey
      rw [Expr.eval, Run.onValue_run_of_value hhash rfl,
        Run.onValue_run_of_value hkey (Value.isError_value k), Value.index_ofWrites]
      rfl

/-- Two texts with the same fingerprint. -/
def twinTexts : Text × Text := ("8yn0iYCKYHlIj4-BwPqk", "GReLUrM4wMqfg9yzV3KQ")

/-- A literal with the two texts for keys, the first one twice. -/
def twinPairs : List (Expr × Expr) :=
  [(.string ⟨.string, twinTexts.1, .start⟩, .int ⟨.int, "1", .start⟩ 1),
    (.string ⟨.string, twinTexts.2, .start⟩, .int ⟨.int, "2", .start⟩ 2),
    (.string ⟨.string, twinTexts.1, .start⟩, .int ⟨.int, "3", .start⟩ 3)]

/-- What the literal writes. -/
def twinWrites : List (Key × Value) :=
  [(.string twinTexts.1, .integer 1), (.string twinTexts.2, .integer 2),
    (.string twinTexts.1, .integer 3)]

theorem hash_maps_by_equality_on_twin_texts :
    twinTexts.1.fingerprint = twinTexts.2.fingerprint ∧
      (Value.string twinTexts.1).key? = some (.string twinTexts.1) ∧
      (Value.string twinTexts.2).key? = some (.string twinTexts.2) ∧
      ((Key.string twinTexts.1).code = (Key.string twinTexts.2).code ↔
        (Value.string twinTexts.1).same (.string twinTexts.2) = true) ∧
      (Hash.ofWrites twinWrites).Maps twinWrites ∧
      (Hash.ofWrites twinWrites).Shows (Table.ofWrites twinWrites) ∧
      PairsGive (fun _ _ => Run.unfinished) 0 twinPairs ⟨#[], ⟨0, []⟩, 0⟩ twinWrites
        ⟨#[], ⟨0, []⟩, 0⟩ ∧
      (Expr.index ⟨.lbracket, "[", .start⟩ (.hash ⟨.lbrace, "\x7b", .start⟩ twinPairs)
        (.string ⟨.string, twinTexts.1, .start⟩)).eval (fun _ _ => Run.unfinished) 0
          ⟨#[], ⟨0, []⟩, 0⟩ = some (.integer 3, ⟨#[], ⟨1, []⟩, 0⟩) := by
  obtain ⟨hcodes, hmaps, hliteral⟩ := hash_maps_by_equality
  have hgive : PairsGive (fun _ _ => Run.unfinished) 0 twinPairs ⟨#[], ⟨0, []⟩, 0⟩ twinWrites
      ⟨#[], ⟨0, []⟩, 0⟩ :=
    .cons rfl rfl rfl (.cons rfl rfl rfl (.cons rfl rfl rfl (.nil _)))
  obtain ⟨_, _, _, _, _, hindex⟩ := hliteral _ _ _ _ _ _ hgive ⟨.lbrace, "\x7b", .start⟩
  refine ⟨by decide +kernel, rfl, rfl, hcodes _ _ _ _ rfl rfl, (hmaps twinWrites).1,
    (hmaps twinWrites).2, hgive, ?_⟩
  exact hindex ⟨.lbracket, "[", .start⟩ (.string ⟨.string, twinTexts.1, .start⟩)
    (.string twinTexts.1) _ rfl

end MonkeyLang
