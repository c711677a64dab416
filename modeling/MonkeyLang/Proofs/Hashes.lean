import MonkeyLang.Machine.Evaluator

/-!
# Hashes and their tables

A hash keeps two structures that could come apart: pairs by code, and codes in order.  It
shows a table if both are read off that table, and writes keep it so (`Hash.Shows.set`).
From then on the table tells all there is to know: what looking up a key finds and how the
hash is written can be read from it.

A table is looked at in the same two ways, and `Table.set` does one thing to each
(`Table.pair?_set`, `Table.order_set`).
-/

namespace MonkeyLang

/-! ## Tables -/

namespace Table

variable {α : Type}

/-- The codes of the keys, in the order of the table. -/
def order (table : Table α) : List KeyCode :=
  table.map fun entry => entry.1.code

/-- What the table holds under a code. -/
def pair? (table : Table α) (code : KeyCode) : Option (Key × α) :=
  table.find? fun entry => entry.1.code == code

theorem mem_order_iff {table : Table α} {code : KeyCode} :
    code ∈ table.order ↔ (table.pair? code).isSome = true := by
  simp only [order, pair?, List.mem_map, List.find?_isSome, beq_iff_eq]

/-- Under the code that is written stands the write, under any other what stood there. -/
theorem pair?_set (table : Table α) (k : Key) (v : α) (code : KeyCode) :
    (table.set k v).pair? code = if k.code = code then some (k, v) else table.pair? code := by
  induction table with
  | nil => by_cases h : k.code = code <;> simp [set, pair?, h]
  | cons entry rest ih =>
      unfold pair? at ih ⊢
      by_cases hentry : entry.1.code = k.code
      · simp only [set, hentry, beq_self_eq_true, if_true, List.find?_cons]
        by_cases h : k.code = code
        · simp [h]
        · simp [h, beq_false_of_ne h]
      · simp only [set, beq_false_of_ne hentry, Bool.false_eq_true, if_false, List.find?_cons, ih]
        by_cases hcode : entry.1.code = code
        · simp [hcode, hcode ▸ Ne.symm hentry]
        · simp [beq_false_of_ne hcode]

/-- A new code goes to the end; else the order stays. -/
theorem order_set (table : Table α) (k : Key) (v : α) :
    (table.set k v).order =
      if k.code ∈ table.order then table.order else table.order ++ [k.code] := by
  induction table with
  | nil => rfl
  | cons entry rest ih =>
      unfold order at ih ⊢
      by_cases hentry : entry.1.code = k.code
      · simp [set, hentry]
      · simp only [set, beq_false_of_ne hentry, Bool.false_eq_true, if_false, List.map_cons, ih,
          List.mem_cons, Ne.symm hentry, false_or]
        split <;> simp

/-- No write brings a code in twice. -/
theorem nodup_order_set {table : Table α} (h : table.order.Nodup) (k : Key) (v : α) :
    (table.set k v).order.Nodup := by
  rw [order_set]
  by_cases hold : k.code ∈ table.order
  · rwa [if_pos hold]
  · rw [if_neg hold]
    refine List.nodup_append.2 ⟨h, by simp, ?_⟩
    intro code hcode other hother heq
    rw [heq, List.mem_singleton.1 hother] at hcode
    exact hold hcode

/-- An entry of a table whose codes all differ is what stands under its code. -/
theorem pair?_of_mem {table : Table α} (h : table.order.Nodup) {entry : Key × α}
    (hmem : entry ∈ table) : table.pair? entry.1.code = some entry := by
  induction table with
  | nil => cases hmem
  | cons first rest ih =>
      obtain ⟨hfirst, hrest⟩ := List.nodup_cons.1 h
      rcases List.mem_cons.1 hmem with rfl | hmem
      · simp [pair?]
      · have hne : first.1.code ≠ entry.1.code := by
          intro heq
          exact hfirst (List.mem_map.2 ⟨entry, hmem, heq.symm⟩)
        have hlater := ih hrest hmem
        simpa [pair?, List.find?_cons, beq_false_of_ne hne] using hlater

end Table

theorem Value.inspectEntries_eq_map (entries : List (Key × Value)) :
    inspectEntries entries =
      entries.map fun entry => entry.1.inspect ++ Text.ofString ": " ++ entry.2.inspect := by
  induction entries with
  | nil => rfl
  | cons entry rest ih => simp [inspectEntries, ih]

/-! ## Hashes -/

namespace Hash

variable {α : Type}

/-- Where nothing is passed over, passing over makes no difference. -/
theorem filterMap_of_mapM {β γ : Type} {f : β → Option γ} {xs : List β} {ys : List γ}
    (h : xs.mapM f = some ys) : xs.filterMap f = ys := by
  induction xs generalizing ys with
  | nil =>
      cases h
      rfl
  | cons x xs ih =>
      rw [List.mapM_cons, Option.bind_eq_bind, Option.bind_eq_some_iff] at h
      obtain ⟨y, hy, h⟩ := h
      rw [Option.bind_eq_bind, Option.bind_eq_some_iff] at h
      obtain ⟨rest, hrest, h⟩ := h
      cases h
      rw [List.filterMap_cons_some hy, ih hrest]

/-- The hash keeps what the table holds: the codes of the table in its order, each of them
once, and under each code the entry that the table has there. -/
structure Shows (hash : Hash α) (table : Table α) : Prop where
  order : hash.order = table.order
  pairs : ∀ code, hash.pairs code = table.pair? code
  once : table.order.Nodup

namespace Shows

theorem empty : (empty : Hash α).Shows [] where
  order := rfl
  pairs _ := rfl
  once := List.nodup_nil

variable {hash : Hash α} {table : Table α}

/-- **A write keeps a hash in step with its table.**  The order grows exactly if the code had
no pair, which is when the table did not list it. -/
theorem set (h : hash.Shows table) (k : Key) (v : α) : (hash.set k v).Shows (table.set k v) where
  order := by
    rw [Table.order_set, Hash.set, h.pairs, h.order]
    simp only [Table.mem_order_iff]
  pairs code := by
    rw [Table.pair?_set, ← h.pairs, Hash.set]
    simp only [eq_comm (a := code)]
  once := Table.nodup_order_set h.once k v

/-- Looking up a key finds what the table has under it. -/
theorem get? (h : hash.Shows table) (k : Key) : hash.get? k = table.get? k := by
  rw [Hash.get?, h.pairs]
  rfl

/-- Following the order through the pairs, no code is missed and the entries of the table come
up one by one. -/
theorem mapM_order (h : hash.Shows table) : hash.order.mapM hash.pairs = some table := by
  have hpart : ∀ entries : Table α, (∀ entry ∈ entries, entry ∈ table) →
      entries.order.mapM hash.pairs = some entries := by
    intro entries hmem
    induction entries with
    | nil => rfl
    | cons entry rest ih =>
        have hrest : (Table.order rest).mapM hash.pairs = some rest :=
          ih fun other hother => hmem other (List.mem_cons_of_mem entry hother)
        have hentry : hash.pairs entry.1.code = some entry := by
          rw [h.pairs, Table.pair?_of_mem h.once (hmem entry List.mem_cons_self)]
        change (entry.1.code :: Table.order rest).mapM hash.pairs = _
        rw [List.mapM_cons, hentry, hrest]
        rfl
  rw [h.order]
  exact hpart table fun _ => id

/-- The pairs of the hash, in order, are the table. -/
theorem table_eq (h : hash.Shows table) : hash.table = table :=
  filterMap_of_mapM h.mapM_order

/-- The hash is written like the value made of its table. -/
theorem inspect? {hash : Hash Value} {table : Table Value} (h : hash.Shows table)
    (stamp : Stamp) : hash.inspect? = some (Value.hash stamp table).inspect := by
  rw [Hash.inspect?, h.mapM_order, Value.inspect, Value.inspectEntries_eq_map]
  rfl

end Shows
end Hash
end MonkeyLang
