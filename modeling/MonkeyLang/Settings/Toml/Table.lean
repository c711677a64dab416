import MonkeyLang.Settings.Toml.Reader

/-!
# Tables of a TOML document

The statements of a document are put together into one table.  A name may be given
once, but a table that was only passed through on the way to another one is implied
and may still be given, by a header or even by a plain value, which then does not
count.  What was given as an array may be given again.

The keys of all statements are kept in the order of the document, those inside
tables on one line among them.
-/

namespace MonkeyLang.Toml

/-- What a name in a table stands for. -/
inductive Item where
  | value (v : Value)
  | table (entries : List (Text × Item))
  /-- An array of tables, made by headers or by tables on one line. -/
  | tables (all : List (List (Text × Item)))

/-- The content of a table, in the order in which names were given. -/
abbrev Entries := List (Text × Item)

namespace Entries

/-- The table with a name that stands for the given item, in its old place or at
the end. -/
def put (name : Text) (item : Item) : Entries → Entries
  | [] => [(name, item)]
  | (other, old) :: rest =>
    if other = name then (name, item) :: rest else (other, old) :: put name item rest

end Entries

namespace Item

/-- The table in which further names are looked up, of an array its last one. -/
def within? : Item → Option Entries
  | .value _ => none
  | .table entries => some entries
  | .tables all => all.getLast?

/-- The item with another table in which further names are looked up. -/
def withTable (entries : Entries) : Item → Item
  | .tables all => .tables (all.dropLast ++ [entries])
  | _ => .table entries

end Item

namespace Entries

/-- The table that a key leads to. -/
def enter? : Key → Entries → Option Entries
  | [], entries => some entries
  | name :: rest, entries =>
    ((entries.lookup name).bind Item.within?).bind (enter? rest)

/-- The table after a change to the table that a key leads to. -/
def change? (f : Entries → Entries) : Key → Entries → Option Entries
  | [], entries => some (f entries)
  | name :: rest, entries => do
    let item ← entries.lookup name
    let inner ← item.within?
    return put name (item.withTable (← change? f rest inner)) entries

end Entries

/-- A document put together so far. -/
structure Assembly where
  root : Entries
  /-- The keys of tables that are implied. -/
  implied : List Key
  /-- The keys that were given as arrays. -/
  arrays : List Key
  /-- The keys of all statements, the latest first. -/
  given : List Key

namespace Assembly

/-- The document with nothing in it. -/
def empty : Assembly := ⟨[], [], [], []⟩

/-- Notes that a table is implied. -/
def imply (key : Key) (a : Assembly) : Assembly :=
  { a with implied := key :: a.implied }

/-- Notes that a table is no longer implied. -/
def confirm (key : Key) (a : Assembly) : Assembly :=
  { a with implied := a.implied.filter (· ≠ key) }

/-- Notes that a key was given. -/
def note (key : Key) (a : Assembly) : Assembly :=
  { a with given := key :: a.given }

/-- Notes whether a key was given as an array. -/
def classify (key : Key) (isArray : Bool) (a : Assembly) : Assembly :=
  let others := a.arrays.filter (· ≠ key)
  { a with arrays := if isArray then key :: others else others }

/-- The key under which the kind of a value is noted.  An empty name leaves it to
the table that it stands in. -/
def kindKey (context : Key) (name : Text) : Key :=
  if !name.isEmpty then context ++ [name] else if context.isEmpty then [[]] else context

/-- Gives a name of a table an item. -/
def give? (context : Key) (name : Text) (item : Item) (a : Assembly) : Option Assembly := do
  let key := context ++ [name]
  let entries ← a.root.enter? context
  let root ← a.root.change? (Entries.put name item) context
  if (entries.lookup name).isNone then return { a with root }
  else if a.arrays.contains key then return { a with root }.confirm key
  else if a.implied.contains key then return a.confirm key
  else none

/-- Makes sure that the names of a key lead from table to table; those that are
missing are implied. -/
def pass? (context : Key) : Key → Assembly → Option Assembly
  | [], a => some a
  | name :: rest, a => do
    let entries ← a.root.enter? context
    let key := context ++ [name]
    match entries.lookup name with
    | some item => if item.within?.isSome then a.pass? key rest else none
    | none =>
      let root ← a.root.change? (Entries.put name (.table [])) context
      ({ a with root }.imply key).pass? key rest

/-- Starts the table with a key. -/
def openTable? (key : Key) (a : Assembly) : Option Assembly := do
  let parents := key.dropLast
  (← a.pass? [] parents).give? parents (key.getLastD []) (.table [])

/-- Starts one more table of the array with a key. -/
def openTables? (key : Key) (a : Assembly) : Option Assembly := do
  let parents := key.dropLast
  let name := key.getLastD []
  let a ← a.pass? [] parents
  let entries ← a.root.enter? parents
  let item ←
    match entries.lookup name with
    | none => some (.tables [[]])
    | some (.tables all) => some (.tables (all ++ [[]]))
    | some _ => none
  return { a with root := ← a.root.change? (Entries.put name item) parents }

/-- Starts the implied tables on the way to the last name of a dotted key. -/
def openParents? (context : Key) : Key → Assembly → Option Assembly
  | [], a => some a
  | name :: rest, a => do
    let key := context ++ [name]
    (← (a.imply key).openTable? key).openParents? key rest

/-- The value is an array. -/
def isArray : Value → Bool
  | .array _ => true
  | _ => false

mutual

/-- Puts in the tables on one line that a value holds. -/
def settle? (context : Key) (name : Text) (inArray : Bool) :
    Value → Assembly → Option Assembly
  | .array elements, a =>
    settleAll? context name elements (a.classify (kindKey context name) true)
  | .inline entries, a => do
    let key := context ++ [name]
    let a := a.imply key
    settleEntries? key entries (← if inArray then a.openTables? key else a.openTable? key)
  | _, a => some a

/-- Puts in the tables on one line that the elements of an array hold. -/
def settleAll? (context : Key) (name : Text) : List Value → Assembly → Option Assembly
  | [], a => some a
  | value :: rest, a => do
    settleAll? context name rest (← settle? context name true value a)

/-- Puts in the entries of a table on one line. -/
def settleEntries? (context : Key) : List (Key × Value) → Assembly → Option Assembly
  | [], a => some a
  | (key, value) :: rest, a => do
    let parents := key.dropLast
    let name := key.getLastD []
    let table := context ++ parents
    let a ← a.openParents? context parents
    let a ← settle? table name false value (a.note (table ++ [name]))
    let a ← finish? table name value a
    settleEntries? context rest a
where
  /-- Gives the last name of an entry its value, unless the value is a table that
  has been put in already. -/
  finish? (table : Key) (name : Text) (value : Value) (a : Assembly) : Option Assembly := do
    let item : Item ←
      match value with
      | .inline _ =>
        (a.root.enter? table).bind fun entries => entries.lookup name
      | _ => some (.value value)
    return (← a.give? table name item).classify (kindKey table name) (isArray value)

end

/-- The assembly after a statement, and the table in which the next entries
stand. -/
def add? (context : Key) : Statement → Assembly → Option (Key × Assembly)
  | .table key, a => do
    return (key, ((← a.openTable? key).classify key false).note key)
  | .tables key, a => do
    return (key, ((← a.openTables? key).classify key false).note key)
  | .entry key value, a => do
    return (context, ← settleEntries? context [(key, value)] a)

/-- The assembly after all statements. -/
def addAll? (context : Key) : List Statement → Assembly → Option Assembly
  | [], a => some a
  | statement :: rest, a => do
    let (context, a) ← a.add? context statement
    a.addAll? context rest

end Assembly
end MonkeyLang.Toml
