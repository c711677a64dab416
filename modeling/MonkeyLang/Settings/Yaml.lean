import MonkeyLang.Settings.Yaml.Meaning

/-!
# Settings in YAML

A document of settings is a mapping from sections to mappings from names to scalars.
A key may be given once, and every key has to be one that settings know; a key that
stands for nothing is passed over with its value.  A setting without a value stays
as it is.  Entries of another mapping can be taken over, where there are none of
their own.
-/

namespace MonkeyLang.Yaml

/-- The node that is meant, if it is complete. -/
def Node.meant? : Node → Option Node
  | .mention _ target? => target?
  | node => some node

/-- What two keys have in common when they are the same. -/
def Node.label : Node → Nat × List Char
  | .scalar text _ _ => (0, text)
  | .mapping _ => (1, [])
  | .sequence _ => (2, [])
  | .mention name _ => (3, name)

/-- No two keys are the same. -/
def hasDistinctKeys : List (Node × Node) → Bool
  | [] => true
  | (key, _) :: rest =>
    !rest.any (fun entry => entry.1.label == key.label) && hasDistinctKeys rest

/-- The key under which entries of another mapping are taken over. -/
def Node.isMerge : Node → Bool
  | .scalar text isPlain tag =>
    text = "<<".toList && (if tag.isEmpty then isPlain else tag = "!!merge".toList)
  | _ => false

/-- The name that a key stands for, none when it stands for nothing. -/
def Node.name? (key : Node) : Option (Option Text) := do
  match ← key.meant? with
  | .scalar text isPlain tag =>
    return (← scalar? text isPlain tag).map fun _ => Text.ofChars text
  | _ => none

/-- How a value changes what a mapping is read into, if the name is known and the
value is of its type. -/
abbrev Put := Text → Node → Settings → Option Settings

/-- What remains to be done for a mapping: the settings so far, the names that need
not be looked at any more, if that is asked for, and the mapping to take over
entries from. -/
structure Progress where
  settings : Settings
  seen? : Option (List Text)
  merge? : Option Node

/-- Reads the entries of a mapping; the names given so far are known. -/
def applyEntries (put : Put) : List (Node × Node) → List Text → Progress → Option Progress
  | [], _, p => some p
  | (key, value) :: rest, given, p => do
    if key.isMerge then applyEntries put rest given { p with merge? := some value }
    else
      match ← key.name? with
      | none => applyEntries put rest given p
      | some name =>
        if p.seen?.any (·.contains name) then applyEntries put rest given p
        else if given.contains name then none
        else
          let settings ← put name value p.settings
          applyEntries put rest (name :: given)
            { p with settings, seen? := p.seen?.map (name :: ·) }

/-- The names of the entries of a mapping itself. -/
def ownNames (entries : List (Node × Node)) : List Text :=
  entries.filterMap fun entry => entry.1.name?.join

mutual

/-- Reads a mapping, with the given number of steps. -/
def applyMapping (put : Put) :
    Nat → List (Node × Node) → Settings → Option (List Text) → Option (Settings × List Text)
  | 0, _, _, _ => none
  | n + 1, entries, s, seen? => do
    if !hasDistinctKeys entries then none
    else
      let p ← applyEntries put entries [] ⟨s, seen?, none⟩
      match p.merge? with
      | none => return (p.settings, p.seen?.getD [])
      | some merge =>
        let seen := p.seen?.getD (ownNames entries)
        match merge with
        | .sequence elements => applyMerges put n elements p.settings seen
        | node => applyMerges put n [node] p.settings seen

/-- Takes over the entries of mappings, with the given number of steps. -/
def applyMerges (put : Put) :
    Nat → List Node → Settings → List Text → Option (Settings × List Text)
  | 0, _, _, _ => none
  | _, [], s, seen => some (s, seen)
  | n + 1, node :: rest, s, seen => do
    match ← node.meant? with
    | .mapping entries =>
      let (s, seen) ← applyMapping put n entries s (some seen)
      applyMerges put n rest s seen
    | _ => none

end

/-- Reads a node that should be a mapping.  Nothing at all changes nothing. -/
def applyNode (put : Put) (steps : Nat) (node : Node) (s : Settings) : Option Settings := do
  match ← node.meant? with
  | .scalar text isPlain tag => if (← scalar? text isPlain tag).isNone then some s else none
  | .mapping entries => (applyMapping put steps entries s none).map Prod.fst
  | _ => none

/-- Changes a setting of a section. -/
def putField (division : Text) : Put := fun name value s => do
  if !Settings.fields.contains (division, name) then none
  else
    match ← value.meant? with
    | .scalar text isPlain tag =>
      match ← scalar? text isPlain tag with
      | none => some s
      | some scalar =>
        match s.assign division name scalar with
        | .changed after => some after
        | _ => none
    | _ => none

/-- Changes the settings of a section. -/
def putSection (steps : Nat) : Put := fun name value s =>
  if Settings.sections.contains name then applyNode (putField name) steps value s else none

/-- The settings after a document.  It fails unless the document is well formed, knows
only settings and gives each a value of its type. -/
def decode (text : Text) (s : Settings) : Settings × Option StreamError :=
  let failure : StreamError := .failed "malformed document"
  match document? text with
  | none => (s, some failure)
  | some none => (s, some .ended)
  | some (some root) =>
    let steps := text.length + 1
    match applyNode (putSection steps) steps root s with
    | none => (s, some failure)
    | some after => (after, none)

end MonkeyLang.Yaml
