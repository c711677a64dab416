import MonkeyLang.Settings.Yaml.Scanner

/-!
# The tree of a YAML document

Tokens are put together into a tree of scalars, mappings and sequences.  A node may
have a name, by which it can be meant again further on.  Only the first document of
a file is put together; what comes after it is not looked at.

Every function that goes deeper is given a number of steps, and has failed when
there are none left.  Each step passes a token or ends a collection, so that the
length of the document bounds them.
-/

namespace MonkeyLang.Yaml

/-- A node of a document. -/
inductive Node where
  /-- A scalar with its tag, empty for none. -/
  | scalar (text : List Char) (isPlain : Bool) (tag : List Char)
  | mapping (entries : List (Node × Node))
  | sequence (elements : List Node)
  /-- A node that is meant by its name, none for one that this lies in. -/
  | mention (name : List Char) (target? : Option Node)

namespace Node

/-- The scalar that stands where nothing is written. -/
def nothing : Node := .scalar [] true []

end Node

/-- A document that is put together. -/
structure Composer where
  scanner : Scanner
  /-- The names given to nodes, the latest first, and the nodes when they are
  complete. -/
  anchors : List (List Char × Option Node)
  /-- The handles that abbreviate the start of tags. -/
  handles : List (List Char × List Char)

/-- A step of putting a document together, which may fail. -/
abbrev Compose (α : Type) := StateT Composer Option α

namespace Compose

/-- The next token. -/
def peek : Compose Token := fun c =>
  c.scanner.peek?.map fun (token, scanner) => (token, { c with scanner })

/-- Passes the next token. -/
def pass : Compose Unit := fun c => some ((), { c with scanner := c.scanner.pass })

/-- Fails. -/
def fail {α : Type} : Compose α := fun _ => none

/-- The node that is meant by a name. -/
def target (name : List Char) : Compose (Option Node) := fun c =>
  (c.anchors.lookup name).map fun node? => (node?, c)

/-- Gives a name to the node that comes next, and tells how many names were given
before. -/
def reserve (name? : Option (List Char)) : Compose Nat := fun c =>
  some (c.anchors.length,
    match name? with
    | none => c
    | some name => { c with anchors := (name, none) :: c.anchors })

/-- Completes the node that was given a name when so many had been given before. -/
def complete (name? : Option (List Char)) (before : Nat) (node : Node) : Compose Unit := fun c =>
  some ((),
    match name? with
    | none => c
    | some name =>
      { c with anchors := c.anchors.set (c.anchors.length - 1 - before) (name, some node) })

/-- The start of the tags of the format itself. -/
def standardStart : List Char := "tag:yaml.org,2002:".toList

/-- A tag of the format itself in its short form. -/
def shortened (tag : List Char) : List Char :=
  if standardStart.isPrefixOf tag then "!!".toList ++ tag.drop standardStart.length else tag

/-- The tag that a handle and what follows it stand for. -/
def tag (handle rest : List Char) : Compose (List Char) := fun c =>
  if handle.isEmpty then some (if rest = ['!'] then [] else shortened rest, c)
  else
    match c.handles.lookup handle with
    | none => none
    | some start => some (shortened (start ++ rest), c)

/-- Reads the name and the tag before a node, each at most once. -/
def properties : Compose (Option (List Char) × Option (List Char)) := do
  match ← peek with
  | .anchor name =>
    pass
    match ← peek with
    | .tag handle rest =>
      pass
      return (some name, some (← tag handle rest))
    | _ => return (some name, none)
  | .tag handle rest =>
    pass
    match ← peek with
    | .anchor name =>
      pass
      return (some name, some (← tag handle rest))
    | _ => return (none, some (← tag handle rest))
  | _ => return (none, none)

mutual

/-- Reads a node; one shown by indentation only where that is allowed, and a sequence
without indentation of its own only where that is. -/
def node : Nat → Bool → Bool → Compose Node
  | 0, _, _ => fail
  | n + 1, inBlock, indentless => do
    match ← peek with
    | .mention name =>
      let target? ← target name
      pass
      return .mention name target?
    | _ =>
      let (name?, tag?) ← properties
      let before ← reserve name?
      let found ← content n inBlock indentless (tag?.getD []) (name?.isSome || tag?.isSome)
      complete name? before found
      return found

/-- Reads what a node holds.  After a name or a tag it may be nothing. -/
def content : Nat → Bool → Bool → List Char → Bool → Compose Node
  | 0, _, _, _, _ => fail
  | n + 1, inBlock, indentless, tag, isMarked => do
    match ← peek, inBlock, indentless with
    | .dash, _, true => return .sequence (← indentlessElements n)
    | .scalar text isPlain, _, _ =>
      pass
      return .scalar text isPlain tag
    | .flowSequenceStart, _, _ =>
      pass
      return .sequence (← flowElements n true)
    | .flowMappingStart, _, _ =>
      pass
      return .mapping (← flowEntries n true)
    | .sequenceStart, true, _ =>
      pass
      return .sequence (← blockElements n)
    | .mappingStart, true, _ =>
      pass
      return .mapping (← blockEntries n)
    | _, _, _ => if isMarked then return .scalar [] true tag else fail

/-- Reads a node, unless one of the given tokens shows that there is none. -/
def nodeUnless : Nat → List Token → Bool → Bool → Compose Node
  | 0, _, _, _ => fail
  | n + 1, stops, inBlock, indentless => do
    if stops.contains (← peek) then return .nothing else node n inBlock indentless

/-- Reads the elements of a sequence shown by indentation. -/
def blockElements : Nat → Compose (List Node)
  | 0 => fail
  | n + 1 => do
    match ← peek with
    | .dash =>
      pass
      let element ← nodeUnless n [.dash, .blockEnd] true false
      return element :: (← blockElements n)
    | .blockEnd =>
      pass
      return []
    | _ => fail

/-- Reads the elements of a sequence without indentation of its own. -/
def indentlessElements : Nat → Compose (List Node)
  | 0 => fail
  | n + 1 => do
    match ← peek with
    | .dash =>
      pass
      let element ← nodeUnless n [.dash, .key, .value, .blockEnd] true false
      return element :: (← indentlessElements n)
    | _ => return []

/-- Reads the entries of a mapping shown by indentation. -/
def blockEntries : Nat → Compose (List (Node × Node))
  | 0 => fail
  | n + 1 => do
    match ← peek with
    | .key =>
      pass
      let key ← nodeUnless n [.key, .value, .blockEnd] true true
      let value ← valueOf n [.key, .value, .blockEnd] true
      return (key, value) :: (← blockEntries n)
    | .blockEnd =>
      pass
      return []
    | _ => fail

/-- Reads the value behind a key, which may be left out. -/
def valueOf : Nat → List Token → Bool → Compose Node
  | 0, _, _ => fail
  | n + 1, stops, inBlock => do
    if (← peek) = .value then
      pass
      nodeUnless n stops inBlock inBlock
    else return .nothing

/-- Reads the elements of a flow sequence.  A key among them starts a mapping of one
entry. -/
def flowElements : Nat → Bool → Compose (List Node)
  | 0, _ => fail
  | n + 1, isFirst => do
    if (← peek) = .flowSequenceEnd then
      pass
      return []
    else
      if !isFirst then comma
      match ← peek with
      | .key =>
        pass
        let stops := [.comma, .flowSequenceEnd]
        let key ← flowKey n
        let value ← valueOf n stops false
        return .mapping [(key, value)] :: (← flowElements n false)
      | .flowSequenceEnd =>
        pass
        return []
      | _ =>
        let element ← node n false false
        return element :: (← flowElements n false)
where
  /-- Passes a comma. -/
  comma : Compose Unit := do
    if (← peek) = .comma then pass else fail
  /-- Reads the key of a mapping of one entry.  The token that stands in place of a
  key is passed. -/
  flowKey (n : Nat) : Compose Node := do
    if [Token.value, .comma, .flowSequenceEnd].contains (← peek) then
      pass
      return .nothing
    else node n false false

/-- Reads the entries of a flow mapping. -/
def flowEntries : Nat → Bool → Compose (List (Node × Node))
  | 0, _ => fail
  | n + 1, isFirst => do
    if (← peek) = .flowMappingEnd then
      pass
      return []
    else
      if !isFirst then comma
      match ← peek with
      | .key =>
        pass
        let key ← nodeUnless n [.value, .comma, .flowMappingEnd] false false
        let value ← valueOf n [.comma, .flowMappingEnd] false
        return (key, value) :: (← flowEntries n false)
      | .flowMappingEnd =>
        pass
        return []
      | _ =>
        let key ← node n false false
        return (key, .nothing) :: (← flowEntries n false)
where
  /-- Passes a comma. -/
  comma : Compose Unit := do
    if (← peek) = .comma then pass else fail

end

/-- Reads the directives before a document, with the given number of steps.  The
version is told once, and has to be the one that is known; a handle is told once. -/
def directives : Nat → Bool → List (List Char × List Char) →
    Compose (List (List Char × List Char))
  | 0, _, _ => fail
  | n + 1, hasVersion, handles => do
    match ← peek with
    | .version major minor =>
      if hasVersion || major ≠ 1 || minor ≠ 1 then fail
      else
        pass
        directives n true handles
    | .handle name start =>
      if (handles.lookup name).isSome then fail
      else
        pass
        directives n hasVersion ((name, start) :: handles)
    | _ => return handles

/-- The handles that need not be told. -/
def standardHandles : List (List Char × List Char) :=
  [(['!'], ['!']), ("!!".toList, standardStart)]

/-- Reads the first document, if there is one. -/
def document (steps : Nat) : Compose (Option Node) := do
  match ← peek with
  | .finish => return none
  | .version .. | .handle .. | .documentStart =>
    let handles ← directives steps false []
    modify fun c => { c with handles := handles ++ standardHandles }
    if (← peek) = .documentStart then
      pass
      let root ←
        match ← peek with
        | .version .. | .handle .. | .documentStart | .documentEnd | .finish => pure .nothing
        | _ => node steps true false
      let _ ← peek
      return some root
    else fail
  | _ =>
    let root ← node steps true false
    let _ ← peek
    return some root

end Compose

/-- The tree of the first document in a text, none if there is no document.  It fails
when the document is not well formed. -/
def document? (text : Text) : Option (Option Node) := do
  let chars ← characters? text
  let composer : Composer := ⟨Scanner.start chars, [], Compose.standardHandles⟩
  return (← (Compose.document (8 * chars.length + 16)).run composer).1

end MonkeyLang.Yaml
