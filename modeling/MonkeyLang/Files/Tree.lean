import MonkeyLang.Text.Basic

/-!
# Files

Paths, the trees of files that they lead through, and the file that keeps the lines
typed by a user.
-/

namespace MonkeyLang.Path

/-!
## Paths

A path is a text of names with slashes between them.  Cleaning takes out empty
names and single dots, and lets two dots undo the name before them; joining
cleans the result.
-/

/-- The byte between two names. -/
def slash : UInt8 := '/'.toUInt8

/-- The names of a path, empty ones where slashes meet or end it. -/
def names : Text → List Text
  | [] => [[]]
  | b :: rest =>
    if b = slash then [] :: names rest
    else
      match names rest with
      | [] => [[b]]
      | name :: more => (b :: name) :: more

/-- The path starts at the root. -/
def isRooted (path : Text) : Bool := path.head? = some slash

/-- The name of the directory itself. -/
def here : Text := "."

/-- The name of the directory above. -/
def above : Text := ".."

/-- The names that remain after cleaning, the last one first. -/
def cleanNames (rooted : Bool) : List Text → List Text → List Text
  | kept, [] => kept
  | kept, name :: rest =>
    if name.isEmpty || name = here then cleanNames rooted kept rest
    else if name = above then
      match kept with
      | [] => cleanNames rooted (if rooted then [] else [above]) rest
      | last :: before =>
        if last = above then cleanNames rooted (above :: kept) rest
        else cleanNames rooted before rest
    else cleanNames rooted (name :: kept) rest

/-- The shortest path that means the same, by its text alone. -/
def clean (path : Text) : Text :=
  let rooted := isRooted path
  let body := Text.joined "/" (cleanNames rooted [] (names path)).reverse
  if rooted then slash :: body else if body.isEmpty then here else body

/-- Paths in a row as one clean path; empty ones do not count. -/
def join (parts : List Text) : Text :=
  match parts.filter fun part => !part.isEmpty with
  | [] => []
  | kept => clean (Text.joined "/" kept)

/-- The extension of the last name, from its last dot on. -/
def extension (path : Text) : Text :=
  let last := (names path).getLastD []
  match last.reverse.findIdx? (· = '.'.toUInt8) with
  | none => []
  | some i => (last.reverse.take (i + 1)).reverse

end MonkeyLang.Path

/-!
## File trees

A file tree holds files with their contents, files that are locked, and directories.
A locked file is there, but it can be neither read nor written.  A directory is there
when it is listed or when something lies in it.  Paths are followed name
by name; each name but the last has to be a directory.  Rooted paths start at
the root, all others at the directory at hand.  Both are always there, and so are
the directories above the one at hand, of which nothing else is known.
-/

namespace MonkeyLang

/-- Where something lies: the names from the directory at hand down, first two dots
for each directory above it, or from the root down with an empty name in front. -/
abbrev Place := List Text

namespace Place

/-- The place where a path starts. -/
def start (path : Text) : Place := if Path.isRooted path then [[]] else []

/-- The directory at hand or one above it. -/
def isOutward (place : Place) : Bool := place.all (· = Path.above)

/-- The root, the directory at hand or one above it. -/
def isTop (place : Place) : Bool := place = [[]] || place.isOutward

/-- The place above, the same one at the root. -/
def above (place : Place) : Place :=
  if place = [[]] then place
  else if place.isOutward then Path.above :: place
  else place.dropLast

/-- The place of a path, by its text alone. -/
def ofPath (path : Text) : Place :=
  start path ++ (Path.cleanNames true [] (Path.names path)).reverse

end Place

/-- Files and directories. -/
structure FileTree where
  files : List (Place × Text)
  /-- The files that cannot be opened. -/
  locked : List Place
  directories : List Place

/-- What is found at a place. -/
inductive FileNode where
  | file (content : Text)
  /-- A file that cannot be opened. -/
  | locked
  | directory

/-- Why a file cannot be used. -/
inductive FileFault where
  | missing
  /-- The file is there and must not be opened. -/
  | denied
  | isDirectory
  | notDirectory
  deriving DecidableEq, Repr

/-- The wording of a fault. -/
def FileFault.reason : FileFault → Text
  | .missing => "no such file or directory"
  | .denied => "permission denied"
  | .isDirectory => "is a directory"
  | .notDirectory => "not a directory"

/-- A fault with what was tried on which path. -/
structure FileError where
  action : Text
  path : Text
  fault : FileFault
  deriving DecidableEq, Repr

/-- The wording of a file error. -/
def FileError.message (e : FileError) : Text :=
  e.action ++ Text.ofString " " ++ e.path ++ Text.ofString ": " ++ e.fault.reason

namespace FileTree

/-- What lies at a place. -/
def node? (tree : FileTree) (place : Place) : Option FileNode :=
  match tree.files.lookup place with
  | some content => some (.file content)
  | none =>
    let inside (other : Place) : Bool := place.isPrefixOf other
    if tree.locked.contains place then some .locked
    else if place.isTop || tree.directories.any inside || tree.locked.any inside ||
        tree.files.any (fun f => inside f.1) then
      some .directory
    else none

/-- Follows names from a place.  Only a directory has names below it. -/
def follow (tree : FileTree) : Place → List Text → Except FileFault Place
  | place, [] => .ok place
  | place, name :: rest =>
    match tree.node? place with
    | none => .error .missing
    | some (.file _) | some .locked => .error .notDirectory
    | some .directory =>
      if name.isEmpty || name = Path.here then tree.follow place rest
      else if name = Path.above then tree.follow place.above rest
      else tree.follow (place ++ [name]) rest

/-- The place a path leads to. -/
def locate (tree : FileTree) (path : Text) : Except FileFault Place :=
  if path.isEmpty then .error .missing
  else tree.follow (Place.start path) (Path.names path)

/-- What a path leads to. -/
def find (tree : FileTree) (path : Text) : Except FileFault FileNode :=
  match tree.locate path with
  | .error fault => .error fault
  | .ok place =>
    match tree.node? place with
    | none => .error .missing
    | some node => .ok node

/-- The path leads to something that is no directory. -/
def isFile (tree : FileTree) (path : Text) : Bool :=
  match tree.find path with
  | .ok (.file _) | .ok .locked => true
  | _ => false

/-- The content of a file. -/
def read (tree : FileTree) (path : Text) : Except FileError Text :=
  match tree.find path with
  | .error fault => .error ⟨"open", path, fault⟩
  | .ok .locked => .error ⟨"open", path, .denied⟩
  | .ok .directory => .error ⟨"read", path, .isDirectory⟩
  | .ok (.file content) => .ok content

/-- The tree with a file of the given content, which replaces an older one. -/
def put (tree : FileTree) (place : Place) (content : Text) : FileTree :=
  { tree with files := (place, content) :: tree.files.filter fun f => f.1 != place }

/-- Makes an empty file or empties the one that is there, and gives its place. -/
def create (tree : FileTree) (path : Text) : Except FileError (Place × FileTree) :=
  match tree.locate path with
  | .error fault => .error ⟨"open", path, fault⟩
  | .ok place =>
    match tree.node? place with
    | some .directory => .error ⟨"open", path, .isDirectory⟩
    | some .locked => .error ⟨"open", path, .denied⟩
    | some (.file _) => .ok (place, tree.put place [])
    | none =>
      match tree.node? place.above with
      | some .directory => .ok (place, tree.put place [])
      | some (.file _) | some .locked => .error ⟨"open", path, .notDirectory⟩
      | none => .error ⟨"open", path, .missing⟩

/-- The tree of the given files, locked files and directories, by their paths. -/
def ofPaths (files : List (Text × Text)) (locked directories : List Text) : FileTree :=
  ⟨files.map fun f => (Place.ofPath f.1, f.2), locked.map Place.ofPath,
    directories.map Place.ofPath⟩

end FileTree
end MonkeyLang

/-!
## The history file

The lines typed by a user outlive a session in a file.  A file that is not there
yet is no reason to fail.  The holder of the lines may refuse to take them in or to
give them out, with a message of its own; by then the file has been opened or
emptied.
-/

namespace MonkeyLang.History

/-- Why a history cannot be loaded or saved. -/
inductive Fault where
  | file (error : FileError)
  | refused (message : Text)

/-- The wording of a fault. -/
def Fault.message : Fault → Text
  | .file error => error.message
  | .refused message => message

/-- The lines of a holder after the file has been loaded: the content of the file, or
the lines as they were when there is no file.  A holder that refuses to take lines
in does so before it reads any. -/
def load (tree : FileTree) (path : Text) (refusal? : Option Text) (lines : Text) :
    Except Fault Text :=
  match tree.find path with
  | .error .missing => .ok lines
  | .error fault => .error (.file ⟨"open", path, fault⟩)
  | .ok .locked => .error (.file ⟨"open", path, .denied⟩)
  | .ok .directory =>
    match refusal? with
    | some message => .error (.refused message)
    | none => .error (.file ⟨"read", path, .isDirectory⟩)
  | .ok (.file content) =>
    match refusal? with
    | some message => .error (.refused message)
    | none => .ok content

/-- The tree after the lines of a holder have been saved, and whether that failed.
A holder that refuses to give its lines out leaves an empty file. -/
def save (tree : FileTree) (path : Text) (refusal? : Option Text) (lines : Text) :
    Except Fault Unit × FileTree :=
  match tree.create path with
  | .error error => (.error (.file error), tree)
  | .ok (place, opened) =>
    match refusal? with
    | some message => (.error (.refused message), opened)
    | none => (.ok (), opened.put place lines)

end MonkeyLang.History
