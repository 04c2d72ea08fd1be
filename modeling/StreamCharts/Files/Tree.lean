import StreamCharts.Fault
import StreamCharts.Files.Path

/-!
# File trees

All files and directories, with a working directory among them, and what the system answers when a path is opened or a directory is
read. A tree is a table from places to entries, where a place is the list of names that leads to it from the root of all files. Main
definitions: `Tree`, its edits, `Tree.resolve`, which follows a path, `Tree.read`, the entries of a directory, and `FileSystem`, all
that can be read and changed in this way.
-/

namespace StreamCharts

/-- What stands at a place. -/
inductive Entry where
  | directory
  | file (content : List UInt8)
deriving DecidableEq

/-- The names that lead to a file or directory from the root of all files. -/
abbrev Place := List FileName

namespace Place

/-- The place to which a name leads from another: the empty name and `.` stay, and `..` goes back, but not from the root. -/
def step (place : Place) (name : FileName) : Place :=
  if name = [] || name = Text.utf8 "." then place
  else if name = Text.utf8 ".." then place.dropLast
  else place ++ [name]

/-- Where a path starts: at the root, or at the working directory. -/
def start (home : Place) (path : RawPath) : Place :=
  if path.isAbsolute then [] else home

/-- The place that a path names when all names in it exist and lead on. -/
def ofPath (home : Place) (path : RawPath) : Place :=
  path.names.foldl step (start home path)

/-- The places on the way from the root to a place, with both ends. -/
def way (place : Place) : List Place :=
  (List.range (place.length + 1)).map place.take

end Place

/-- All files and directories. The working directory and those that lead to it have no rows: they are in use and always there. -/
structure Tree where
  /-- The place of the working directory. -/
  home : Place
  rows : List (Place × Entry)
deriving DecidableEq

/-- A change to a tree that others make, by a path. -/
inductive Edit where
  /-- Makes a directory and those that lead to it. -/
  | makeDirectory (path : RawPath)
  /-- Writes a file anew, making the directories that lead to it. -/
  | write (path : RawPath) (content : List UInt8)
  /-- Removes a file, or a directory with all below it, except for what is in use. -/
  | remove (path : RawPath)
deriving DecidableEq

namespace Tree

/-- The tree with nothing but a working directory and those that lead to it. -/
def bare (home : Place) : Tree := ⟨home, []⟩

/-- The tree with nothing but the working directory of an operator. -/
def empty : Tree := bare [Text.utf8 "home", Text.utf8 "operator"]

/-- What stands at a place. -/
def entry? (t : Tree) (place : Place) : Option Entry :=
  if place.isPrefixOf t.home then some .directory else t.rows.lookup place

/-- Puts an entry at a place, over what stood there, unless that is in use. -/
def put (t : Tree) (place : Place) (entry : Entry) : Tree :=
  if place.isPrefixOf t.home then t
  else { t with rows := (place, entry) :: t.rows.filter fun row => row.1 != place }

/-- Puts a directory at a place where nothing stands. -/
def addDirectory (t : Tree) (place : Place) : Tree :=
  if (t.entry? place).isSome then t else t.put place .directory

/-- Puts a directory wherever nothing stands on the way to a place. -/
def addDirectories (t : Tree) (place : Place) : Tree :=
  place.way.foldl addDirectory t

/-- The tree after an edit. -/
def edit (t : Tree) : Edit → Tree
  | .makeDirectory path => t.addDirectories (Place.ofPath t.home path)
  | .write path content =>
    let place := Place.ofPath t.home path
    (t.addDirectories place.dropLast).put place (.file content)
  | .remove path =>
    let place := Place.ofPath t.home path
    { t with rows := t.rows.filter fun row => !place.isPrefixOf row.1 }

/-- The tree after edits, one after another. -/
def edits (t : Tree) (changes : List Edit) : Tree :=
  changes.foldl edit t

/-- The number of bytes from which on a whole path is too long. -/
def pathLimit : Nat := 4096

/-- The largest number of bytes of a name. -/
def nameLimit : Nat := 255

/-- Follows a name from a place: only a directory leads on. -/
def follow (t : Tree) (place : Place) (name : FileName) : Except Fault Place :=
  match t.entry? place with
  | some .directory =>
    if nameLimit < name.length then .error .nameTooLong
    else if (t.entry? (place.step name)).isSome then .ok (place.step name)
    else .error .missing
  | some (.file _) => .error .notDirectory
  | none => .error .missing

/-- The place of a path, or why it leads nowhere. -/
def resolve (t : Tree) (path : RawPath) : Except Fault Place :=
  if path.bytes.contains 0 then .error .nulInPath
  else if path.bytes.isEmpty then .error .missing
  else if pathLimit ≤ path.bytes.length then .error .nameTooLong
  else path.names.foldlM t.follow (Place.start t.home path)

/-- What stands at a path. -/
def find (t : Tree) (path : RawPath) : Except Fault Entry := do
  let place ← t.resolve path
  match t.entry? place with
  | some entry => .ok entry
  | none => .error .missing

/-- Whether a path leads to a file. -/
def isFile (t : Tree) (path : String) : Bool :=
  match t.find path with
  | .ok (.file _) => true
  | _ => false

/-- All places where something stands, in no order that means anything. -/
def places (t : Tree) : List Place :=
  t.home.way ++ t.rows.map Prod.fst

/-- The name of a place that lies directly below another. -/
def childName? (place below : Place) : Option FileName :=
  match below.getLast? with
  | some name => if below.dropLast = place then some name else none
  | none => none

/-- The names of what lies directly below a place. -/
def children (t : Tree) (place : Place) : List FileName :=
  t.places.filterMap (childName? place)

/-- The names in the directory at a path. -/
def read (t : Tree) (path : RawPath) : Except Fault (List FileName) := do
  let place ← t.resolve path
  match t.entry? place with
  | some .directory => .ok (t.children place)
  | some (.file _) => .error .notDirectory
  | none => .error .missing

end Tree

/-- Files that are read while others change them. -/
structure FileSystem (σ : Type) where
  /-- What the system answers who reads the directory at a path, as the files stand: a fault, or entry by entry a name or a fault, in
  an order of its own. -/
  read : σ → String → Except Fault (List (Except Fault FileName))
  /-- How the files stand behind changes. -/
  change : σ → List Edit → σ

/-- The files and directories of a tree, which can all be read. -/
def Tree.fileSystem : FileSystem Tree :=
  ⟨fun t path => (t.read path).map fun names => names.map .ok, Tree.edits⟩

end StreamCharts
