import StreamCharts.Text.Bytes

/-!
# Paths

A path is the text by which a file is named, with `/` between its components. Main definitions: `join`, which puts a path below
another, `components`, and `same`, by which two spellings of a path are told to be one. To the system a path is a sequence of bytes,
as the names are that it is made of: `FileName` and `RawPath`.
-/

namespace StreamCharts

/-- A name in a directory, as the system has it: bytes, which need not be text. -/
abbrev FileName := List UInt8

/-- A path as the system takes it: bytes, which need not be text. -/
structure RawPath where
  bytes : List UInt8
deriving DecidableEq

namespace RawPath

/-- A text is a path by its bytes. -/
instance : Coe String RawPath := ⟨fun path => ⟨Text.utf8 path⟩⟩

/-- The byte between names. -/
def slash : UInt8 := 0x2F

/-- A path that starts at the root of all files and not at the working directory. -/
def isAbsolute (path : RawPath) : Bool :=
  path.bytes.head? == some slash

/-- What stands between the slashes of a path. -/
def names (path : RawPath) : List FileName :=
  path.bytes.splitOn slash

end RawPath

namespace Path

/-- The components of a path. Before a leading slash, between two slashes and behind a last one stands an empty component. -/
def components (path : String) : List String :=
  (path.toList.splitOn '/').map String.ofList

/-- A path that starts at the root of all files and not at the working directory. -/
def isAbsolute (path : String) : Bool :=
  path.toList.head? == some '/'

/-- The path of `name` below `base`: an absolute name stands for itself, and nothing is put before a name below the empty
path. -/
def join (base name : String) : String :=
  if isAbsolute name then name
  else if base.isEmpty then name
  else if base.toList.getLast? == some '/' then base ++ name
  else base ++ "/" ++ name

/-- The components of a path that say where it leads: not the empty ones, and `.` only where a relative path begins with it. -/
def parts (path : String) : List String :=
  let leads (name : String) := name != "" && name != "."
  match components path with
  | "." :: names => "." :: names.filter leads
  | names => names.filter leads

/-- Whether two texts spell the same path. -/
def same (a b : String) : Bool :=
  isAbsolute a == isAbsolute b && parts a == parts b

end Path

end StreamCharts
