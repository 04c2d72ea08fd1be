import StreamCharts.Files.Tree

/-!
# Scripted input

What a reader delivers over time, in the order in which it is asked for more. Main definitions: `Delivery`, `Script`, and
`Opener`, the way in which files are opened.
-/

namespace StreamCharts

/-- One thing that a reader meets. -/
inductive Delivery where
  /-- Bytes that arrive together. -/
  | bytes (chunk : List UInt8)
  /-- A read that was interrupted and is tried again. -/
  | interruption
  /-- A read that fails. -/
  | failure (fault : Fault)
  /-- A change to the files, made before anything behind it is read. -/
  | change (edits : List Edit)
deriving DecidableEq

/-- All that a reader delivers; behind the last element the input is at its end. -/
abbrev Script := List Delivery

/-- How files are opened: a path is turned into what its reader delivers, or into the reason why it is not. -/
abbrev Opener := String → Except Fault Script

/-- The bytes that a script delivers up to its end, or its first failure. -/
def Script.content : Script → Except Fault (List UInt8)
  | [] => .ok []
  | .bytes chunk :: script => (Script.content script).map (chunk ++ ·)
  | .failure fault :: _ => .error fault
  | .interruption :: script => Script.content script
  | .change _ :: script => Script.content script

/-- What the reader of an opened file delivers. A directory can be opened, but its first read fails. -/
def Script.ofEntry : Entry → Script
  | .directory => [.failure .isDirectory]
  | .file content => [.bytes content]

/-- Opens the files of a tree. -/
def Tree.openFile (t : Tree) : Opener :=
  fun path => (t.find path).map Script.ofEntry

end StreamCharts
