import StreamCharts.Session.Steps

/-!
# The command

Runs the program at a terminal. What a run does next is said by `Session.Position.move`; here its requests are answered by the system:
files are opened, directories and lines are read, and text is written. Records go to the error output. There is no window system to
open a window with, so a run that gets that far ends there.
-/

namespace StreamCharts.Command

/-- The fault behind an error of the system. -/
def fault : IO.Error → Fault
  | .noFileOrDirectory .. => .missing
  | .inappropriateType _ 20 _ => .notDirectory
  | .inappropriateType _ 21 _ => .isDirectory
  | e => .reported (toString e)

/-- What an action gives, or the fault that stopped it. -/
def attempt {α : Type} (action : IO α) : IO (Except Fault α) := do
  match ← action.toBaseIO with
  | .ok result => return .ok result
  | .error e => return .error (fault e)

/-- Shows a record. -/
def report (filter : Filter) (record : Record) : IO Unit := do
  if filter.shows record then
    IO.eprintln ("[" ++ record.level.label ++ " " ++ record.topic.target ++ "] " ++ record.rendered)

/-- Opens a file and reads it. -/
def openFile (path : String) : IO (Except Fault Script) := do
  match ← attempt (IO.FS.Handle.mk path .read) with
  | .error fault => return .error fault
  | .ok handle =>
    match ← attempt handle.readBinToEnd with
    | .ok content => return .ok [.bytes content.toList]
    | .error fault => return .ok [.failure fault]

/-- Whether a path leads to a file. -/
def isFile (path : String) : IO Bool := do
  match ← attempt (do (← IO.FS.realPath path).metadata) with
  | .ok data => return data.type == .file
  | .error _ => return false

/-- The names in a directory, as the system enumerates them. -/
def readDirectory (path : String) : IO (Except Fault (List (Except Fault FileName))) := do
  match ← attempt (do (← IO.FS.realPath path).readDir) with
  | .ok entries => return .ok (entries.toList.map fun entry => .ok (Text.utf8 entry.fileName))
  | .error fault => return .error fault

/-- The bytes of the next line, with the newline that ends it. -/
partial def lineBytes (input : IO.FS.Stream) (bytes : List UInt8) : IO (List UInt8) := do
  match (← input.read 1).toList with
  | [] => return bytes.reverse
  | byte :: _ => if byte = Text.newline then return (byte :: bytes).reverse else lineBytes input (byte :: bytes)

/-- The next line of the input. -/
def nextLine (input : IO.FS.Stream) : IO Outcome := do
  match ← attempt (lineBytes input []) with
  | .ok [] => return .finished
  | .ok bytes => return Outcome.ofBytes bytes
  | .error fault => return .failed fault

/-- Writes text to the output. -/
def write (text : String) : IO (Except Fault Unit) :=
  attempt do (← IO.getStdout).putStr text

/-- Writes text to the output and hands it on. -/
def print (text : String) : IO (Except Fault Unit) :=
  attempt do
    let output ← IO.getStdout
    output.putStr text
    output.flush

/-- Answers a request of a run. -/
def perform : (request : Session.Request) → IO request.Answer
  | .isFile path => isFile path
  | .openFile path => openFile path
  | .readDirectory path => readDirectory path
  | .print text => print text
  | .write text => write text
  | .readLine => do nextLine (← IO.getStdin)
  | .openWindow _ => return .error "there is no window system"

/-- The words in which a text is refused as a configuration. -/
def refuse (_ : String) : String :=
  "the text is no configuration"

/-- Goes on with a run from where it stands, from request to request; the result is the exit status. -/
partial def goOn (filter : Filter) (position : Session.Position) : IO UInt32 := do
  match position.move refuse with
  | .ask request next =>
    let (notes, position) := next (← perform request)
    notes.forM (report filter)
    goOn filter position
  | .finish failure? => return if failure?.isSome then 1 else 0

/-- A run of the program; its result is the exit status. -/
def run (filter : Filter) : IO UInt32 := do
  report filter Session.startRecord
  goOn filter .seeking

end StreamCharts.Command

/-- Runs the program with the levels that the environment sets. -/
def main : IO UInt32 := do
  StreamCharts.Command.run (StreamCharts.Filter.ofSetting (← IO.getEnv "RUST_LOG"))
