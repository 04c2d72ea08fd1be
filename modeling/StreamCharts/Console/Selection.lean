import StreamCharts.Console.Question
import StreamCharts.Files.Tree

/-!
# Selecting a scenario

Below the log root stands a directory for each algorithm, and in it one for each number of clients. The operator is asked for
both, one after the other. Main definitions: `ScenarioPath`, `FileSystem.listEntries`, `FileSystem.select`, and `selectScenario`,
the selection in a tree.
-/

namespace StreamCharts

/-- An algorithm and a number of clients below a log root. -/
structure ScenarioPath where
  root : String
  algorithm : String
  clientCount : String
deriving DecidableEq

namespace ScenarioPath

/-- The directory that holds the logs of a scenario. -/
def directory (scenario : ScenarioPath) : String :=
  Path.join (Path.join scenario.root scenario.algorithm) scenario.clientCount

/-- A scenario in a sentence. -/
def title (scenario : ScenarioPath) : String :=
  scenario.algorithm ++ " with " ++ scenario.clientCount ++ " clients"

end ScenarioPath

/-- The question for the algorithm. -/
def algorithmQuestion : Question :=
  ⟨none, "Choose an algorithm:", "That algorithm doesn't exist"⟩

/-- The question for the number of clients. -/
def clientCountQuestion : Question :=
  ⟨some "Number of clients:", "Plot for which number of clients?", "That number of clients doesn't exist"⟩

namespace FileSystem

variable {σ : Type} (files : FileSystem σ)

/-- The names in a directory as texts, in the order of their bytes. There is no list if the directory or any of its entries cannot be
read. -/
def list (state : σ) (directory : String) : Except Fault (List String) := do
  let entries ← files.read state directory
  let names ← entries.mapM id
  return (names.map Text.legible).mergeSort Text.precedes

/-- The candidates in a directory: what it lists, or the error that it cannot be listed. -/
def listEntries (state : σ) (directory : String) : Except SelectionError (List String) :=
  match files.list state directory with
  | .ok names => .ok names
  | .error fault => .error (.notListed directory fault)

/-- The listing of a directory from round to round; the files change as the input is read. -/
def catalogue (directory : String) : Catalogue σ :=
  ⟨fun state => files.listEntries state directory, fun state reading => files.change state reading.changes⟩

end FileSystem

/-- How the selection of a scenario ended: the scenario or why there is none, what is left of the input, the state of the files, the
output, and the notes on the way. -/
structure Selection (σ : Type) where
  outcome : Except SelectionError ScenarioPath
  input : List Reading
  state : σ
  sink : Sink
  journal : Journal

/-- Asks for an algorithm among the names in the root, and then for a number of clients among the names in its directory. -/
def FileSystem.select {σ : Type} (files : FileSystem σ) (state : σ) (root : String) (sink : Sink) (input : List Reading) :
    Selection σ :=
  let first := algorithmQuestion.ask (files.catalogue root) state sink input
  match first.outcome with
  | .error e => ⟨.error e, first.input, first.state, first.sink, first.journal⟩
  | .ok algorithm =>
    let second := clientCountQuestion.ask (files.catalogue (Path.join root algorithm)) first.state first.sink first.input
    let outcome := second.outcome.map fun clientCount => ScenarioPath.mk root algorithm clientCount
    ⟨outcome, second.input, second.state, second.sink, first.journal ++ second.journal⟩

/-- The names in a directory of a tree. -/
def listEntries (tree : Tree) (directory : String) : Except SelectionError (List String) :=
  Tree.fileSystem.listEntries tree directory

/-- The selection of a scenario in a tree. -/
def selectScenario (tree : Tree) (root : String) (sink : Sink) (input : List Reading) : Selection Tree :=
  Tree.fileSystem.select tree root sink input

end StreamCharts
