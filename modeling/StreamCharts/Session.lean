import StreamCharts.Chart.Figure
import StreamCharts.Config
import StreamCharts.Console.Selection
import StreamCharts.Journal.Filter
import StreamCharts.Journal.Rendering

/-!
# A run of the program

A run loads the configuration, asks for a scenario, reads its logs and opens the window with its charts, in this order; the first
stage that fails ends it. Main definitions: `SessionError`, `Session`, `Session.Host`, what a run takes from others,
`Session.showScenario`, the last two stages, `Session.run`, and `Session.report`, what an operator gets of a run.
-/

namespace StreamCharts

/-- Why a run ended: the error of the stage that failed. -/
inductive SessionError where
  /-- There is no configuration; a text that is none is refused in the words of the TOML reader. -/
  | config (e : ConfigError) (words : String)
  | selection (e : SelectionError)
  | logs (scenario : ScenarioPath) (e : LogError)
  /-- The window could not be opened, in the words of the window system. -/
  | window (reason : String)
deriving DecidableEq

/-- The messages of an error and of its causes. -/
def SessionError.chain : SessionError → String
  | .config e words => e.chain words
  | .selection e => e.chain
  | .logs scenario e => "Failed to load logs for " ++ scenario.title ++ ": " ++ e.chain
  | .window reason => "Chart window failed: " ++ reason

/-- What a run leaves behind: why it ended, if it failed, what is left of the input, what was written to the console, and all
notes. -/
structure Session where
  failure? : Option SessionError
  input : List Reading
  sink : Sink
  journal : Journal

namespace Session

/-- The exit status of a run. -/
def exitCode (session : Session) : Nat :=
  if session.failure?.isSome then 1 else 0

/-- The first note of a run. -/
def startRecord : Record :=
  ⟨.info, .program, "Starting up"⟩

/-- The note on the scenario that was selected. -/
def selectedRecord (scenario : ScenarioPath) : Record :=
  ⟨.info, .program, "Selected " ++ scenario.title ++ " (" ++ scenario.directory ++ ")"⟩

/-- The note before the window is opened. -/
def windowRecord : Record :=
  ⟨.info, .window, "Opening chart window"⟩

/-- The note on the failure of a run. -/
def failureRecord (e : SessionError) : Record :=
  ⟨.error, .program, e.chain⟩

/-- A window as it is asked for: its title, its size at first, and the charts in it. -/
structure Window where
  title : String
  width : Binary32
  height : Binary32
  charts : List Subplot

/-- The window for the logs of a scenario. -/
def window (config : Config) (scenario : ScenarioPath) (logs : ScenarioLogs) : Window :=
  ⟨"DASH Log Visualizer: " ++ scenario.title, config.windowWidth, config.windowHeight, figure logs⟩

/-- How a window is opened; an error says in words why it could not be. -/
abbrev WindowSystem := Window → Except String Unit

/-- What a run takes from others. -/
structure Host where
  /-- The words in which the TOML reader refuses a text as a configuration. -/
  refuse : String → String
  openWindow : WindowSystem

/-- The last stages of a run: reads the logs of a scenario and opens the window with their charts. -/
def showScenario (opener : Opener) (openWindow : WindowSystem) (config : Config) (scenario : ScenarioPath) :
    Option SessionError × Journal :=
  match ScenarioLogs.load opener scenario.directory config.naming with
  | (.error e, notes) => (some (.logs scenario e), notes)
  | (.ok logs, notes) =>
    match openWindow (window config scenario logs) with
    | .ok () => (none, notes ++ [windowRecord])
    | .error reason => (some (.window reason), notes ++ [windowRecord])

/-- The notes of a run that ends in a given way. -/
def closing : Option SessionError → Journal
  | some e => [failureRecord e]
  | none => []

/-- A run in the working directory of a tree, with the given input. -/
def run (tree : Tree) (input : Script) (host : Host) : Session :=
  match Config.loadOrStandard tree.openFile tree.isFile Config.fileName with
  | (.error e, notes) =>
    let failure := .config e (Config.refusal host.refuse tree.openFile Config.fileName)
    ⟨some failure, input.readings, .unlimited, startRecord :: notes ++ closing (some failure)⟩
  | (.ok config, notes) =>
    let selection := selectScenario tree config.logRoot .unlimited input.readings
    let notes := startRecord :: notes ++ selection.journal
    match selection.outcome with
    | .error e => ⟨some (.selection e), selection.input, selection.sink, notes ++ closing (some (.selection e))⟩
    | .ok scenario =>
      let (failure?, shown) := showScenario selection.state.openFile host.openWindow config scenario
      ⟨failure?, selection.input, selection.sink, notes ++ [selectedRecord scenario] ++ shown ++ closing failure?⟩

/-- The notes that an operator sees, as they are shown. -/
def shown (session : Session) (filter : Filter) : Journal :=
  (session.journal.filter filter.shows).map fun record => { record with message := record.rendered }

/-- What an operator gets of a run: the exit status, what stands on the console, and the notes that are shown. -/
structure Report where
  exitCode : Nat
  output : String
  notes : Journal
deriving DecidableEq

/-- What an operator gets of a run who sets the levels by a text, or does not set them. -/
def report (session : Session) (levels? : Option String) : Report :=
  ⟨session.exitCode, session.sink.text, session.shown (Filter.ofSetting levels?)⟩

end Session

end StreamCharts
