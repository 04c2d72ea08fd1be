import StreamCharts.Session

/-!
# A run, request by request

All that a run wants of the world is a request: whether a path leads to a file, what a directory holds, that a text is written, the
next line. Between two requests it only notes something and goes on to another position. Main definitions: `Request` and its answers,
`Position`, where a run can stand, `Position.move`, what it does there, and `World`, which answers in place of a system.
-/

namespace StreamCharts.Session

/-- What a run wants of the world. -/
inductive Request where
  /-- To know whether a path leads to a file. -/
  | isFile (path : String)
  /-- To have a file opened and read. -/
  | openFile (path : String)
  /-- To know what a directory holds. -/
  | readDirectory (path : String)
  /-- To have a text written and handed on. -/
  | print (text : String)
  /-- To have a text written. -/
  | write (text : String)
  /-- To have the next line of the input. -/
  | readLine
  /-- To have a window opened. -/
  | openWindow (window : Window)

/-- What a request is answered by. -/
abbrev Request.Answer : Request → Type
  | .isFile _ => Bool
  | .openFile _ => Except Fault Script
  | .readDirectory _ => Except Fault (List (Except Fault FileName))
  | .print _ => Except Fault Unit
  | .write _ => Except Fault Unit
  | .readLine => Outcome
  | .openWindow _ => Except String Unit

/-- What is asked of the operator: the algorithm, or the number of clients of one. -/
inductive Query where
  | algorithm
  | clientCount (chosen : String)

namespace Query

/-- The words of a query. -/
def question : Query → Question
  | .algorithm => algorithmQuestion
  | .clientCount _ => clientCountQuestion

/-- The directory that holds the candidates. -/
def directory (root : String) : Query → String
  | .algorithm => root
  | .clientCount chosen => Path.join root chosen

end Query

/-- Where a run stands, with what it knows by then. -/
inductive Position where
  /-- Before all else: is there a file with the configuration? -/
  | seeking
  /-- There is; what does it say? -/
  | configuring
  /-- At the start of a round, before its listing. -/
  | listing (config : Config) (query : Query)
  /-- Before the listing is shown. -/
  | showing (config : Config) (query : Query) (candidates : List String)
  /-- Before the answer. -/
  | hearing (config : Config) (query : Query) (candidates : List String)
  /-- Before the rejection of an answer is shown. -/
  | rejecting (config : Config) (query : Query)
  /-- Before each of the logs, with those that were read. -/
  | adaptationLog (config : Config) (scenario : ScenarioPath)
  | bufferLog (config : Config) (scenario : ScenarioPath) (adaptation : AdaptationSeries)
  | throughputLog (config : Config) (scenario : ScenarioPath) (adaptation : AdaptationSeries) (buffer : BufferSeries)
  /-- Before the window. -/
  | presenting (config : Config) (scenario : ScenarioPath) (logs : ScenarioLogs)
  | ended (failure? : Option SessionError)

/-- What a run does where it stands. -/
inductive Move where
  /-- It makes a request; the answer decides what is noted and where the run goes on. -/
  | ask (request : Request) (next : request.Answer → Journal × Position)
  /-- It is over. -/
  | finish (failure? : Option SessionError)

/-- The end of a run. -/
def finish (failure? : Option SessionError) : Journal × Position :=
  (closing failure?, .ended failure?)

/-- Before a log of a scenario is opened. -/
def beforeLog (config : Config) (scenario : ScenarioPath) (kind : LogKind) : Record :=
  ScenarioLogs.readingRecord (ScenarioLogs.path scenario.directory config.naming kind)

/-- How a run goes on behind a query. -/
def Query.turn (config : Config) (query : Query) : Except SelectionError String → Journal × Position
  | .error e => finish (some (.selection e))
  | .ok choice =>
    match query with
    | .algorithm => ([], .listing config (.clientCount choice))
    | .clientCount chosen =>
      let scenario : ScenarioPath := ⟨config.logRoot, chosen, choice⟩
      ([selectedRecord scenario, beforeLog config scenario .adaptation], .adaptationLog config scenario)

/-- Files that give one answer, whatever is read. -/
def answering (answer : Except Fault (List (Except Fault FileName))) : FileSystem Unit :=
  ⟨fun _ _ => answer, fun _ _ => ()⟩

/-- What a run does where it stands; it refuses the text of a configuration in the given words. -/
def Position.move (refuse : String → String) : Position → Move
  | .seeking => .ask (.isFile Config.fileName) fun found =>
    if found then ([Config.foundRecord Config.fileName], .configuring)
    else ([Config.absentRecord Config.fileName], .listing .standard .algorithm)
  | .configuring => .ask (.openFile Config.fileName) fun opened =>
    match Config.load (fun _ => opened) Config.fileName with
    | .error e => finish (some (.config e (Config.refusal refuse (fun _ => opened) Config.fileName)))
    | .ok config => ([], .listing config .algorithm)
  | .listing config query => .ask (.readDirectory (query.directory config.logRoot)) fun entries =>
    match (answering entries).listEntries () (query.directory config.logRoot) with
    | .error e => query.turn config (.error e)
    | .ok candidates => ([], .showing config query candidates)
  | .showing config query candidates => .ask (.print (query.question.opening candidates)) fun printed =>
    match printed with
    | .error fault => query.turn config (.error (.console fault))
    | .ok () => ([], .hearing config query candidates)
  | .hearing config query candidates => .ask .readLine fun outcome =>
    match outcome with
    | .finished => query.turn config (.error .inputClosed)
    | .failed fault => query.turn config (.error (.console fault))
    | .line text =>
      match validate (answerOf text) candidates with
      | .ok choice => query.turn config (.ok choice)
      | .error _ => ([Question.rejectedRecord (answerOf text)], .rejecting config query)
  | .rejecting config query => .ask (.write query.question.rejectionLine) fun written =>
    match written with
    | .error fault => query.turn config (.error (.console fault))
    | .ok () => ([], .listing config query)
  | .adaptationLog config scenario =>
    let path := ScenarioLogs.path scenario.directory config.naming .adaptation
    .ask (.openFile path) fun opened =>
      match loadAdaptation (fun _ => opened) path with
      | .error e => finish (some (.logs scenario e))
      | .ok adaptation =>
        ([ScenarioLogs.parsedRecord .adaptation adaptation.length, beforeLog config scenario .buffer],
          .bufferLog config scenario adaptation)
  | .bufferLog config scenario adaptation =>
    let path := ScenarioLogs.path scenario.directory config.naming .buffer
    .ask (.openFile path) fun opened =>
      match loadBuffer (fun _ => opened) path with
      | .error e => finish (some (.logs scenario e))
      | .ok buffer =>
        ([ScenarioLogs.parsedRecord .buffer buffer.length, beforeLog config scenario .throughput],
          .throughputLog config scenario adaptation buffer)
  | .throughputLog config scenario adaptation buffer =>
    let path := ScenarioLogs.path scenario.directory config.naming .throughput
    .ask (.openFile path) fun opened =>
      match loadThroughput (fun _ => opened) path with
      | (.error e, repeated) =>
        let (notes, position) := finish (some (.logs scenario e))
        (repeated ++ notes, position)
      | (.ok throughput, repeated) =>
        let logs : ScenarioLogs := ⟨adaptation, buffer, throughput⟩
        (repeated ++ [ScenarioLogs.parsedRecord .throughput throughput.length] ++ logs.warnings ++ [windowRecord],
          .presenting config scenario logs)
  | .presenting config scenario logs => .ask (.openWindow (window config scenario logs)) fun opened =>
    match opened with
    | .error reason => finish (some (.window reason))
    | .ok () => finish none
  | .ended failure? => .finish failure?

/-- A world of its own: the files, the readings that are left, and the console. -/
structure World where
  tree : Tree
  input : List Reading
  sink : Sink

/-- The world at the start of a run in the working directory of a tree, with the given input. -/
def World.start (tree : Tree) (input : Script) : World :=
  ⟨tree, input.readings, .unlimited⟩

/-- The answer to a request, and the world behind it: others change the files while a line is read. -/
def World.answer (openWindow : WindowSystem) (world : World) : (request : Request) → request.Answer × World
  | .isFile path => (world.tree.isFile path, world)
  | .openFile path => (world.tree.openFile path, world)
  | .readDirectory path => (Tree.fileSystem.read world.tree path, world)
  | .print text =>
    let (printed, sink) := world.sink.print text
    (printed, { world with sink })
  | .write text =>
    let (written, sink) := world.sink.write text
    (written, { world with sink })
  | .readLine =>
    match world.input with
    | [] => (.finished, world)
    | reading :: rest => (reading.outcome, { world with tree := world.tree.edits reading.changes, input := rest })
  | .openWindow window => (openWindow window, world)

end StreamCharts.Session
