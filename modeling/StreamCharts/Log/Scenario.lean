import StreamCharts.Log.Parse

/-!
# The logs of a scenario

A scenario is a directory with one log of each kind. Its logs are read one after another, and the first that fails ends the
reading. Main definitions: `ScenarioLogs` and `ScenarioLogs.load`.
-/

namespace StreamCharts

/-- The three series of a scenario. -/
structure ScenarioLogs where
  adaptation : AdaptationSeries
  buffer : BufferSeries
  throughput : ThroughputSeries
deriving DecidableEq

/-- Opens and reads an adaptation log. -/
def loadAdaptation (opener : Opener) (path : String) : Except LogError AdaptationSeries :=
  match opener path with
  | .error fault => .error (.notOpened path fault)
  | .ok script => parseAdaptation path script

/-- Opens and reads a buffer log. -/
def loadBuffer (opener : Opener) (path : String) : Except LogError BufferSeries :=
  match opener path with
  | .error fault => .error (.notOpened path fault)
  | .ok script => parseBuffer path script

/-- Opens and reads a throughput log. -/
def loadThroughput (opener : Opener) (path : String) : Except LogError ThroughputSeries × Journal :=
  match opener path with
  | .error fault => (.error (.notOpened path fault), [])
  | .ok script => parseThroughput path script

namespace ScenarioLogs

/-- The path of a log in a scenario's directory. -/
def path (directory : String) (naming : LogNaming) (kind : LogKind) : String :=
  Path.join directory (naming.fileName kind)

/-- The note before a log is opened. -/
def readingRecord (path : String) : Record :=
  ⟨.debug, .logs, "Reading " ++ path⟩

/-- The note after a log was read: how many points it gave, in the words for its kind. -/
def parsedRecord (kind : LogKind) (count : Nat) : Record :=
  let noun := match kind with
    | .throughput => "unique timestamps"
    | _ => "rows"
  ⟨.info, .logs, "Parsed " ++ Numeral.decimal count ++ " " ++ noun ++ " from " ++ kind.title⟩

/-- The warning that a log gave no points. -/
def emptyRecord (kind : LogKind) : Record :=
  ⟨.warn, .logs, "The " ++ kind.title ++ " has no data rows"⟩

/-- Whether the series of a kind is empty. -/
def isEmpty (logs : ScenarioLogs) : LogKind → Bool
  | .adaptation => logs.adaptation.isEmpty
  | .buffer => logs.buffer.isEmpty
  | .throughput => logs.throughput.isEmpty

/-- The warnings about logs without points. -/
def warnings (logs : ScenarioLogs) : Journal :=
  (LogKind.all.filter logs.isEmpty).map emptyRecord

/-- Reads three logs that are open already, in the order of their kinds; each is reported by the word for its kind. -/
def ofScripts (script : LogKind → Script) : Except LogError ScenarioLogs × Journal :=
  match parseAdaptation LogKind.adaptation.word (script .adaptation) with
  | .error e => (.error e, [])
  | .ok adaptation =>
    match parseBuffer LogKind.buffer.word (script .buffer) with
    | .error e => (.error e, [])
    | .ok buffer =>
      let (throughput, repeated) := parseThroughput LogKind.throughput.word (script .throughput)
      (throughput.map fun throughput => ⟨adaptation, buffer, throughput⟩, repeated)

/-- Reads the three logs in a directory, in the order of their kinds, with the notes on the way. -/
def load (opener : Opener) (directory : String) (naming : LogNaming) : Except LogError ScenarioLogs × Journal :=
  let adaptationPath := path directory naming .adaptation
  let before := [readingRecord adaptationPath]
  match loadAdaptation opener adaptationPath with
  | .error e => (.error e, before)
  | .ok adaptation =>
    let bufferPath := path directory naming .buffer
    let before := before ++ [parsedRecord .adaptation adaptation.length, readingRecord bufferPath]
    match loadBuffer opener bufferPath with
    | .error e => (.error e, before)
    | .ok buffer =>
      let throughputPath := path directory naming .throughput
      let before := before ++ [parsedRecord .buffer buffer.length, readingRecord throughputPath]
      match loadThroughput opener throughputPath with
      | (.error e, repeated) => (.error e, before ++ repeated)
      | (.ok throughput, repeated) =>
        let logs := ⟨adaptation, buffer, throughput⟩
        (.ok logs, before ++ repeated ++ [parsedRecord .throughput throughput.length] ++ logs.warnings)

end ScenarioLogs

end StreamCharts
