import StreamCharts.Binary.Shortest
import StreamCharts.Input.Script
import StreamCharts.Journal.Record
import StreamCharts.Log.Kind
import StreamCharts.Text.Quoted
import StreamCharts.Toml.Document

/-!
# Configuration

Settings come from an optional TOML file; each key sets one of them, and what the file does not set keeps its standard value. Main
definitions: `Config`, `Config.ofEntries`, which reads the keys in their order and stops at the first that is wrong, and
`Config.load`.
-/

namespace StreamCharts

/-- The settings of the program. -/
structure Config where
  logRoot : String
  simulation : UInt32
  client : UInt32
  windowWidth : Binary32
  windowHeight : Binary32
deriving DecidableEq

/-- The keys of the settings. -/
inductive Setting where
  | logRoot
  | simulation
  | client
  | windowWidth
  | windowHeight
deriving DecidableEq

namespace Setting

/-- All settings. -/
def all : List Setting := [.logRoot, .simulation, .client, .windowWidth, .windowHeight]

/-- The key of a setting. -/
def key : Setting → String
  | .logRoot => "log-root"
  | .simulation => "simulation-id"
  | .client => "client-id"
  | .windowWidth => "window-width"
  | .windowHeight => "window-height"

/-- The setting with a key. -/
def ofKey? (key : String) : Option Setting :=
  all.find? fun setting => setting.key == key

/-- What the value of a setting should be, in words. -/
def expected : Setting → String
  | .logRoot => "path string"
  | .simulation => "u32"
  | .client => "u32"
  | .windowWidth => "f32"
  | .windowHeight => "f32"

end Setting

/-- What is wrong with a key or its value. -/
inductive ConfigFlaw where
  /-- No setting has the key. -/
  | unknownKey (key : String)
  /-- The value is of the wrong type. -/
  | wrongType (found : String) (setting : Setting)
  /-- The integer is out of range. -/
  | outOfRange (n : Int64) (setting : Setting)
deriving DecidableEq

/-- The text by which a flaw is reported. -/
def ConfigFlaw.message : ConfigFlaw → String
  | .unknownKey key =>
    "unknown field `" ++ key ++ "`, expected one of " ++
      String.intercalate ", " (Setting.all.map fun setting => "`" ++ setting.key ++ "`")
  | .wrongType found setting => "invalid type: " ++ found ++ ", expected " ++ setting.expected
  | .outOfRange n setting =>
    "invalid value: integer `" ++ Numeral.signedDecimal n.toInt ++ "`, expected " ++ setting.expected

/-- Why a configuration could not be loaded. -/
inductive ConfigError where
  /-- The file could not be read. -/
  | notRead (path : String) (cause : Fault)
  /-- The file is no TOML document. -/
  | notToml (path : String)
  /-- The document is no configuration. -/
  | flawed (path : String) (flaw : ConfigFlaw)
deriving DecidableEq

namespace ConfigError

/-- The text by which an error is reported. -/
def message : ConfigError → String
  | .notRead path cause => "Failed to read config file " ++ path ++ ": " ++ cause.message
  | .notToml path => "Failed to parse config file " ++ path
  | .flawed path _ => "Failed to parse config file " ++ path

/-- What exactly is wrong with the document, if that can be said. -/
def flaw? : ConfigError → Option ConfigFlaw
  | .flawed _ flaw => some flaw
  | _ => none

/-- The message of an error, and for a text that was refused the words in which the TOML reader does so. -/
def chain (words : String) : ConfigError → String
  | .notRead path cause => message (.notRead path cause)
  | .notToml path => message (.notToml path) ++ ": " ++ words
  | .flawed path flaw => message (.flawed path flaw) ++ ": " ++ words

end ConfigError

/-- A value in words, by its type and, where it is short, by itself. -/
def Toml.Value.inWords : Toml.Value → String
  | .string text => "string " ++ Text.quoted text
  | .integer n => "integer `" ++ Numeral.signedDecimal n.toInt ++ "`"
  | .float x => "floating point `" ++ x.displayWithPoint ++ "`"
  | .boolean b => "boolean `" ++ (if b then "true" else "false") ++ "`"
  | .array _ => "sequence"
  | .tables _ => "sequence"
  | .moment => "map"
  | .table _ _ => "map"

namespace Config

/-- The settings that hold where nothing is set. -/
def standard : Config :=
  ⟨"dash-log-files", 1, 0, 1000, 900⟩

/-- Whether a configuration is the standard one. The log root may be spelled in another way. -/
def isStandard (config : Config) : Bool :=
  Path.same config.logRoot standard.logRoot && { config with logRoot := standard.logRoot } == standard

/-- The name of the file in the working directory. -/
def fileName : String := "visualizer.toml"

/-- The client whose logs are read. -/
def naming (config : Config) : LogNaming :=
  ⟨config.simulation, config.client⟩

/-- The text of a setting. -/
def text (setting : Setting) : Toml.Value → Except ConfigFlaw String
  | .string text => .ok text
  | value => .error (.wrongType value.inWords setting)

/-- The number of a setting for an identifier. -/
def identifier (setting : Setting) : Toml.Value → Except ConfigFlaw UInt32
  | .integer n =>
    if 0 ≤ n.toInt ∧ n.toInt < UInt32.size then .ok (UInt32.ofNat n.toInt.toNat) else .error (.outOfRange n setting)
  | value => .error (.wrongType value.inWords setting)

/-- The length of a setting for a size; whole numbers are lengths too. -/
def length (setting : Setting) : Toml.Value → Except ConfigFlaw Binary32
  | .float x => .ok (x.convert .single)
  | .integer n => .ok (Binary.ofInt .single n.toInt)
  | value => .error (.wrongType value.inWords setting)

/-- The configuration with one setting changed. -/
def set (config : Config) (setting : Setting) (value : Toml.Value) : Except ConfigFlaw Config :=
  match setting with
  | .logRoot => (text setting value).map fun logRoot => { config with logRoot }
  | .simulation => (identifier setting value).map fun simulation => { config with simulation }
  | .client => (identifier setting value).map fun client => { config with client }
  | .windowWidth => (length setting value).map fun windowWidth => { config with windowWidth }
  | .windowHeight => (length setting value).map fun windowHeight => { config with windowHeight }

/-- The configuration with the setting of a key changed. -/
def setKey (config : Config) (entry : String × Toml.Value) : Except ConfigFlaw Config :=
  match Setting.ofKey? entry.1 with
  | none => .error (.unknownKey entry.1)
  | some setting => config.set setting entry.2

/-- The configuration that the entries of a document give, one after another. -/
def ofEntries (entries : Toml.Entries) : Except ConfigFlaw Config :=
  entries.foldlM setKey standard

/-- The configuration in the text of a file. -/
def ofText (path text : String) : Except ConfigError Config :=
  match Toml.documentOfText? text with
  | none => .error (.notToml path)
  | some entries =>
    match ofEntries entries with
    | .ok config => .ok config
    | .error flaw => .error (.flawed path flaw)

/-- The text of a file. -/
def fileText (opener : Opener) (path : String) : Except Fault String := do
  let script ← opener path
  let content ← script.content
  match Text.ofUtf8? content with
  | some text => .ok text
  | none => .error .notText

/-- The configuration in a file. -/
def load (opener : Opener) (path : String) : Except ConfigError Config :=
  match fileText opener path with
  | .error fault => .error (.notRead path fault)
  | .ok text => ofText path text

/-- The words in which the text of a file is refused as a configuration, if there is a text. -/
def refusal (refuse : String → String) (opener : Opener) (path : String) : String :=
  match fileText opener path with
  | .ok text => refuse text
  | .error _ => ""

/-- The note on a configuration from a file. -/
def foundRecord (path : String) : Record :=
  ⟨.info, .config, "Loading configuration from " ++ path⟩

/-- The note on a configuration without a file. -/
def absentRecord (path : String) : Record :=
  ⟨.info, .config, "No " ++ path ++ " found, using defaults"⟩

/-- The configuration in a file if it is one, and the standard configuration otherwise, with a note on which. -/
def loadOrStandard (opener : Opener) (isFile : String → Bool) (path : String) : Except ConfigError Config × Journal :=
  if isFile path then (load opener path, [foundRecord path]) else (.ok standard, [absentRecord path])

end Config

end StreamCharts
