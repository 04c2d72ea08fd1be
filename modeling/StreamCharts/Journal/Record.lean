/-!
# The journal

While it works the program notes what it does, for the operator to read. Main definitions: `Record`, a note with its level and
its topic, and the words by which levels and topics are known.
-/

namespace StreamCharts

/-- How grave a record is, the gravest first. -/
inductive Level where
  | error
  | warn
  | info
  | debug
  | trace
deriving DecidableEq

namespace Level

/-- The position of a level, counted from the gravest. -/
def rank : Level → Nat
  | .error => 1
  | .warn => 2
  | .info => 3
  | .debug => 4
  | .trace => 5

/-- The word for a level. -/
def label : Level → String
  | .error => "ERROR"
  | .warn => "WARN"
  | .info => "INFO"
  | .debug => "DEBUG"
  | .trace => "TRACE"

/-- All levels. -/
def all : List Level := [.error, .warn, .info, .debug, .trace]

end Level

/-- What a record is about. -/
inductive Topic where
  | program
  | config
  | prompt
  | logs
  | window
deriving DecidableEq

/-- The name under which an operator sets the level of a topic. -/
def Topic.target : Topic → String
  | .program => "dash_log_visualizer"
  | .config => "dash_log_visualizer::common::config"
  | .prompt => "dash_log_visualizer::selector::prompt"
  | .logs => "dash_log_visualizer::analyzer::log_parser"
  | .window => "dash_log_visualizer::ui::app_state"

/-- A note in the journal. -/
structure Record where
  level : Level
  topic : Topic
  message : String
deriving DecidableEq

/-- The notes of a run, the earliest first. -/
abbrev Journal := List Record

end StreamCharts
