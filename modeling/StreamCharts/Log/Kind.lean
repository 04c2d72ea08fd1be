import StreamCharts.Numeral

/-!
# Kinds and names of logs

A simulated client leaves three logs. Main definitions: `LogKind`, and `LogNaming`, which gives the file of each kind its name.
-/

namespace StreamCharts

/-- The three logs of a client. -/
inductive LogKind where
  /-- Which quality was requested for each segment. -/
  | adaptation
  /-- How full the buffer was over time. -/
  | buffer
  /-- How much bandwidth was measured over time. -/
  | throughput
deriving DecidableEq

namespace LogKind

/-- All kinds, in the order in which they are read and drawn. -/
def all : List LogKind := [.adaptation, .buffer, .throughput]

/-- The number of fields in each row of a log. -/
def fieldCount : LogKind → Nat
  | .adaptation => 5
  | .buffer => 2
  | .throughput => 2

/-- The word for a kind in file names. -/
def word : LogKind → String
  | .adaptation => "adaptation"
  | .buffer => "buffer"
  | .throughput => "throughput"

/-- A kind of log in a sentence. -/
def title (kind : LogKind) : String :=
  kind.word ++ " log"

end LogKind

/-- The simulation and the client whose logs are read. -/
structure LogNaming where
  simulation : UInt32
  client : UInt32
deriving DecidableEq

namespace LogNaming

/-- The first simulation and its first client. -/
def standard : LogNaming := ⟨1, 0⟩

/-- The name of the file of a kind. -/
def fileName (naming : LogNaming) (kind : LogKind) : String :=
  "sim" ++ Numeral.decimal naming.simulation.toNat ++ "_cl" ++ Numeral.decimal naming.client.toNat ++ "_" ++ kind.word ++
    "Log.txt"

end LogNaming

end StreamCharts
