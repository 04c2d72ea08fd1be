/-!
# White space and fields

A line of a table is cut into fields at its white space. Main definition: `fields`, the maximal runs of characters
without the Unicode property White_Space.
-/

namespace StreamCharts.Text

/-- A character with the Unicode property White_Space. -/
def isBlank (c : Char) : Bool :=
  let n := c.toNat
  (9 ≤ n && n ≤ 13) || n == 0x20 || n == 0x85 || n == 0xA0 || n == 0x1680 || (0x2000 ≤ n && n ≤ 0x200A) ||
    n == 0x2028 || n == 0x2029 || n == 0x202F || n == 0x205F || n == 0x3000

/-- Puts a run of characters before other runs, unless it is empty. -/
def consRun (run : List Char) (runs : List (List Char)) : List (List Char) :=
  if run.isEmpty then runs else run :: runs

/-- The run of non-blank characters that a text begins with (empty if it begins with a blank), and the later runs. -/
def scanRuns : List Char → List Char × List (List Char)
  | [] => ([], [])
  | c :: cs =>
    let (run, runs) := scanRuns cs
    if isBlank c then ([], consRun run runs) else (c :: run, runs)

/-- The maximal runs of non-blank characters, from left to right. -/
def runs (cs : List Char) : List (List Char) :=
  consRun (scanRuns cs).1 (scanRuns cs).2

/-- The fields of a line: its maximal runs of non-blank characters. -/
def fields (line : String) : List String :=
  (runs line.toList).map String.ofList

end StreamCharts.Text
