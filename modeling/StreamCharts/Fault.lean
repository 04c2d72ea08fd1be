/-!
# Faults

What can go wrong between the program and the world outside it. Main definitions: `Fault` and the text by which each fault is
reported.
-/

namespace StreamCharts

/-- The reason why a file, a directory or the console could not be used. -/
inductive Fault where
  /-- Nothing has the given path. -/
  | missing
  /-- A component on the way of the path is a file. -/
  | notDirectory
  /-- A directory was read as a file. -/
  | isDirectory
  /-- The path or one of its components is too long. -/
  | nameTooLong
  /-- The path holds the character U+0000. -/
  | nulInPath
  /-- Bytes that should be text are not valid UTF-8. -/
  | notText
  /-- The output has no room left. -/
  | outputFull
  /-- The output could not be handed on. -/
  | flushFailed
  /-- Any other failure, with the words it is reported by. -/
  | reported (text : String)
deriving DecidableEq

/-- The text by which a fault is reported. -/
def Fault.message : Fault → String
  | .missing => "No such file or directory (os error 2)"
  | .notDirectory => "Not a directory (os error 20)"
  | .isDirectory => "Is a directory (os error 21)"
  | .nameTooLong => "File name too long (os error 36)"
  | .nulInPath => "file name contained an unexpected NUL byte"
  | .notText => "stream did not contain valid UTF-8"
  | .outputFull => "sink is full"
  | .flushFailed => "flush failed"
  | .reported text => text

end StreamCharts
