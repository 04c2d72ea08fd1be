import StreamCharts.Fault
import StreamCharts.Numeral
import StreamCharts.Text.Quoted

/-!
# Errors in logs

Why a log could not be read. Main definitions: `LogError`, its message, and its chain, which adds the message of the cause.
-/

namespace StreamCharts

/-- Why a log could not be read; lines are counted from 1, the header included. -/
inductive LogError where
  /-- The file could not be opened. -/
  | notOpened (path : String) (cause : Fault)
  /-- A line could not be read. -/
  | notRead (file : String) (line : Nat) (cause : Fault)
  /-- A row has the wrong number of fields. -/
  | fieldCount (file : String) (line expected found : Nat)
  /-- A field is no number of the column's type. -/
  | invalidNumber (file : String) (line : Nat) (column token : String)
deriving DecidableEq

namespace LogError

/-- The text by which an error is reported. -/
def message : LogError → String
  | .notOpened path cause => "failed to open " ++ path ++ ": " ++ cause.message
  | .notRead file line cause =>
    "failed to read " ++ file ++ " at line " ++ Numeral.decimal line ++ ": " ++ cause.message
  | .fieldCount file line expected found =>
    file ++ ":" ++ Numeral.decimal line ++ ": expected " ++ Numeral.decimal expected ++ " fields, found " ++
      Numeral.decimal found
  | .invalidNumber file line column token =>
    file ++ ":" ++ Numeral.decimal line ++ ": invalid " ++ column ++ " value " ++ Text.quoted token

/-- The fault that caused an error, if one did. -/
def cause? : LogError → Option Fault
  | .notOpened _ cause => some cause
  | .notRead _ _ cause => some cause
  | .fieldCount .. => none
  | .invalidNumber .. => none

/-- The messages of an error and of its cause. -/
def chain (e : LogError) : String :=
  match e.cause? with
  | some cause => e.message ++ ": " ++ cause.message
  | none => e.message

end LogError

end StreamCharts
