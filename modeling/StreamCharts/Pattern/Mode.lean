import StreamCharts.Text.Blank

/-!
# Modes of patterns

Flags change how the rest of a pattern is read. Main definitions: `Mode`, `Mode.flags?`, which reads flags, and `Mode.skip`, which
passes over what a pattern in free layout ignores.
-/

namespace StreamCharts.Pattern

/-- How a pattern is read. -/
structure Mode where
  /-- Characters stand for their case variants too. -/
  caseless : Bool
  /-- The ends of lines count as ends of the text do. -/
  multiline : Bool
  /-- The point stands for the ends of lines too. -/
  dotAll : Bool
  /-- A carriage return ends a line as well. -/
  carriage : Bool
  /-- Blanks and comments are ignored. -/
  free : Bool
  /-- Names of sets, words and case mean ASCII characters only; without this mode patterns must do without them. -/
  ascii : Bool
deriving DecidableEq

namespace Mode

/-- The mode in which patterns begin. -/
def standard : Mode := ⟨false, false, false, false, false, false⟩

/-- The mode with a flag set or taken away. Which of several pieces is preferred has no effect here. -/
def set? (mode : Mode) (flag : Char) (on : Bool) : Option Mode :=
  match flag with
  | 'i' => some { mode with caseless := on }
  | 'm' => some { mode with multiline := on }
  | 's' => some { mode with dotAll := on }
  | 'R' => some { mode with carriage := on }
  | 'x' => some { mode with free := on }
  | 'u' => some { mode with ascii := !on }
  | 'U' => some mode
  | _ => none

/-- Reads flags up to a colon or a closing parenthesis, which is handed on. Flags behind a minus sign are taken away; none may stand
twice, a minus sign must not be the last, and a parenthesis not the first. -/
def flags? (mode : Mode) (seen : List Char) : List Char → Option (Mode × Char × List Char)
  | [] => none
  | c :: cs =>
    if c = ':' || c = ')' then
      if seen.head? = some '-' || (seen.isEmpty && c = ')') then none else some (mode, c, cs)
    else if seen.contains c then none
    else if c = '-' then mode.flags? (c :: seen) cs
    else
      match mode.set? c (!seen.contains '-') with
      | some mode => mode.flags? (c :: seen) cs
      | none => none

/-- What is left behind blanks and comments, which end with their lines. -/
def skipLayout (inComment : Bool) : List Char → List Char
  | [] => []
  | c :: cs =>
    if inComment then skipLayout (c != '\n') cs
    else if Text.isBlank c then skipLayout false cs
    else if c = '#' then skipLayout true cs
    else c :: cs

/-- What is left behind the text that the mode ignores. -/
def skip (mode : Mode) (cs : List Char) : List Char :=
  if mode.free then skipLayout false cs else cs

end Mode

end StreamCharts.Pattern
