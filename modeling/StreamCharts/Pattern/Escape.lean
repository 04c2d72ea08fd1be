import StreamCharts.Pattern.CharSet
import StreamCharts.Pattern.Mode
import StreamCharts.Text.Hexadecimal

/-!
# Escapes

A backslash gives the character behind it another meaning, or takes its meaning away. Digits, blanks, words and case are known for
ASCII characters only: outside of the mode for them a pattern that asks for one of these is refused, and in that mode one that could
fit a part of another character. Each reader takes what is left of the pattern and returns its result with what is left behind it.
Main definitions: `Atom`, and `escape?`.
-/

namespace StreamCharts.Pattern

/-- What a single character or an escape stands for. -/
inductive Atom where
  | literal (c : Char)
  | set (s : CharSet)
  | place (fits : Option Char → Option Char → Bool)

/-- A set with case variants if case does not count. -/
def Mode.variants? (mode : Mode) (set : CharSet) : Option CharSet :=
  if !mode.caseless then some set
  else if mode.ascii then some set.withoutCase
  else none

/-- A set or, if it is negated, its complement. -/
def Mode.complement? (mode : Mode) (negative : Bool) (set : CharSet) : Option CharSet :=
  if !negative then some set
  else if mode.ascii then none
  else some set.complement

/-- So many hexadecimal digits. -/
def hexDigits? (mode : Mode) : (count : Nat) → List Char → Option (List Char × List Char)
  | 0, cs => some ([], cs)
  | count + 1, cs =>
    match mode.skip cs with
    | [] => none
    | c :: rest =>
      if (Text.hexDigit? c).isSome then (hexDigits? mode count rest).map fun (digits, rest) => (c :: digits, rest) else none

/-- Text up to a closing brace, without what the mode ignores. Each round of the fuel reads one character. -/
def braced? (mode : Mode) : (fuel : Nat) → List Char → Option (List Char × List Char)
  | 0, _ => none
  | fuel + 1, cs =>
    match mode.skip cs with
    | [] => none
    | '\x7d' :: rest => some ([], rest)
    | c :: rest => (braced? mode fuel rest).map fun (text, rest) => (c :: text, rest)

/-- The character whose code point is written behind the letter of an escape: in so many digits or in braces. -/
def codePoint? (mode : Mode) (count : Nat) (cs : List Char) : Option (Char × List Char) :=
  match mode.skip cs with
  | '\x7b' :: rest => do
    let (digits, rest) ← braced? mode (rest.length + 1) rest
    if digits.isEmpty then none
    else
      let c ← Text.codePoint? digits
      return (c, rest)
  | cs => do
    let (digits, rest) ← hexDigits? mode count cs
    let c ← Text.codePoint? digits
    if mode.ascii && count = 2 && 0x80 ≤ c.toNat then none else some (c, rest)

/-- Whether a neighbour of a place is a character of a word. -/
def isWord (neighbour? : Option Char) : Bool :=
  (neighbour?.map CharSet.asciiWord).getD false

/-- A place where a word begins or ends. -/
def boundary (before? behind? : Option Char) : Bool :=
  isWord before? != isWord behind?

/-- A place where a word begins. -/
def wordStart (before? behind? : Option Char) : Bool :=
  !isWord before? && isWord behind?

/-- A place where a word ends. -/
def wordEnd (before? behind? : Option Char) : Bool :=
  isWord before? && !isWord behind?

/-- The condition on a place that a name in braces stands for. -/
def namedBoundary? (name : String) : Option (Option Char → Option Char → Bool) :=
  match name with
  | "start" => some wordStart
  | "end" => some wordEnd
  | "start-half" => some fun before? _ => !isWord before?
  | "end-half" => some fun _ behind? => !isWord behind?
  | _ => none

/-- A character of the name of a boundary. -/
def isBoundaryChar (c : Char) : Bool :=
  c.isAlpha || c = '-'

/-- The boundary behind `\b`: one with a name in braces, or any. Braces with something else in them do not belong to it. -/
def boundary? (mode : Mode) (cs : List Char) : Option (Atom × List Char) :=
  match cs with
  | '\x7b' :: rest =>
    match mode.skip rest with
    | [] => none
    | c :: _ =>
      if isBoundaryChar c then do
        let (name, rest) ← braced? mode (rest.length + 1) rest
        let fits ← namedBoundary? (String.ofList name)
        return (.place fits, rest)
      else some (.place boundary, cs)
  | _ => some (.place boundary, cs)

/-- The set that a letter stands for, or its complement for a capital one. -/
def lettered? (c : Char) : Option (Bool × CharSet) :=
  match c with
  | 'd' => some (false, CharSet.asciiDigit)
  | 'D' => some (true, CharSet.asciiDigit)
  | 's' => some (false, CharSet.asciiBlank)
  | 'S' => some (true, CharSet.asciiBlank)
  | 'w' => some (false, CharSet.asciiWord)
  | 'W' => some (true, CharSet.asciiWord)
  | _ => none

/-- The control character that a letter stands for. -/
def control? (c : Char) : Option Char :=
  match c with
  | 'a' => some '\x07'
  | 'f' => some '\x0c'
  | 't' => some '\t'
  | 'n' => some '\n'
  | 'r' => some '\r'
  | 'v' => some '\x0b'
  | _ => none

/-- The condition on the text around a place that a letter stands for. -/
def placed? (c : Char) : Option (Option Char → Option Char → Bool) :=
  match c with
  | 'A' => some fun before? _ => before?.isNone
  | 'z' => some fun _ behind? => behind?.isNone
  | _ => none

/-- The condition on the words around a place that a letter or a sign stands for, apart from `\b`. -/
def bounded? (c : Char) : Option (Option Char → Option Char → Bool) :=
  match c with
  | 'B' => some fun before? behind? => !boundary before? behind?
  | '<' => some wordStart
  | '>' => some wordEnd
  | _ => none

/-- What a character stands for behind a backslash, where nothing behind it belongs to the escape. Signs of ASCII stand for
themselves; digits and letters without a meaning are refused. -/
def shortEscape? (mode : Mode) (c : Char) : Option Atom :=
  match lettered? c, bounded? c, control? c, placed? c with
  | some (negative, set), _, _, _ => if mode.ascii then (mode.complement? negative set).map .set else none
  | none, some fits, _, _ => if mode.ascii then some (.place fits) else none
  | none, none, some control, _ => some (.literal control)
  | none, none, none, some fits => some (.place fits)
  | none, none, none, none => if c.toNat < 0x80 && !c.isAlphanum then some (.literal c) else none

/-- What stands behind a backslash. -/
def escape? (mode : Mode) : List Char → Option (Atom × List Char)
  | [] => none
  | c :: rest =>
    if c = 'x' then (codePoint? mode 2 rest).map fun (c, rest) => (.literal c, rest)
    else if c = 'u' then (codePoint? mode 4 rest).map fun (c, rest) => (.literal c, rest)
    else if c = 'U' then (codePoint? mode 8 rest).map fun (c, rest) => (.literal c, rest)
    else if c = 'b' then if mode.ascii then boundary? mode rest else none
    else (shortEscape? mode c).map (·, rest)

end StreamCharts.Pattern
