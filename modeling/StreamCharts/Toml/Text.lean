import StreamCharts.Text.Hexadecimal
import StreamCharts.Toml.Scan

/-!
# Strings and keys of TOML

Strings stand between quotes, single or tripled, with escapes between double ones; keys are bare words or strings, joined by points.
Each reader takes what is left of the text and returns its result with what is left behind it. Main definitions: `string?` and
`keyPath?`.
-/

namespace StreamCharts.Toml

/-- The character of a short escape, by the letter behind the backslash. -/
def shortEscape? (c : Char) : Option Char :=
  match c with
  | 'b' => some '\x08'
  | 't' => some '\t'
  | 'n' => some '\n'
  | 'f' => some '\x0c'
  | 'r' => some '\r'
  | '"' => some '"'
  | '\\' => some '\\'
  | _ => none

/-- The character of an escape, behind the backslash. -/
def escape? : List Char → Option (Char × List Char)
  | 'u' :: rest => if rest.length < 4 then none else (Text.codePoint? (rest.take 4)).map (·, rest.drop 4)
  | 'U' :: rest => if rest.length < 8 then none else (Text.codePoint? (rest.take 8)).map (·, rest.drop 8)
  | c :: rest => (shortEscape? c).map (·, rest)
  | [] => none

/-- A character that stands for itself between quotes of the given kind. -/
def isPlain (quote c : Char) : Bool :=
  isCommentChar c && c != quote && (quote != '"' || c != '\\')

/-- The rest of a string of one line, behind its opening quote. Each round of the fuel reads one character. -/
def lineString? (quote : Char) : (fuel : Nat) → List Char → Option (List Char × List Char)
  | 0, _ => none
  | _, [] => none
  | fuel + 1, c :: rest =>
    if c = quote then some ([], rest)
    else if c = '\\' && quote = '"' then do
      let (x, rest) ← escape? rest
      let (text, rest) ← lineString? quote fuel rest
      return (x :: text, rest)
    else if isPlain quote c then do
      let (text, rest) ← lineString? quote fuel rest
      return (c :: text, rest)
    else none

/-- Behind three quotes that close a string: up to two more belong to its text. -/
def closingQuotes (quote : Char) (cs : List Char) : List Char × List Char :=
  let extra := (cs.takeWhile (· = quote)).length
  let count := if extra < 2 then extra else 2
  (List.replicate count quote, cs.drop count)

/-- What is left behind a backslash at the end of a line and the blank lines and blanks that follow. -/
def joinedLine? (cs : List Char) : Option (List Char) :=
  (newline? (skipSpaces cs)).map fun rest => skipMargin rest
where
  /-- What is left behind blanks and line ends. -/
  skipMargin : List Char → List Char
    | '\n' :: rest => skipMargin rest
    | '\r' :: '\n' :: rest => skipMargin rest
    | c :: rest => if isSpace c then skipMargin rest else c :: rest
    | [] => []

/-- The rest of a string of several lines, behind its opening quotes. A line end in it counts as a single newline. -/
def blockString? (quote : Char) : (fuel : Nat) → List Char → Option (List Char × List Char)
  | 0, _ => none
  | _, [] => none
  | fuel + 1, c :: rest =>
    if c = quote && rest.take 2 = [quote, quote] then some (closingQuotes quote (rest.drop 2))
    else
      match newline? (c :: rest) with
      | some rest => do
        let (text, rest) ← blockString? quote fuel rest
        return ('\n' :: text, rest)
      | none =>
        if c = '\\' && quote = '"' then
          match joinedLine? rest with
          | some rest => blockString? quote fuel rest
          | none => do
            let (x, rest) ← escape? rest
            let (text, rest) ← blockString? quote fuel rest
            return (x :: text, rest)
        else if c = quote || isPlain quote c then do
          let (text, rest) ← blockString? quote fuel rest
          return (c :: text, rest)
        else none

/-- A string of one line between quotes of the given kind. -/
def lineStringOf? (quote : Char) (cs : List Char) : Option (String × List Char) :=
  match cs with
  | c :: rest =>
    if c = quote then (lineString? quote rest.length rest).map fun (text, rest) => (String.ofList text, rest) else none
  | [] => none

/-- A string of several lines between quotes of the given kind; a line end right behind the opening quotes is skipped. -/
def blockStringOf? (quote : Char) (cs : List Char) : Option (String × List Char) :=
  if cs.take 3 = [quote, quote, quote] then
    let rest := cs.drop 3
    let rest := (newline? rest).getD rest
    (blockString? quote rest.length rest).map fun (text, rest) => (String.ofList text, rest)
  else none

/-- A string of any kind. -/
def string? (cs : List Char) : Option (String × List Char) :=
  if cs.take 3 = ['"', '"', '"'] then blockStringOf? '"' cs
  else if cs.take 3 = ['\'', '\'', '\''] then blockStringOf? '\'' cs
  else if cs.head? = some '"' then lineStringOf? '"' cs
  else lineStringOf? '\'' cs

/-- A character of a bare key. -/
def isBareKeyChar (c : Char) : Bool :=
  c.isAlphanum || c = '-' || c = '_'

/-- A single key: a string of one line, or a bare word. -/
def simpleKey? (cs : List Char) : Option (String × List Char) :=
  match cs.head? with
  | some '"' => lineStringOf? '"' cs
  | some '\'' => lineStringOf? '\'' cs
  | _ =>
    let word := cs.takeWhile isBareKeyChar
    if word.isEmpty then none else some (String.ofList word, cs.dropWhile isBareKeyChar)

/-- Keys joined by points, with blanks around each. Each round of the fuel reads one key. -/
def keysFrom? : (fuel : Nat) → List Char → Option (List String × List Char)
  | 0, _ => none
  | fuel + 1, cs => do
    let (key, rest) ← simpleKey? (skipSpaces cs)
    match skipSpaces rest with
    | '.' :: rest => do
      let (keys, rest) ← keysFrom? fuel rest
      return (key :: keys, rest)
    | rest => return ([key], rest)

/-- The number of keys from which on a path is refused, and of brackets from which on a value is. -/
def nestingLimit : Nat := 80

/-- A path of keys: those before the last, and the last. -/
def keyPath? (cs : List Char) : Option ((List String × String) × List Char) := do
  let (keys, rest) ← keysFrom? (cs.length + 1) cs
  let key ← keys.getLast?
  if keys.length < nestingLimit then some ((keys.dropLast, key), rest) else none

end StreamCharts.Toml
