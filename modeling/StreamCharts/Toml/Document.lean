import StreamCharts.Toml.Scalar
import StreamCharts.Toml.Text

/-!
# TOML documents

A document is a sequence of statements, each on a line of its own: a key with a value, or a header that says to which table the
following keys belong. Main definitions: `value?`, `statements?`, which reads the text, and `documentOfText?`, the table that
a text stands for, if it is a valid document.
-/

namespace StreamCharts.Toml

/-- A reader of a part of a text: its result and what is left. -/
abbrev Reader (α : Type) := List Char → Option (α × List Char)

/-- The rest of an array, behind its bracket or a comma. Each round of the fuel reads one item. -/
def items? (item? : Reader Value) : (fuel : Nat) → Reader (List Value)
  | 0, _ => none
  | fuel + 1, cs =>
    match skipLayout false cs with
    | ']' :: rest => some ([], rest)
    | cs => do
      let (item, rest) ← item? cs
      match skipLayout false rest with
      | ']' :: rest => return ([item], rest)
      | ',' :: rest => do
        let (items, rest) ← items? item? fuel rest
        return (item :: items, rest)
      | _ => none

/-- A key path, an equals sign and a value. -/
def pair? (value? : Reader Value) : Reader ((List String × String) × Value) := fun cs => do
  let (path, rest) ← keyPath? cs
  let (value, rest) ← value? (skipSpaces (← expect? '=' rest))
  return ((path, value), rest)

/-- The rest of a table in braces, behind a comma or the brace, with what was put into it before. Each round of the fuel reads one
pair. -/
def pairs? (value? : Reader Value) : (fuel : Nat) → Entries → Reader Entries
  | 0, _, _ => none
  | fuel + 1, entries, cs => do
    let (((path, key), value), rest) ← pair? value? cs
    let entries ← entries.assign .inline path key value
    match skipSpaces rest with
    | '\x7d' :: rest => return (entries, rest)
    | ',' :: rest => pairs? value? fuel entries rest
    | _ => none

/-- A value without brackets: a string or a scalar. -/
def plainValue? (cs : List Char) : Option (Value × List Char) :=
  if cs.head? = some '"' || cs.head? = some '\'' then (string? cs).map fun (text, rest) => (.string text, rest)
  else scalar? cs

/-- A value that has room for so many brackets around its parts. -/
def valueWithin? : (depth : Nat) → Reader Value
  | 0, cs => plainValue? cs
  | depth + 1, cs =>
    match cs with
    | '[' :: rest => (items? (valueWithin? depth) (rest.length + 1) rest).map fun (items, rest) => (.array items, rest)
    | '\x7b' :: rest =>
      match skipSpaces rest with
      | '\x7d' :: rest => some (.table .inline [], rest)
      | rest => (pairs? (valueWithin? depth) (rest.length + 1) [] rest).map fun (entries, rest) => (.table .inline entries, rest)
    | _ => plainValue? cs

/-- A value. -/
def value? : Reader Value :=
  valueWithin? (nestingLimit - 1)

/-- A header: the table that the keys below it belong to. A repeated header names another table each time. -/
structure Header where
  repeated : Bool
  path : List String
  key : String
deriving DecidableEq

/-- A statement of a document. -/
inductive Statement where
  /-- A key, at the end of a path, and its value. -/
  | pair (path : List String) (key : String) (value : Value)
  /-- The header of a table. -/
  | header (h : Header)

/-- A statement with the end of its line. -/
def statement? (cs : List Char) : Option (Statement × List Char) :=
  match cs with
  | '[' :: '[' :: rest => do
    let ((path, key), rest) ← keyPath? rest
    let rest ← lineEnd? (← expect? ']' (← expect? ']' rest))
    return (.header ⟨true, path, key⟩, rest)
  | '[' :: rest => do
    let ((path, key), rest) ← keyPath? rest
    let rest ← lineEnd? (← expect? ']' rest)
    return (.header ⟨false, path, key⟩, rest)
  | _ => do
    let (((path, key), value), rest) ← pair? value? cs
    let rest ← lineEnd? rest
    return (.pair path key value, rest)

/-- The statements of a text. Each round of the fuel reads one line. -/
def statements? : (fuel : Nat) → List Char → Option (List Statement)
  | 0, _ => none
  | fuel + 1, cs =>
    match skipSpaces cs with
    | [] => some []
    | cs =>
      if cs.head? = some '#' || (newline? cs).isSome then do
        let rest ← lineEnd? cs
        statements? fuel rest
      else do
        let (statement, rest) ← statement? cs
        let others ← statements? fuel rest
        return statement :: others

/-- A document in the making: the tables that are complete, and the one to which keys are being added with its header. -/
structure Draft where
  complete : Entries
  current : Entries
  header? : Option Header

namespace Draft

/-- A document before its first statement. -/
def empty : Draft := ⟨[], [], none⟩

/-- The complete tables once the current one is put among them; before the first header it is the document itself. -/
def close (draft : Draft) : Option Entries :=
  match draft.header? with
  | none => some draft.current
  | some h =>
    if h.repeated then draft.complete.closeTables h.path h.key draft.current
    else draft.complete.closeTable h.path h.key draft.current

/-- The document with one more statement. -/
def add (draft : Draft) : Statement → Option Draft
  | .pair path key value => do
    let current ← draft.current.assign .header path key value
    return { draft with current }
  | .header h => do
    let closed ← draft.close
    if h.repeated then
      let complete ← closed.openTables h.path h.key
      return ⟨complete, [], some h⟩
    else
      let (complete, current) ← closed.openTable h.path h.key
      return ⟨complete, current, some h⟩

end Draft

/-- The table that statements make, if each may follow those before it. -/
def documentOfStatements? (statements : List Statement) : Option Entries := do
  let draft ← statements.foldlM Draft.add Draft.empty
  draft.close

/-- The table that a text stands for; a byte order mark before it is skipped. -/
def documentOfText? (text : String) : Option Entries := do
  let cs := match text.toList with
    | '\uFEFF' :: rest => rest
    | cs => cs
  documentOfStatements? (← statements? (cs.length + 1) cs)

end StreamCharts.Toml
