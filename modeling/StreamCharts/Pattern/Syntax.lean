import StreamCharts.Pattern.Bracket
import StreamCharts.Text.Category

/-!
# How patterns are written

Characters stand for themselves but for the signs of alternatives, groups, repetitions, sets, conditions and escapes. Main
definitions: `Draft`, the part of a pattern that has been read, `Reading`, what a reader of patterns leaves behind, and
`Pattern.ofText?`, the pattern that a text writes, if it is well formed.
-/

namespace StreamCharts.Pattern

/-- A pattern in the making: the alternatives that are complete, what is complete of the present one, and its last piece, to which a
repetition would apply. -/
structure Draft where
  alternatives? : Option Pattern
  done : Pattern
  last? : Option Pattern

namespace Draft

/-- A pattern of which nothing has been read. -/
def empty : Draft := ⟨none, .nothing, none⟩

/-- The present alternative. -/
def present (draft : Draft) : Pattern :=
  match draft.last? with
  | some last => .sequence draft.done last
  | none => draft.done

/-- Adds a piece. -/
def add (draft : Draft) (p : Pattern) : Draft :=
  { draft with done := draft.present, last? := some p }

/-- Ends the last piece, so that no repetition applies to it. -/
def settle (draft : Draft) : Draft :=
  { draft with done := draft.present, last? := none }

/-- The whole pattern. -/
def close (draft : Draft) : Pattern :=
  match draft.alternatives? with
  | some p => .either p draft.present
  | none => draft.present

/-- Begins another alternative. -/
def branch (draft : Draft) : Draft :=
  ⟨some draft.close, .nothing, none⟩

/-- Repeats the last piece, if there is one. -/
def repeatLast? (draft : Draft) (least : Nat) (most? : Option Nat) : Option Draft :=
  draft.last?.map fun p => { draft with last? := some (.repeated p least most?) }

end Draft

/-! ## Repetitions -/

/-- The largest number of repetitions that can be written. -/
def repetitionLimit : Nat := 4294967295

/-- Digits, without what the mode ignores between them. Each round of the fuel reads one. -/
def digits (mode : Mode) : (fuel : Nat) → List Char → List Char × List Char
  | 0, cs => ([], cs)
  | fuel + 1, cs =>
    match mode.skip cs with
    | c :: rest =>
      if c.isDigit then
        let (ds, rest) := digits mode fuel rest
        (c :: ds, rest)
      else ([], c :: rest)
    | [] => ([], [])

/-- A number of repetitions with blanks around it. -/
def repetitions? (mode : Mode) (cs : List Char) : Option (Nat × List Char) :=
  let cs := cs.dropWhile Text.isBlank
  let (ds, rest) := digits mode (cs.length + 1) cs
  let n := ds.foldl (fun n c => n * 10 + (c.toNat - '0'.toNat)) 0
  if ds.isEmpty || repetitionLimit < n then none else some (n, mode.skip (rest.dropWhile Text.isBlank))

/-- What is left behind the mark of a repetition that prefers fewer pieces; which are preferred has no effect here. -/
def skipPreference (cs : List Char) : List Char :=
  match cs with
  | '?' :: rest => rest
  | _ => cs

/-- The bounds of a repetition in braces, behind the brace that opens them. -/
def bounds? (mode : Mode) (cs : List Char) : Option ((Nat × Option Nat) × List Char) := do
  let (least, rest) ← repetitions? mode (mode.skip cs)
  match rest with
  | '\x7d' :: rest => return ((least, some least), skipPreference (mode.skip rest))
  | ',' :: rest =>
    match mode.skip rest with
    | '\x7d' :: rest => return ((least, none), skipPreference (mode.skip rest))
    | rest => do
      let (most, rest) ← repetitions? mode rest
      match rest with
      | '\x7d' :: rest => if least ≤ most then some ((least, some most), skipPreference (mode.skip rest)) else none
      | _ => none
  | _ => none

/-- A repetition: its bounds, if a sign of one stands here. -/
def quantifier? (mode : Mode) : List Char → Option (Option ((Nat × Option Nat) × List Char))
  | '*' :: rest => some (some ((0, none), skipPreference rest))
  | '+' :: rest => some (some ((1, none), skipPreference rest))
  | '?' :: rest => some (some ((0, some 1), skipPreference rest))
  | '\x7b' :: rest => some (bounds? mode rest)
  | _ => none

/-! ## Groups -/

/-- What stands behind an opening parenthesis: a change of the mode for what follows, or the mode in which a group is read and the
name of the group if it has one. -/
inductive Opening where
  | change (mode : Mode)
  | group (mode : Mode) (name? : Option (List Char))

/-- The categories of letters. -/
def letters : List Text.Category :=
  [.uppercaseLetter, .lowercaseLetter, .titlecaseLetter, .modifierLetter, .otherLetter, .letterNumber]

/-- The categories of numbers that are no letters. -/
def numbers : List Text.Category := [.decimalNumber, .otherNumber]

/-- A character of the name of a group. -/
def isNameChar (first : Bool) (c : Char) : Bool :=
  c = '_' || (!first && (c = '.' || c = '[' || c = ']')) ||
    letters.contains (Text.category c) || (!first && numbers.contains (Text.category c))

/-- The name of a group up to the sign that closes it. -/
def groupName? (cs : List Char) : Option (List Char × List Char) :=
  let name := cs.takeWhile (· != '>')
  match cs.dropWhile (· != '>'), name with
  | _ :: rest, first :: others =>
    if isNameChar true first && others.all (isNameChar false) then some (name, rest) else none
  | _, _ => none

/-- Reads what stands behind an opening parenthesis; to look ahead or behind is refused. -/
def opening? (mode : Mode) (cs : List Char) : Option (Opening × List Char) :=
  let named (cs : List Char) := (groupName? cs).map fun (name, rest) => (Opening.group mode (some name), rest)
  match mode.skip cs with
  | '?' :: 'P' :: '<' :: rest => named rest
  | '?' :: '<' :: rest => if rest.head? = some '=' || rest.head? = some '!' then none else named rest
  | '?' :: rest =>
    match mode.flags? [] rest with
    | some (changed, ')', rest) => some (.change changed, rest)
    | some (changed, _, rest) => some (.group changed none, rest)
    | none => none
  | cs => some (.group mode none, cs)

/-- The names of groups with another one, if it is not among them. -/
def newNames? (names : List (List Char)) (name? : Option (List Char)) : Option (List (List Char)) :=
  match name? with
  | some name => if names.contains name then none else some (name :: names)
  | none => some names

/-! ## Pieces -/

/-- The place before which the text, or in the mode for it a line, begins. -/
def lineStart (mode : Mode) (before? behind? : Option Char) : Bool :=
  match before? with
  | none => true
  | some c =>
    mode.multiline && (c = '\n' || (mode.carriage && c = '\r' && behind? != some '\n'))

/-- The place behind which the text, or in the mode for it a line, ends. -/
def lineEnd (mode : Mode) (before? behind? : Option Char) : Bool :=
  match behind? with
  | none => true
  | some c =>
    mode.multiline &&
      (if mode.carriage then c = '\r' || (c = '\n' && before? != some '\r') else c = '\n')

/-- The set that the point stands for, which has more than ASCII characters. -/
def pointSet? (mode : Mode) : Option CharSet :=
  if mode.ascii then none
  else some fun c => mode.dotAll || !(c = '\n' || (mode.carriage && c = '\r'))

/-- The pattern of a character. -/
def literal? (mode : Mode) (c : Char) : Option Pattern :=
  if mode.caseless && 0x80 ≤ c.toNat then none
  else (mode.variants? (CharSet.single c)).map .one

/-- The pattern of an atom outside brackets. -/
def ofAtom? (mode : Mode) : Atom → Option Pattern
  | .literal c => literal? mode c
  | .set set => (mode.variants? set).map .one
  | .place fits => some (.place fits)

/-- A piece of a pattern that is no group and no repetition. -/
def piece? (mode : Mode) : List Char → Option (Pattern × List Char)
  | [] => none
  | '[' :: rest => (bracket? mode rest).map fun (set, rest) => (.one set, rest)
  | '\\' :: rest => do
    let (atom, rest) ← escape? mode rest
    let p ← ofAtom? mode atom
    return (p, rest)
  | '.' :: rest => (pointSet? mode).map fun set => (.one set, rest)
  | '^' :: rest => some (.place (lineStart mode), rest)
  | '$' :: rest => some (.place (lineEnd mode), rest)
  | c :: rest => (literal? mode c).map (·, rest)

/-- What has been read of a pattern: the pattern, the names of all groups so far, and what is left of the text. -/
structure Reading where
  pattern : Pattern
  names : List (List Char)
  rest : List Char

/-- Reads a pattern up to its end or to a closing parenthesis, which is left. Each round of the fuel reads one part. -/
def read? : (fuel : Nat) → Mode → (names : List (List Char)) → Draft → List Char → Option Reading
  | 0, _, _, _, _ => none
  | fuel + 1, mode, names, draft, cs =>
    match mode.skip cs with
    | [] => some ⟨draft.close, names, []⟩
    | ')' :: rest => some ⟨draft.close, names, ')' :: rest⟩
    | '|' :: rest => read? fuel mode names draft.branch rest
    | '(' :: rest => do
      match ← opening? mode rest with
      | (.change changed, rest) => read? fuel changed names draft.settle rest
      | (.group inner name?, rest) => do
        let names ← newNames? names name?
        match ← read? fuel inner names Draft.empty rest with
        | ⟨p, names, ')' :: rest⟩ => read? fuel mode names (draft.add p) rest
        | _ => none
    | cs =>
      match quantifier? mode cs with
      | some none => none
      | some (some ((least, most?), rest)) => do
        let draft ← draft.repeatLast? least most?
        read? fuel mode names draft rest
      | none => do
        let (p, rest) ← piece? mode cs
        read? fuel mode names (draft.add p) rest

/-- The pattern that a text writes. -/
def ofText? (text : String) : Option Pattern :=
  match read? (text.toList.length + 1) Mode.standard [] Draft.empty text.toList with
  | some ⟨p, _, []⟩ => some p
  | _ => none

end StreamCharts.Pattern
