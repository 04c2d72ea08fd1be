import StreamCharts.Pattern.Escape

/-!
# Sets in brackets

Between brackets a pattern lists the characters of a set: single ones, ranges, escapes, ASCII sets by name, and further brackets, in
unions that signs of operations stand between. Each reader takes what is left of the pattern and returns its result with what
is left behind it. Main definition: `bracket?`.
-/

namespace StreamCharts.Pattern

/-- A character or an escape between brackets. -/
def bracketAtom? (mode : Mode) : List Char → Option (Atom × List Char)
  | [] => none
  | '\\' :: rest => escape? mode rest
  | c :: rest => some (.literal c, rest)

/-- The set of the literals from one to another; in the mode for ASCII no others are literals. -/
def literalSet? (mode : Mode) (first last : Char) : Option CharSet :=
  if mode.ascii && 0x80 ≤ last.toNat then none
  else if first ≤ last then mode.variants? (CharSet.range first last)
  else none

/-- The set of an atom that is no range. -/
def atomSet? (mode : Mode) : Atom → Option CharSet
  | .literal c => literalSet? mode c c
  | .set set => mode.variants? set
  | .place _ => none

/-- A range, or a single atom. A hyphen makes no range before a closing bracket or another hyphen. -/
def bracketItem? (mode : Mode) (cs : List Char) : Option (CharSet × List Char) := do
  let (atom, rest) ← bracketAtom? mode cs
  let alone := (atomSet? mode atom).map (·, mode.skip rest)
  match mode.skip rest with
  | [] => none
  | '-' :: behind =>
    match mode.skip behind with
    | ']' :: _ => alone
    | '-' :: _ => alone
    | next => do
      let (other, rest) ← bracketAtom? mode next
      match atom, other with
      | .literal first, .literal last => (literalSet? mode first last).map (·, rest)
      | _, _ => none
  | _ => alone

/-- The name of an ASCII set between colons, behind the bracket that opens it, and whether the set is negated. -/
def asciiName? (cs : List Char) : Option (Bool × CharSet × List Char) :=
  match cs with
  | ':' :: rest =>
    let negative := rest.head? = some '^'
    let rest := if negative then rest.drop 1 else rest
    match rest.dropWhile (· != ':') with
    | ':' :: ']' :: behind =>
      (CharSet.ofAsciiName? (String.ofList (rest.takeWhile (· != ':')))).map fun set => (negative, set, behind)
    | _ => none
  | _ => none

/-- Hyphens at the beginning of a set: how many stand there, and what is left behind them. Each round of the fuel reads one. -/
def leadingHyphens (mode : Mode) : (fuel : Nat) → List Char → Nat × List Char
  | 0, cs => (0, cs)
  | fuel + 1, cs =>
    match mode.skip cs with
    | '-' :: rest =>
      let (count, rest) := leadingHyphens mode fuel rest
      (count + 1, rest)
    | cs => (0, cs)

/-- The beginning of a set: whether it is negated, and the character that stands for itself only there, a hyphen or a closing
bracket. -/
def bracketOpening (mode : Mode) (cs : List Char) : Bool × Option Char × List Char :=
  let (negative, cs) := match mode.skip cs with
    | '^' :: rest => (true, rest)
    | cs => (false, cs)
  match leadingHyphens mode (cs.length + 1) cs with
  | (0, ']' :: rest) => (negative, some ']', rest)
  | (0, rest) => (negative, none, rest)
  | (_, rest) => (negative, some '-', rest)

/-- The set with which a union begins. -/
def openingSet? (mode : Mode) (first? : Option Char) : Option CharSet :=
  match first? with
  | some c => mode.variants? (CharSet.single c)
  | none => some CharSet.empty

/-- The rest of a set behind its beginning. What `combine` makes of a union takes account of the operations before it. Each round of
the fuel reads one part. -/
def bracketBody? (mode : Mode) : (fuel : Nat) → (combine : CharSet → CharSet) → (union : CharSet) → List Char →
    Option (CharSet × List Char)
  | 0, _, _, _ => none
  | fuel + 1, combine, union, cs =>
    match mode.skip cs with
    | [] => none
    | ']' :: rest => some (combine union, rest)
    | '&' :: '&' :: rest => bracketBody? mode fuel (combine union).intersection CharSet.empty rest
    | '-' :: '-' :: rest => bracketBody? mode fuel (combine union).difference CharSet.empty rest
    | '~' :: '~' :: rest => bracketBody? mode fuel (combine union).symmetricDifference CharSet.empty rest
    | '[' :: rest =>
      match asciiName? rest with
      | some (negative, set, rest) => do
        let set ← (mode.variants? set).bind (mode.complement? negative)
        bracketBody? mode fuel combine (union.union set) rest
      | none => do
        let (negative, first?, rest) := bracketOpening mode rest
        let (set, rest) ← bracketBody? mode fuel id (← openingSet? mode first?) rest
        let set ← mode.complement? negative set
        bracketBody? mode fuel combine (union.union set) rest
    | cs => do
      let (set, rest) ← bracketItem? mode cs
      bracketBody? mode fuel combine (union.union set) rest

/-- A set behind the bracket that opens it. -/
def bracket? (mode : Mode) (cs : List Char) : Option (CharSet × List Char) := do
  let (negative, first?, rest) := bracketOpening mode cs
  let (set, rest) ← bracketBody? mode (rest.length + 1) id (← openingSet? mode first?) rest
  let set ← mode.complement? negative set
  return (set, rest)

end StreamCharts.Pattern
