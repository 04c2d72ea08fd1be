import StreamCharts.Binary.Format

/-!
# Values of a TOML document

A document is a table: keys with values, in the order in which they were put there. Main definitions: `Value`, and `Entries` with
the rules by which keys and headers may extend what is there already: `Entries.assign` for a key with a value,
`Entries.openTable` and `Entries.openTables` for the two kinds of headers.
-/

namespace StreamCharts.Toml

/-- How a table came about, which decides what may be added to it. -/
inductive TableStyle where
  /-- The table has a header of its own, or is the document. -/
  | header
  /-- A header of a table below it made the table. -/
  | passing
  /-- A dotted key made the table. -/
  | dotted
  /-- The table is written in braces. -/
  | inline
deriving DecidableEq

/-- A value of a document. Dates and times are told apart from other values but not from each other. -/
inductive Value where
  | string (text : String)
  | integer (n : Int64)
  | float (x : Binary64)
  | boolean (b : Bool)
  | moment
  | array (items : List Value)
  | table (style : TableStyle) (entries : List (String × Value))
  /-- The tables that a repeated header makes. -/
  | tables (items : List (List (String × Value)))

/-- The keys and values of a table, in the order in which they were put there. -/
abbrev Entries := List (String × Value)

namespace Entries

/-- The value of a key. -/
def find? (entries : Entries) (key : String) : Option Value :=
  entries.lookup key

/-- Puts another value under a key, at the place of the old one. -/
def replace (entries : Entries) (key : String) (value : Value) : Entries :=
  entries.map fun entry => if entry.1 = key then (key, value) else entry

/-- Removes a key. -/
def remove (entries : Entries) (key : String) : Entries :=
  entries.filter fun entry => entry.1 != key

/-- Changes the table that a path of keys leads to, making the tables on the way. A dotted key leads only through tables that have
no header of their own; a header leads through any table, and through the last of repeated ones; nothing leads into a table in
braces. -/
def alter {α : Type} (dotted : Bool) (change : TableStyle → Entries → Option (Entries × α)) :
    List String → TableStyle → Entries → Option (Entries × α)
  | [], style, entries => change style entries
  | key :: path, _, entries =>
    match entries.find? key with
    | none => do
      let style := if dotted then TableStyle.dotted else TableStyle.passing
      let (below, result) ← alter dotted change path style []
      return (entries ++ [(key, .table style below)], result)
    | some (.table style below) =>
      if style = .inline || (dotted && style = .header) then none
      else do
        let (below, result) ← alter dotted change path style below
        return (entries.replace key (.table style below), result)
    | some (.tables items) => do
      let last ← items.getLast?
      let (below, result) ← alter dotted change path .header last
      return (entries.replace key (.tables (items.dropLast ++ [below])), result)
    | some _ => none

/-- Puts a value under a key that a dotted path leads to. The key must be new, and a path may end only in a table that dotted keys
made. -/
def assign (style : TableStyle) (entries : Entries) (path : List String) (key : String) (value : Value) : Option Entries :=
  let change (style : TableStyle) (entries : Entries) : Option (Entries × Unit) :=
    if decide (style = .dotted) = path.isEmpty then none
    else if (entries.find? key).isSome then none
    else some (entries ++ [(key, value)], ())
  (alter true change path style entries).map Prod.fst

/-- Begins the table of a header: takes out what headers below it have put there already. A table can have one header only, and
none if dotted keys or braces made it. -/
def openTable (entries : Entries) (path : List String) (key : String) : Option (Entries × Entries) :=
  alter false (fun _ entries =>
    match entries.find? key with
    | none => some (entries, [])
    | some (.table .passing below) => some (entries.remove key, below)
    | some _ => none) path .header entries

/-- Puts the table of a header back. -/
def closeTable (entries : Entries) (path : List String) (key : String) (table : Entries) : Option Entries :=
  (alter false (fun _ entries => some (entries ++ [(key, .table .header table)], ())) path .header entries).map Prod.fst

/-- Begins a table of a repeated header; only other tables of that header may be there. -/
def openTables (entries : Entries) (path : List String) (key : String) : Option Entries :=
  (alter false (fun _ entries =>
    match entries.find? key with
    | none => some (entries ++ [(key, .tables [])], ())
    | some (.tables _) => some (entries, ())
    | some _ => none) path .header entries).map Prod.fst

/-- Puts a table of a repeated header behind the others. -/
def closeTables (entries : Entries) (path : List String) (key : String) (table : Entries) : Option Entries :=
  (alter false (fun _ entries =>
    match entries.find? key with
    | some (.tables items) => some (entries.replace key (.tables (items ++ [table])), ())
    | _ => none) path .header entries).map Prod.fst

end Entries

end StreamCharts.Toml
