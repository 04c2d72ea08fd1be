import StreamCharts.Journal.Record
import StreamCharts.Pattern.Syntax

/-!
# Which records are shown

The operator sets levels by directives: a level for all targets, or for the targets that begin with a name. The most specific
directive decides. Main definitions: `Filter.ofText`, which reads a list of directives such as `info,store=debug`, and
`Filter.shows`.
-/

namespace StreamCharts

/-- The level up to which records are shown, for targets that begin with a name or for all; without a level none are. -/
structure Directive where
  name? : Option String
  level? : Option Level
deriving DecidableEq

namespace Directive

/-- How specific a directive is. -/
def weight (d : Directive) : Nat :=
  match d.name? with
  | some name => name.utf8ByteSize
  | none => 0

/-- Whether a directive speaks of a target. -/
def covers (d : Directive) (target : String) : Bool :=
  match d.name? with
  | some name => name.toList.isPrefixOf target.toList
  | none => true

/-- Whether a directive lets a level through. -/
def admits (d : Directive) (level : Level) : Bool :=
  match d.level? with
  | some limit => level.rank ≤ limit.rank
  | none => false

/-- The level that a word names in any case, where `off` names none. -/
def levelOfWord? (word : String) : Option (Option Level) :=
  let upper := String.ofList (word.toList.map Char.toUpper)
  if upper = "OFF" then some none
  else (Level.all.find? fun level => level.label == upper).map some

/-- A text without the blanks around it. -/
def trimmed (cs : List Char) : List Char :=
  ((cs.dropWhile Text.isBlank).reverse.dropWhile Text.isBlank).reverse

/-- The directive that a text means: a level, a name, or a name and a level. A name alone lets everything through; what is neither
means nothing. -/
def ofText? (cs : List Char) : Option Directive :=
  match cs.splitOn '=' with
  | [word] =>
    match levelOfWord? (String.ofList word) with
    | some level? => some ⟨none, level?⟩
    | none => some ⟨some (String.ofList word), some .trace⟩
  | [name, word] =>
    let word := trimmed word
    if word.isEmpty then some ⟨some (String.ofList name), some .trace⟩
    else (levelOfWord? (String.ofList word)).map fun level? => ⟨some (String.ofList name), level?⟩
  | _ => none

end Directive

/-- Directives, and a pattern that must occur in the shown messages if there is one. -/
structure Filter where
  directives : List Directive
  pattern? : Option Pattern

namespace Filter

/-- Shows what the program reports to every operator: all targets up to `info`. -/
def standard : Filter :=
  ⟨[⟨none, some .info⟩, ⟨some Topic.program.target, some .info⟩], none⟩

/-- Adds a directive; one with the same name gives way to it. -/
def insert (directives : List Directive) (d : Directive) : List Directive :=
  if directives.any fun other => other.name? == d.name? then
    directives.map fun other => if other.name? = d.name? then d else other
  else directives ++ [d]

/-- The standard directives with those of a text: between commas, and behind a slash the pattern for the messages. A pattern that is
not well formed is left out, and with more than one slash the text means nothing. -/
def ofText (text : String) : Filter :=
  let additions (cs : List Char) :=
    (((cs.splitOn ',').map Directive.trimmed).filter (!·.isEmpty)).filterMap Directive.ofText?
  match text.toList.splitOn '/' with
  | [directives] => { standard with directives := (additions directives).foldl insert standard.directives }
  | [directives, pattern] =>
    ⟨(additions directives).foldl insert standard.directives, Pattern.ofText? (String.ofList pattern)⟩
  | _ => standard

/-- The filter of a text that is set, or the standard one. -/
def ofSetting : Option String → Filter
  | some text => ofText text
  | none => standard

/-- The directive that decides about a target: of those that speak of it the most specific, and of these the last. -/
def decisive? (directives : List Directive) (target : String) : Option Directive :=
  (directives.filter fun d => d.covers target).foldl (fun best? d =>
    match best? with
    | some best => if best.weight ≤ d.weight then some d else some best
    | none => some d) none

/-- Whether a record is shown. -/
def shows (filter : Filter) (record : Record) : Bool :=
  match decisive? filter.directives record.topic.target with
  | some d => d.admits record.level && (filter.pattern?.map (·.occursIn record.message)).getD true
  | none => false

end Filter

end StreamCharts
