/-!
# Patterns

A pattern describes pieces of text: sets of characters, put one behind the other, as alternatives and in repetition, and conditions
on the place between two characters. Main definitions: `Pattern`, `Pattern.ends`, the positions at which pieces may end that begin
at given positions, and `Pattern.occursIn`.
-/

namespace StreamCharts

/-- A set of characters. -/
abbrev CharSet := Char → Bool

/-- A description of pieces of text. -/
inductive Pattern where
  /-- The empty piece. -/
  | nothing
  /-- One character of a set. -/
  | one (set : CharSet)
  /-- The empty piece at a place whose neighbours, the character before it and the one behind it, meet a condition. -/
  | place (fits : Option Char → Option Char → Bool)
  /-- A piece of the first pattern and behind it one of the second. -/
  | sequence (p q : Pattern)
  /-- A piece of either pattern. -/
  | either (p q : Pattern)
  /-- So many pieces, one behind the other: not less than the first number, and not more than the second if there is one. -/
  | repeated (p : Pattern) (least : Nat) (most? : Option Nat)

namespace Pattern

/-- The character before a position. -/
def before? (text : Array Char) (position : Nat) : Option Char :=
  if position = 0 then none else text[position - 1]?

/-- All positions of two lists, each once if they are so in both lists. -/
def union (s t : List Nat) : List Nat :=
  s ++ t.filter (!s.contains ·)

/-- The positions that so many steps lead to. -/
def iterate (step : List Nat → List Nat) : (count : Nat) → List Nat → List Nat
  | 0, positions => positions
  | count + 1, positions => iterate step count (step positions)

/-- The positions that up to so many steps lead to. -/
def reach (step : List Nat → List Nat) : (count : Nat) → List Nat → List Nat
  | 0, positions => positions
  | count + 1, positions =>
    let reached := (step positions).filter (!positions.contains ·)
    if reached.isEmpty then positions else reach step count (positions ++ reached)

/-- The number of steps behind which further ones change nothing: every step goes forward or stays, so that each position is
settled one step after those before it. -/
def enough (text : Array Char) (count : Nat) : Nat :=
  if count ≤ text.size then count else text.size + 1

/-- The positions at which pieces of a pattern may end that begin at one of some positions. -/
def ends (text : Array Char) : Pattern → List Nat → List Nat
  | .nothing, positions => positions
  | .one set, positions =>
    positions.filterMap fun i =>
      match text[i]? with
      | some c => if set c then some (i + 1) else none
      | none => none
  | .place fits, positions => positions.filter fun i => fits (before? text i) text[i]?
  | .sequence p q, positions => q.ends text (p.ends text positions)
  | .either p q, positions => union (p.ends text positions) (q.ends text positions)
  | .repeated p least most?, positions =>
    let further := match most? with
      | some most => enough text (most - least)
      | none => text.size + 1
    reach (p.ends text) further (iterate (p.ends text) (enough text least) positions)

/-- Whether some piece of a text fits a pattern. -/
def occursIn (p : Pattern) (text : String) : Bool :=
  let chars := text.toList.toArray
  !(p.ends chars (List.range (chars.size + 1))).isEmpty

end Pattern

end StreamCharts
