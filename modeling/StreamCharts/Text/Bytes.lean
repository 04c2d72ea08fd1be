/-!
# Text as bytes

Files, names and consoles carry bytes; lines and answers are text. Main definitions: `utf8` and its partial inverse `ofUtf8?`, the
order of names by their bytes, and `legible`, which shows all bytes, also those that are no text.
-/

namespace StreamCharts.Text

/-- The byte that ends a line. -/
def newline : UInt8 := 10

/-- The UTF-8 bytes of a text. -/
def utf8 (text : String) : List UInt8 :=
  text.toByteArray.data.toList

/-- The text that a sequence of bytes encodes, if it is valid UTF-8. -/
def ofUtf8? (bytes : List UInt8) : Option String :=
  String.fromUTF8? ⟨bytes.toArray⟩

/-- The order of names: byte by byte, a name before its extensions. -/
def precedes (a b : String) : Bool :=
  decide (utf8 a ≤ utf8 b)

/-! ## Bytes that are no text -/

/-- The character with which bytes begin, if they do. -/
def firstChar? (bytes : List UInt8) : Option Char :=
  ByteArray.utf8DecodeChar? ⟨bytes.toArray⟩ 0

/-- What the first byte of a longer character asks of the bytes behind it: from where to where the second one lies, and how many
more come behind that. -/
def asked? (first : UInt8) : Option (UInt8 × UInt8 × Nat) :=
  if 0xC2 ≤ first && first ≤ 0xDF then some (0x80, 0xBF, 0)
  else if first = 0xE0 then some (0xA0, 0xBF, 1)
  else if first = 0xED then some (0x80, 0x9F, 1)
  else if 0xE1 ≤ first && first ≤ 0xEF then some (0x80, 0xBF, 1)
  else if first = 0xF0 then some (0x90, 0xBF, 2)
  else if first = 0xF4 then some (0x80, 0x8F, 2)
  else if 0xF1 ≤ first && first ≤ 0xF3 then some (0x80, 0xBF, 2)
  else none

/-- A byte that goes on with a character. -/
def isTail (byte : UInt8) : Bool :=
  0x80 ≤ byte && byte ≤ 0xBF

/-- The number of bytes behind the first that make the beginning of a character with it, where they make no whole one. -/
def spoiled (first : UInt8) (rest : List UInt8) : Nat :=
  match asked? first, rest with
  | some (low, high, more), second :: rest =>
    if low ≤ second && second ≤ high then 1 + ((rest.take more).takeWhile isTail).length else 0
  | _, _ => 0

/-- What shows in the place of bytes that are no text. -/
def replacement : Char := '\uFFFD'

/-- The characters that bytes show behind so many that have been dealt with: each character that they hold, and a replacement for
each byte with which none begins, together with those that it spoils. -/
def legibleChars (skip : Nat) : List UInt8 → List Char
  | [] => []
  | byte :: bytes =>
    if 0 < skip then legibleChars (skip - 1) bytes
    else
      match firstChar? (byte :: bytes) with
      | some c => c :: legibleChars (c.utf8Size - 1) bytes
      | none => replacement :: legibleChars (spoiled byte bytes) bytes

/-- The text that bytes show. -/
def legible (bytes : List UInt8) : String :=
  match ofUtf8? bytes with
  | some text => text
  | none => String.ofList (legibleChars 0 bytes)

end StreamCharts.Text
