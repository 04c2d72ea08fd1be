import StreamCharts.Pattern.Basic

/-!
# Sets of characters

How sets are put together, and the sets of ASCII characters that have names. Main definitions: the operations on `CharSet`, and
`CharSet.ofAsciiName?`.
-/

namespace StreamCharts.CharSet

/-- No character. -/
def empty : CharSet := fun _ => false

/-- A single character. -/
def single (c : Char) : CharSet := fun d => d = c

/-- The characters from one to another. -/
def range (first last : Char) : CharSet := fun c => first ≤ c && c ≤ last

/-- The characters of a text. -/
def ofString (text : String) : CharSet := fun c => text.toList.contains c

/-- The characters of either set. -/
def union (s t : CharSet) : CharSet := fun c => s c || t c

/-- The characters of both sets. -/
def intersection (s t : CharSet) : CharSet := fun c => s c && t c

/-- The characters of the first set that are not in the second. -/
def difference (s t : CharSet) : CharSet := fun c => s c && !t c

/-- The characters of exactly one of the sets. -/
def symmetricDifference (s t : CharSet) : CharSet := fun c => s c != t c

/-- The characters that are not in a set. -/
def complement (s : CharSet) : CharSet := fun c => !s c

/-- The characters of a set, and of its ASCII letters both cases. -/
def withoutCase (s : CharSet) : CharSet := fun c => s c || s c.toLower || s c.toUpper

/-! ## ASCII characters by name -/

/-- The ASCII digits. -/
def asciiDigit : CharSet := range '0' '9'

/-- The ASCII letters and digits. -/
def asciiAlphanumeric : CharSet := Char.isAlphanum

/-- The ASCII letters, digits and the underscore. -/
def asciiWord : CharSet := union asciiAlphanumeric (single '_')

/-- The white space of ASCII. -/
def asciiBlank : CharSet := ofString " \t\n\x0b\x0c\r"

/-- The ASCII characters that are printed, but for the space. -/
def asciiGraphic : CharSet := range '!' '~'

/-- The sets of ASCII characters that have names. -/
def ofAsciiName? (name : String) : Option CharSet :=
  [("alnum", asciiAlphanumeric), ("alpha", Char.isAlpha), ("ascii", range '\x00' '\x7f'), ("blank", ofString "\t "),
    ("cntrl", union (range '\x00' '\x1f') (single '\x7f')), ("digit", asciiDigit), ("graph", asciiGraphic),
    ("lower", range 'a' 'z'), ("print", range ' ' '~'), ("punct", difference asciiGraphic asciiAlphanumeric),
    ("space", asciiBlank), ("upper", range 'A' 'Z'), ("word", asciiWord),
    ("xdigit", union asciiDigit (union (range 'a' 'f') (range 'A' 'F')))].lookup name

end StreamCharts.CharSet
