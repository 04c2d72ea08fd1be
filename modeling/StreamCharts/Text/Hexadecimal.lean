/-!
# Hexadecimal digits

Code points are written in base sixteen. Main definitions: `hexadecimal`, which writes a number, `hexDigit?` and `codePoint?`, which
reads the character whose code point is written.
-/

namespace StreamCharts.Text

/-- The digits of a number in base sixteen, in lower case and without padding. -/
def hexadecimal (n : Nat) : List Char :=
  Nat.toDigits 16 n

/-- The value of a hexadecimal digit in either case. -/
def hexDigit? (c : Char) : Option Nat :=
  if '0' ≤ c && c ≤ '9' then some (c.toNat - '0'.toNat)
  else if 'a' ≤ c && c ≤ 'f' then some (c.toNat - 'a'.toNat + 10)
  else if 'A' ≤ c && c ≤ 'F' then some (c.toNat - 'A'.toNat + 10)
  else none

/-- The character whose code point hexadecimal digits give; a surrogate is none. -/
def codePoint? (digits : List Char) : Option Char := do
  let values ← digits.mapM hexDigit?
  let n := values.foldl (fun n value => n * 16 + value) 0
  if n.isValidChar then some (Char.ofNat n) else none

end StreamCharts.Text
