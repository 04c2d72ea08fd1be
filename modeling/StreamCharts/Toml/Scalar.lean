import StreamCharts.Binary.Decimal
import StreamCharts.Toml.Value

/-!
# Numbers, dates and words of TOML

A value without quotes and brackets is one unbroken token, except that a blank may stand between a date and a time. Main
definitions: `Value.ofToken?`, which knows the tokens, and `scalar?`, which reads one.
-/

namespace StreamCharts.Toml

/-- A character of a token. -/
def isTokenChar (c : Char) : Bool :=
  c.isAlphanum || c = '+' || c = '-' || c = '_' || c = '.' || c = ':'

/-- Digits without the underscores between them; an underscore must stand between two digits. -/
def ungrouped? (isDigit : Char → Bool) : List Char → Option (List Char)
  | [] => none
  | [c] => if isDigit c then some [c] else none
  | c :: '_' :: rest => if isDigit c then (ungrouped? isDigit rest).map (c :: ·) else none
  | c :: rest => if isDigit c then (ungrouped? isDigit rest).map (c :: ·) else none

/-- The digits of a whole number, where a leading zero stands alone. -/
def wholeDigits? (cs : List Char) : Option (List Char) := do
  let digits ← ungrouped? Numeral.isDigit cs
  if digits.head? = some '0' && digits.length ≠ 1 then none else some digits

/-- The integer of 64 bits with a given value, if it has one. -/
def integerValue? (n : Int) : Option Value :=
  if Int64.minValue.toInt ≤ n ∧ n ≤ Int64.maxValue.toInt then some (.integer (Int64.ofInt n)) else none

/-- The value of a digit in bases up to sixteen. -/
def digitValue (c : Char) : Nat :=
  if Numeral.isDigit c then Numeral.digitValue c
  else if 'a' ≤ c && c ≤ 'f' then c.toNat - 'a'.toNat + 10
  else if 'A' ≤ c && c ≤ 'F' then c.toNat - 'A'.toNat + 10
  else 16

/-- An integer in a base other than ten, behind the letter of its base. -/
def basedInteger? (base : Nat) (cs : List Char) : Option Value := do
  let digits ← ungrouped? (fun c => digitValue c < base) cs
  integerValue? (Numeral.accumulate base digitValue 0 digits : Nat)

/-- An integer. -/
def integer? (cs : List Char) : Option Value :=
  match cs with
  | '0' :: 'x' :: rest => basedInteger? 16 rest
  | '0' :: 'o' :: rest => basedInteger? 8 rest
  | '0' :: 'b' :: rest => basedInteger? 2 rest
  | _ => do
    let (negative, rest) := Numeral.splitSign cs
    let digits ← wholeDigits? rest
    let n : Int := (Numeral.ofDigits digits : Nat)
    integerValue? (if negative then -n else n)

/-- The exponent of a float, from its letter on; none counts as zero. -/
def exponent? : List Char → Option Int
  | [] => some 0
  | _ :: cs => do
    let (negative, rest) := Numeral.splitSign cs
    return Decimal.exponentOfDigits negative (← ungrouped? Numeral.isDigit rest)

/-- A float with a point, an exponent or both. It must not exceed every number. -/
def decimalFloat? (cs : List Char) : Option Value := do
  let (negative, rest) := Numeral.splitSign cs
  let isExponent (c : Char) := c = 'e' || c = 'E'
  let mantissa := rest.takeWhile (!isExponent ·)
  let exponentPart := rest.dropWhile (!isExponent ·)
  let exponent ← exponent? exponentPart
  let whole ← wholeDigits? (mantissa.takeWhile (· != '.'))
  let fraction ← match mantissa.dropWhile (· != '.') with
    | _ :: after => ungrouped? Numeral.isDigit after
    | [] => if exponentPart.isEmpty then none else some []
  let x := (Decimal.ofParts negative whole fraction exponent).toBinary .double
  if x = .infinite false then none else some (.float x)

/-- Infinity or NaN. -/
def wordFloat? (cs : List Char) : Option Value :=
  let (negative, rest) := Numeral.splitSign cs
  if rest = ['i', 'n', 'f'] then some (.float (.infinite negative))
  else if rest = ['n', 'a', 'n'] then some (.float (.nan negative))
  else none

/-- A truth value. -/
def boolean? (cs : List Char) : Option Value :=
  if cs = ['t', 'r', 'u', 'e'] then some (.boolean true)
  else if cs = ['f', 'a', 'l', 's', 'e'] then some (.boolean false)
  else none

/-- The number that exactly two digits give. -/
def twoDigits? : List Char → Option (Nat × List Char)
  | a :: b :: rest => if Numeral.isDigit a && Numeral.isDigit b then some (Numeral.ofDigits [a, b], rest) else none
  | _ => none

/-- The number of days in a month. -/
def daysInMonth (year month : Nat) : Nat :=
  if month = 2 then (if (year % 4 = 0 && year % 100 ≠ 0) || year % 400 = 0 then 29 else 28)
  else if month = 4 || month = 6 || month = 9 || month = 11 then 30
  else 31

/-- What is left behind a character. -/
def expect? (c : Char) : List Char → Option (List Char)
  | d :: rest => if d = c then some rest else none
  | [] => none

/-- What is left behind a date that exists. -/
def date? (cs : List Char) : Option (List Char) := do
  let (century, rest) ← twoDigits? cs
  let (yearInCentury, rest) ← twoDigits? rest
  let (month, rest) ← twoDigits? (← expect? '-' rest)
  let (day, rest) ← twoDigits? (← expect? '-' rest)
  if 1 ≤ month && month ≤ 12 && 1 ≤ day && day ≤ daysInMonth (century * 100 + yearInCentury) month then some rest else none

/-- What is left behind a time of the day; a leap second is one. -/
def time? (cs : List Char) : Option (List Char) := do
  let (hour, rest) ← twoDigits? cs
  let (minute, rest) ← twoDigits? (← expect? ':' rest)
  let (second, rest) ← twoDigits? (← expect? ':' rest)
  if 23 < hour || 59 < minute || 60 < second then none
  else
    match rest with
    | '.' :: after =>
      if (after.head?.map Numeral.isDigit).getD false then some (after.dropWhile Numeral.isDigit) else none
    | _ => some rest

/-- Whether the text behind a time is an offset from universal time, or nothing. -/
def isOffset (cs : List Char) : Bool :=
  match cs with
  | [] => true
  | ['Z'] => true
  | ['z'] => true
  | sign :: rest =>
    (sign = '+' || sign = '-') && ((do
      let (hour, rest) ← twoDigits? rest
      let (minute, rest) ← twoDigits? (← expect? ':' rest)
      return hour ≤ 23 && minute ≤ 59 && rest.isEmpty : Option Bool).getD false)

/-- Whether a text is a time with an offset or without. -/
def isOffsetTime (cs : List Char) : Bool :=
  match time? cs with
  | some rest => isOffset rest
  | none => false

/-- A date, a time, or both joined by a letter. -/
def moment? (cs : List Char) : Option Value :=
  match date? cs with
  | some [] => some .moment
  | some (letter :: rest) => if (letter = 'T' || letter = 't') && isOffsetTime rest then some .moment else none
  | none =>
    match time? cs with
    | some [] => some .moment
    | _ => none

/-- The value of a token. -/
def Value.ofToken? (token : List Char) : Option Value :=
  boolean? token <|> wordFloat? token <|> integer? token <|> decimalFloat? token <|> moment? token

/-- A value that is one token, or a date and a time with a blank between them. -/
def scalar? (cs : List Char) : Option (Value × List Char) := do
  let token := cs.takeWhile isTokenChar
  let rest := cs.dropWhile isTokenChar
  let value ← Value.ofToken? token
  match rest with
  | ' ' :: after =>
    let timeToken := after.takeWhile isTokenChar
    if date? token = some [] && isOffsetTime timeToken then some (value, after.dropWhile isTokenChar) else some (value, rest)
  | _ => some (value, rest)

end StreamCharts.Toml
