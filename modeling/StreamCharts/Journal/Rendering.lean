import StreamCharts.Journal.Record
import StreamCharts.Text.Bytes

/-!
# Rendering of records

Where records are read by people no text may take command of the terminal. The further lines of a message are indented, and control
sequences and control characters are left out, white space excepted. Main definitions: `ControlState`, which follows a text
through control sequences, `plainText`, and `Record.rendered`.
-/

namespace StreamCharts

/-- Where a text stands in a control sequence. -/
inductive ControlState where
  /-- In no sequence. -/
  | outside
  /-- Behind the escape character. -/
  | escape
  /-- Behind further characters of a short sequence. -/
  | intermediate
  /-- Among the parameters of a sequence that ends with a letter. -/
  | parameters
  /-- In the head of a string for the device. -/
  | deviceHead
  /-- In a string for the device. -/
  | deviceString
  /-- In a command of the system, which the bell ends. -/
  | command
  /-- In a message, which nothing written here ends but its own terminator. -/
  | message
deriving DecidableEq

namespace ControlState

/-- Whether the bytes of a character hold the single-byte terminator of strings. -/
def holdsTerminator (c : Char) : Bool :=
  0x80 ≤ c.toNat && (Text.utf8 (String.singleton c)).contains 0x9C

/-- The state behind a character. Cancelling ends a sequence, and the escape character begins another, wherever they stand. -/
def next (state : ControlState) (c : Char) : ControlState :=
  let n := c.toNat
  if n = 0x18 || n = 0x1A then .outside
  else if n = 0x1B then .escape
  else
    match state with
    | .outside => .outside
    | .escape =>
      if n < 0x20 || 0x7E < n then .escape
      else if n ≤ 0x2F then .intermediate
      else if c = '[' then .parameters
      else if c = ']' then .command
      else if c = 'P' then .deviceHead
      else if c = 'X' || c = '^' || c = '_' then .message
      else .outside
    | .intermediate => if 0x30 ≤ n && n ≤ 0x7E then .outside else .intermediate
    | .parameters => if 0x40 ≤ n && n ≤ 0x7E then .outside else .parameters
    | .deviceHead => if 0x40 ≤ n && n ≤ 0x7E then .deviceString else .deviceHead
    | .deviceString => if holdsTerminator c then .outside else .deviceString
    | .command => if n = 7 then .outside else .command
    | .message => if holdsTerminator c then .outside else .message

/-- Whether white space breaks a sequence off: the text behind it is shown. -/
def yields : ControlState → Bool
  | .outside => true
  | .escape => true
  | .intermediate => true
  | .parameters => true
  | _ => false

end ControlState

/-- White space other than the plain space that may be shown. -/
def isLayout (c : Char) : Bool :=
  c = '\t' || c = '\n' || c = '\x0c' || c = '\r'

/-- A character that is shown outside of control sequences. -/
def isShown (c : Char) : Bool :=
  isLayout c || (0x20 ≤ c.toNat && c.toNat != 0x7F)

/-- The characters that are shown of the rest of a text, from a state on. While text is shown, a sequence that white space broke off
is kept in mind: the next control character goes on with it, and a character beyond ASCII ends it. -/
def shownChars (showing : Bool) (state : ControlState) : List Char → List Char
  | [] => []
  | c :: cs =>
    let begins := if state = .outside then isShown c else state.yields && isLayout c
    if (if showing then isShown c else begins) then
      c :: shownChars true (if 0x80 ≤ c.toNat then .outside else state) cs
    else shownChars false (state.next c) cs

/-- A text without control sequences and control characters. -/
def plainText (text : String) : String :=
  String.ofList (shownChars true .outside text.toList)

/-- A text with its further lines indented. -/
def indented (text : String) : String :=
  String.ofList (text.toList.flatMap fun c => if c = '\n' then ['\n', ' ', ' ', ' ', ' '] else [c])

/-- The message of a record as it is shown to people. -/
def Record.rendered (record : Record) : String :=
  plainText (indented record.message)

end StreamCharts
