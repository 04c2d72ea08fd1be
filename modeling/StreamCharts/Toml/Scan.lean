/-!
# Blanks, comments and line ends of TOML

The text between keys and values. Each function takes what is left of the text and returns what is left behind the part it reads.
Main definitions: `skipSpaces`, `lineEnd?`, and `skipLayout` for the inside of an array.
-/

namespace StreamCharts.Toml

/-- A blank within a line. -/
def isSpace (c : Char) : Bool :=
  c = ' ' || c = '\t'

/-- A character that can stand in a comment: any but the controls, the tabulator excepted. -/
def isCommentChar (c : Char) : Bool :=
  c = '\t' || (' ' ≤ c && c != '\x7f')

/-- What is left behind blanks. -/
def skipSpaces (cs : List Char) : List Char :=
  cs.dropWhile isSpace

/-- What is left behind a line end. -/
def newline? : List Char → Option (List Char)
  | '\n' :: rest => some rest
  | '\r' :: '\n' :: rest => some rest
  | _ => none

/-- What is left behind a comment, if one stands here. -/
def skipComment : List Char → List Char
  | '#' :: rest => rest.dropWhile isCommentChar
  | cs => cs

/-- What is left behind blanks, a comment and the end of the line or of the text. -/
def lineEnd? (cs : List Char) : Option (List Char) :=
  match skipComment (skipSpaces cs) with
  | [] => some []
  | rest => newline? rest

/-- What is left behind blanks, line ends and comments. -/
def skipLayout (inComment : Bool) : List Char → List Char
  | '\n' :: rest => skipLayout false rest
  | '\r' :: '\n' :: rest => skipLayout false rest
  | c :: rest =>
    if inComment then (if isCommentChar c then skipLayout true rest else c :: rest)
    else if isSpace c then skipLayout false rest
    else if c = '#' then skipLayout true rest
    else c :: rest
  | [] => []

end StreamCharts.Toml
