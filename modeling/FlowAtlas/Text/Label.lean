/-!
# Label text and artifact identifiers

A flowchart label stands between double quotes on one line, so the four
characters that would end it or break the line are replaced. The replacement is
lossy and works character by character, which makes it distribute over
concatenation and makes a second pass a no-op.
-/

namespace FlowAtlas.Text

/-- The mark a label renderer shows as a line break. -/
def breakMark : String := "<br/>"

/-- What stands in a label for one character. -/
def inLabelChar : Char → List Char
  | '"' => ['\'']
  | '\\' => ['/']
  | '\r' => [' ']
  | '\n' => ['<', 'b', 'r', '/', '>']
  | c => [c]

/-- Free text made fit to stand inside a quoted label. -/
def inLabel (s : String) : String :=
  String.ofList (s.toList.flatMap inLabelChar)

/-- The character that joins the parts of an artifact identifier. -/
def joint : Char := '_'

/-- What stands in an artifact identifier for one character. -/
def identifierChar (c : Char) : Char :=
  if c = ' ' ∨ c = '.' then joint else c

/-- An artifact stem from its parts: joined, with blanks and periods replaced.
Two different lists of parts may have the same stem. -/
def identifier (parts : List String) : String :=
  (String.singleton joint).intercalate parts |>.map identifierChar

end FlowAtlas.Text
