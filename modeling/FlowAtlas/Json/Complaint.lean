/-!
# What can be wrong with a JSON text

The causes that end the reading of a text, with their wording, and the spots at
which they arise. A spot is given by what is left of the text, so it needs no
counting while reading.
-/

namespace FlowAtlas.Json

/-- A rule of the notation, or a limit, that a text breaks. -/
inductive Complaint where
  | endInValue
  | endInString
  | endInList
  | endInObject
  | expectedColon
  | expectedCommaOrListEnd
  | expectedCommaOrObjectEnd
  | expectedIdent
  | expectedValue
  | invalidEscape
  | invalidNumber
  | outOfRange
  | controlCharacter
  | keyMustBeString
  | loneSurrogate
  | endOfSurrogatePair
  | trailingComma
  | trailingCharacters
  | tooDeep
  deriving DecidableEq, Repr

/-- The wording of a complaint. -/
def Complaint.text : Complaint → String
  | .endInValue => "EOF while parsing a value"
  | .endInString => "EOF while parsing a string"
  | .endInList => "EOF while parsing a list"
  | .endInObject => "EOF while parsing an object"
  | .expectedColon => "expected `:`"
  | .expectedCommaOrListEnd => "expected `,` or `]`"
  | .expectedCommaOrObjectEnd => "expected `,` or `\x7d`"
  | .expectedIdent => "expected ident"
  | .expectedValue => "expected value"
  | .invalidEscape => "invalid escape"
  | .invalidNumber => "invalid number"
  | .outOfRange => "number out of range"
  | .controlCharacter =>
    "control character (\\u0000-\\u001F) found while parsing a string"
  | .keyMustBeString => "key must be a string"
  | .loneSurrogate => "lone leading surrogate in hex escape"
  | .endOfSurrogatePair => "unexpected end of hex escape"
  | .trailingComma => "trailing comma"
  | .trailingCharacters => "trailing characters"
  | .tooDeep => "recursion limit exceeded"

/-- A complaint and where it arises: `ahead` bytes into what was left of the
text. -/
structure Spot where
  complaint : Complaint
  rest : List Char
  ahead : Nat
  deriving DecidableEq, Repr

/-- The spot of a complaint about the next character, or about the end of the
text. -/
def Spot.next (complaint : Complaint) (rest : List Char) : Spot :=
  ⟨complaint, rest, if rest.isEmpty then 0 else 1⟩

/-- Why reading could not go on. A value that is only passed over is held to
fewer rules than one that is read for its content, so each of the two uses has a
spot of its own. -/
structure Stop where
  reading : Spot
  skipping : Spot
  deriving DecidableEq, Repr

/-- A stop at the same spot for both uses. -/
def Stop.both (spot : Spot) : Stop := ⟨spot, spot⟩

/-- A stop at the next character, with a complaint for each use. -/
def Stop.next (reading skipping : Complaint) (rest : List Char) : Stop :=
  ⟨.next reading rest, .next skipping rest⟩

end FlowAtlas.Json
