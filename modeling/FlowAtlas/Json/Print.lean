import FlowAtlas.Json.Basic

/-!
# Writing JSON

Two written forms of a value: compact, without any space, and indented, with one
item or member to a line. Both write strings and numbers alike. Characters
beyond ASCII stand for themselves.
-/

namespace FlowAtlas.Json

/-- A digit of a control character's code. -/
def lowHexDigit (n : Nat) : Char := Nat.digitChar (n % 16)

/-- How a character stands in a string. -/
def stringChar (c : Char) : List Char :=
  match c with
  | '"' => ['\\', '"']
  | '\\' => ['\\', '\\']
  | '\x08' => ['\\', 'b']
  | '\t' => ['\\', 't']
  | '\n' => ['\\', 'n']
  | '\x0c' => ['\\', 'f']
  | '\r' => ['\\', 'r']
  | c =>
    if c.toNat < 0x20 then
      ['\\', 'u', '0', '0', lowHexDigit (c.toNat / 16), lowHexDigit c.toNat]
    else [c]

/-- A string between quotes. -/
def stringChars (s : String) : List Char :=
  '"' :: s.toList.flatMap stringChar ++ ['"']

/-- A number. -/
def Number.chars : Number → List Char
  | .whole n =>
    if n < 0 then '-' :: Nat.toDigits 10 n.natAbs else Nat.toDigits 10 n.natAbs
  | .real d => (d.render .compact).toList

mutual

/-- The compact form. -/
def compactChars : Json → List Char
  | .null => ['n', 'u', 'l', 'l']
  | .bool true => ['t', 'r', 'u', 'e']
  | .bool false => ['f', 'a', 'l', 's', 'e']
  | .number n => n.chars
  | .string s => stringChars s
  | .array items => '[' :: compactItems items
  | .object members => '\x7b' :: compactMembers members

/-- Items, and the bracket after them. -/
def compactItems : List Json → List Char
  | [] => [']']
  | j :: js => compactChars j ++ compactMoreItems js

/-- Items after the first one, and the bracket after them. -/
def compactMoreItems : List Json → List Char
  | [] => [']']
  | j :: js => ',' :: compactChars j ++ compactMoreItems js

/-- Members, and the brace after them. -/
def compactMembers : List (String × Json) → List Char
  | [] => ['\x7d']
  | (k, j) :: ms =>
    stringChars k ++ ':' :: compactChars j ++ compactMoreMembers ms

/-- Members after the first one, and the brace after them. -/
def compactMoreMembers : List (String × Json) → List Char
  | [] => ['\x7d']
  | (k, j) :: ms =>
    ',' :: stringChars k ++ ':' :: compactChars j ++ compactMoreMembers ms

end

/-- A line break and the indent of a level. -/
def newLine (level : Nat) : List Char :=
  '\n' :: List.replicate (2 * level) ' '

mutual

/-- The indented form inside of so many levels. -/
def indentedChars (level : Nat) : Json → List Char
  | .null => ['n', 'u', 'l', 'l']
  | .bool true => ['t', 'r', 'u', 'e']
  | .bool false => ['f', 'a', 'l', 's', 'e']
  | .number n => n.chars
  | .string s => stringChars s
  | .array [] => ['[', ']']
  | .array (j :: js) =>
    '[' :: newLine (level + 1) ++ indentedChars (level + 1) j
      ++ indentedItems level js
  | .object [] => ['\x7b', '\x7d']
  | .object ((k, j) :: ms) =>
    '\x7b' :: newLine (level + 1) ++ stringChars k ++ ':' :: ' '
      :: indentedChars (level + 1) j
      ++ indentedMembers level ms

/-- Items after the first one, and the bracket after them. -/
def indentedItems (level : Nat) : List Json → List Char
  | [] => newLine level ++ [']']
  | j :: js =>
    ',' :: newLine (level + 1) ++ indentedChars (level + 1) j
      ++ indentedItems level js

/-- Members after the first one, and the brace after them. -/
def indentedMembers (level : Nat) : List (String × Json) → List Char
  | [] => newLine level ++ ['\x7d']
  | (k, j) :: ms =>
    ',' :: newLine (level + 1) ++ stringChars k ++ ':' :: ' '
      :: indentedChars (level + 1) j
      ++ indentedMembers level ms

end

/-- The text of a value without any space. -/
def compact (j : Json) : String := String.ofList (compactChars j)

/-- The text of a value with an item or a member to a line. -/
def indented (j : Json) : String := String.ofList (indentedChars 0 j)

end FlowAtlas.Json
