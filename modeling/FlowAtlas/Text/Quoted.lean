import FlowAtlas.Text.Printable

/-!
# Quoted text

The form in which messages show a text whose bounds matter: between double
quotes, on one line, with every character that could be mistaken for another
written as an escape.
-/

namespace FlowAtlas.Text

/-- The least number of lowercase hexadecimal digits of a number. -/
def hexDigits (n : Nat) : List Char :=
  Nat.toDigits 16 n

/-- How one character stands inside a quoted text. -/
def quoteChar (c : Char) : List Char :=
  match c with
  | '\x00' => ['\\', '0']
  | '\t' => ['\\', 't']
  | '\r' => ['\\', 'r']
  | '\n' => ['\\', 'n']
  | '\\' => ['\\', '\\']
  | '"' => ['\\', '"']
  | c =>
    if isPrintable c && !isExtending c then [c]
    else ['\\', 'u', '{'] ++ hexDigits c.toNat ++ ['}']

/-- The quoted form of a text. -/
def quote (s : String) : String :=
  String.ofList ('"' :: s.toList.flatMap quoteChar ++ ['"'])

end FlowAtlas.Text
