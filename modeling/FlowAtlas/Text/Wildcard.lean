/-!
# Wildcards

A pattern for a text: `?` stands for one character and `*` for any characters. A
backslash takes the next character as it is.
-/

namespace FlowAtlas.Text

/-- A piece of a pattern. -/
inductive Glyph where
  | exactly (c : Char)
  /-- Any one character. -/
  | one
  /-- Any characters, or none. -/
  | many
  deriving DecidableEq, Repr

/-- Whether a list has an end with a property. -/
def anyEnd {α : Type} (p : List α → Bool) : List α → Bool
  | [] => p []
  | a :: as => p (a :: as) || anyEnd p as

/-- Whether a pattern matches a whole text. -/
def matchesAll : List Glyph → List Char → Bool
  | [], cs => cs.isEmpty
  | .exactly _ :: _, [] => false
  | .exactly c :: gs, d :: cs => c = d && matchesAll gs cs
  | .one :: _, [] => false
  | .one :: gs, _ :: cs => matchesAll gs cs
  | .many :: gs, cs => anyEnd (matchesAll gs) cs

/-- The pieces of a pattern. -/
def glyphs : List Char → List Glyph
  | [] => []
  | ['\\'] => []
  | '\\' :: c :: cs => .exactly c :: glyphs cs
  | '?' :: cs => .one :: glyphs cs
  | '*' :: cs => .many :: glyphs cs
  | c :: cs => .exactly c :: glyphs cs

end FlowAtlas.Text
