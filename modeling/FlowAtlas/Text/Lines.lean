/-!
# Lines of a text

A line ends at a line feed. Splitting keeps the piece after the last line feed,
so a text that ends with one has an empty last piece.
-/

namespace FlowAtlas.Text

/-- The pieces of a list between the places where `sep` stands; never empty. -/
def splitAtChar (sep : Char) : List Char → List (List Char)
  | [] => [[]]
  | c :: cs =>
    if c = sep then [] :: splitAtChar sep cs
    else match splitAtChar sep cs with
      | [] => [[c]]
      | piece :: pieces => (c :: piece) :: pieces

/-- The pieces of a text between its line feeds. -/
def lines (s : String) : List String :=
  (splitAtChar '\n' s.toList).map String.ofList

theorem splitAtChar_ne_nil (sep : Char) (cs : List Char) :
    splitAtChar sep cs ≠ [] := by
  cases cs with
  | nil => simp [splitAtChar]
  | cons c cs =>
    unfold splitAtChar
    split
    · simp
    · split <;> simp

end FlowAtlas.Text
