/-!
# The wording of a choice

Messages that list the names that would have been accepted.
-/

namespace FlowAtlas.Text

/-- A name between backquotes. -/
def backquoted (name : String) : String := "`" ++ name ++ "`"

/-- The wording of a choice between names. -/
def oneOf (names : List String) : String :=
  match names with
  | [a] => backquoted a
  | [a, b] => backquoted a ++ " or " ++ backquoted b
  | names => "one of " ++ ", ".intercalate (names.map backquoted)

end FlowAtlas.Text
