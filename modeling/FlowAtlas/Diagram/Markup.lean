import FlowAtlas.Text.Label

/-!
# Flowchart markup

A flowchart is written one statement to a line. Comments and the header start at
the margin; nodes and edges are indented by so many levels. Labels are escaped
when they are written, so escaping one beforehand changes nothing.
-/

namespace FlowAtlas.Markup

open Text

/-- The direction in which a flowchart is laid out. -/
inductive Direction where
  | topDown
  | leftRight
  deriving DecidableEq, Repr

/-- The written form of a direction. -/
def Direction.word : Direction → String
  | .topDown => "TD"
  | .leftRight => "LR"

/-- A node with its nodeText and its label. -/
def nodeText (id label : String) : String :=
  id ++ "[\"" ++ inLabel label ++ "\"]"

/-- One line of a flowchart. The ends of an edge are ids or shapes. -/
inductive Line where
  | comment (text : String)
  | header (direction : Direction)
  | node (id label : String)
  | edge (source target : String)
  | labeledEdge (source label target : String)
  deriving DecidableEq, Repr

/-- The space in front of nodes and edges. -/
def indentation (level : Nat) : String :=
  String.ofList (List.replicate (2 * level) ' ')

/-- The text of a line, without its end. -/
def Line.render (level : Nat) : Line → String
  | .comment text => "%% " ++ text
  | .header direction => "flowchart " ++ direction.word
  | .node id label => indentation level ++ nodeText id label
  | .edge source target => indentation level ++ source ++ " --> " ++ target
  | .labeledEdge source label target =>
    indentation level ++ source ++ " -- \"" ++ inLabel label
      ++ "\" --> " ++ target

/-- The text of a flowchart. -/
def render (level : Nat) (lines : List Line) : String :=
  String.join (lines.map fun l => l.render level ++ "\n")

end FlowAtlas.Markup
