import FlowAtlas.Diagram.Markup
import FlowAtlas.Diagram.Statement

/-!
# The markup of a method

The flowchart of one method: two comments that tell where it comes from, the
header, and the statements of its diagram.
-/

namespace FlowAtlas.Diagram

open Markup

/-- What the markup of a method says about its origin. -/
structure Origin where
  project : String
  document : String
  method : String
  deriving DecidableEq, Repr

/-- The first comment of the markup of every method. -/
def firstComment : String := "Diagram generated automatically (CFG -> Mermaid)"

/-- The second comment. -/
def Origin.comment (h : Origin) : String :=
  "Project: " ++ Text.inLabel h.project ++ " | File: " ++ Text.inLabel
      h.document ++ " | Method: "
    ++ Text.inLabel h.method

/-- The line of a statement. -/
def Statement.line : Statement → Line
  | .node v label => .node v.id label
  | .edge source target none => .edge source.id target.id
  | .edge source target (some truth) =>
    .labeledEdge source.id (truthLabel truth) target.id

/-- The lines of a method's flowchart. -/
def lines (g : ControlFlowGraph) (h : Origin) : List Line :=
  [.comment firstComment, .comment h.comment, .header .topDown]
    ++ (statements g).map Statement.line

/-- The markup of a method. -/
def chart (g : ControlFlowGraph) (h : Origin) : String := render 0 (lines g h)

end FlowAtlas.Diagram
