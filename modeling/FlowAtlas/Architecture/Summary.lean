import FlowAtlas.Architecture.Basic

/-!
# The architecture summary

A document around the architecture diagram. It lists every project of the
solution, whatever filter or bound the diagram was drawn with.
-/

namespace FlowAtlas.Architecture

/-- A text that ends with a line end. -/
def endLine (s : String) : String :=
  if s.toList.getLast? = some '\n' then s else s ++ "\n"

/-- What a summary says about itself, below its title. -/
def purpose : String :=
  "This file describes the processing chain and the projects/documents "
    ++ "scanned by the tool."

/-- The summary of a solution around some markup. -/
def summary (solution : Solution) (markup : String) : String :=
  "# Architecture: " ++ solution.name ++ "\n\n"
    ++ purpose ++ "\n\n"
    ++ "## Projects scanned\n"
    ++ String.join (solution.projects.map fun p => "- " ++ p.name ++ "\n")
    ++ "\n## Flow diagram (Mermaid)\n\n```mermaid\n"
    ++ endLine markup
    ++ "```\n\n*Generated automatically by cfgflow.*\n"

/-- The two texts of the architecture step. -/
structure Texts where
  markup : String
  summary : String
  deriving DecidableEq, Repr

/-- The diagram and the summary of a solution. -/
def texts (solution : Solution) (bounds : Bounds) (filter : Option String) :
    Texts :=
  let markup := markup solution bounds filter
  ⟨markup, summary solution markup⟩

end FlowAtlas.Architecture
