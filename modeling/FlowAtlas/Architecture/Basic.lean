import FlowAtlas.Architecture.Bounds
import FlowAtlas.Diagram.Markup
import FlowAtlas.Hierarchy.Basic

/-!
# The architecture diagram

One flowchart of the whole hierarchy, from the program through the projects to
their methods. The walk is bounded: so many documents of a project, so many
types and top-level methods in all of these documents together, and so many
methods of each type. What lies beyond a bound is left out without a word.

The diagram is a list of edges, and a node is declared by the edge that first
leads to it.
-/

namespace FlowAtlas.Architecture

/-- A node of the diagram. -/
inductive Vertex where
  | program
  | loader
  | workspace
  | solution
  | cleanup
  | generator
  | project (p : Nat)
  | documents (p : Nat)
  | document (p d : Nat)
  | typeDecl (p c : Nat)
  | method (p c m : Nat)
  | topMethod (p f : Nat)
  | graph (p : Nat)
  | drawing (p : Nat)
  | markup (p : Nat)
  | renderer (p : Nat)
  | output (p : Nat)
  deriving DecidableEq, Repr

/-- The id of a node. -/
def Vertex.id : Vertex → String
  | .program => "P"
  | .loader => "ML"
  | .workspace => "WS"
  | .solution => "SOL"
  | .cleanup => "DEL"
  | .generator => "GEN"
  | .project p => "PRJ" ++ toString p
  | .documents p => "DOC" ++ toString p
  | .document p d => "PRJ" ++ toString p ++ "D" ++ toString d
  | .typeDecl p c => "PRJ" ++ toString p ++ "C" ++ toString c
  | .method p c m =>
    "PRJ" ++ toString p ++ "C" ++ toString c ++ "M" ++ toString m
  | .topMethod p f => "PRJ" ++ toString p ++ "FM" ++ toString f
  | .graph p => "CFG" ++ toString p
  | .drawing p => "BM" ++ toString p
  | .markup p => "MMD" ++ toString p
  | .renderer p => "MMDC" ++ toString p
  | .output p => "OUT" ++ toString p

/-- An end of an edge: a node that was declared before, or one that is declared
here. -/
inductive Terminal where
  | bare (vertex : Vertex)
  | labeled (vertex : Vertex) (label : String)
  deriving DecidableEq, Repr

/-- The text of an end. -/
def Terminal.render : Terminal → String
  | .bare v => v.id
  | .labeled v label => Markup.nodeText v.id label

/-- An edge of the diagram. -/
structure Edge where
  source : Terminal
  target : Terminal
  deriving DecidableEq, Repr

/-- The line of an edge. -/
def Edge.line (e : Edge) : Markup.Line := .edge e.source.render e.target.render

/-- An edge from a declared node to a new one. -/
def declare (source target : Vertex) (label : String) : Edge :=
  ⟨.bare source, .labeled target label⟩

/-- The edges in front of the projects. -/
def preamble : List Edge :=
  [⟨.labeled .program "Program (entry)", .labeled .loader "Hierarchy loader"⟩,
    declare .loader .workspace "Snapshot workspace",
    declare .workspace .solution "Solution"]

/-- The edges behind the projects. -/
def trailer : List Edge :=
  [declare .program .cleanup "Stale artifact cleanup",
    declare .program .generator "External renderer (mmdc)"]

/-- The label of a project; the name stands in it without blanks. -/
def projectLabel (name : String) : String :=
  "Project: " ++ (Text.inLabel name).map fun c => if c = ' ' then '_' else c

/-- The edges to the methods of a type, the first of which has the given
number. -/
def methodEdges (p c m : Nat) : List Method → List Edge
  | [] => []
  | method :: methods =>
    declare (.typeDecl p c) (.method p c m) ("Method: " ++ method.name ++ "()")
      :: methodEdges p c (m + 1) methods

/-- The edges of a type and of its methods. -/
def typeEdges (bounds : Bounds) (p c : Nat) (t : TypeDecl) : List Edge :=
  [declare (.project p) (.typeDecl p c) (t.kind.name ++ ": " ++ t.name),
    ⟨.bare (.typeDecl p c), .bare (.documents p)⟩]
    ++ methodEdges p c 0 (t.drawableMethods.take bounds.methodsPerType)

/-- The edges of some types, the first of which has the given number. -/
def typesEdges (bounds : Bounds) (p c : Nat) : List TypeDecl → List Edge
  | [] => []
  | t :: ts => typeEdges bounds p c t ++ typesEdges bounds p (c + 1) ts

/-- The edges to some top-level methods, the first of which has the given
number. -/
def topEdges (p f : Nat) : List Method → List Edge
  | [] => []
  | method :: methods =>
    declare (.project p) (.topMethod p f) ("TopMethod: " ++ method.name ++ "()")
      :: topEdges p (f + 1) methods

/-- The edges of the contents of some documents. Types and top-level methods are
numbered through all documents of the project, and counted against one budget
each. -/
def contentEdges (bounds : Bounds)
    (p typesDrawn topDrawn : Nat) : List Document → List Edge
  | [] => []
  | d :: ds =>
    -- Where the documents in front have used up a budget, nothing is left of it
    -- here.
    let types := d.types.take (bounds.typesPerProject - typesDrawn)
    let methods := d.methods.take (bounds.topLevelMethods - topDrawn)
    typesEdges bounds p typesDrawn types ++ topEdges p topDrawn methods
      ++ contentEdges bounds p (typesDrawn + types.length)
        (topDrawn + methods.length) ds

/-- The edges to some documents, the first of which has the given number. -/
def documentEdges (p d : Nat) : List Document → List Edge
  | [] => []
  | doc :: docs =>
    declare (.documents p) (.document p d) doc.fileName
      :: documentEdges p (d + 1) docs

/-- The edges that show how the diagrams of a project come about. -/
def chainEdges (p : Nat) (name : String) : List Edge :=
  [declare (.project p) (.graph p) "ControlFlowGraph (per-method)",
    declare (.graph p) (.drawing p) "translate()",
    declare (.drawing p) (.markup p) (Text.inLabel name ++ ".mmd"),
    declare (.markup p) (.renderer p) "Mermaid CLI (mmdc)",
    declare (.renderer p) (.output p) ".svg / .png"]

/-- The edges of a project. -/
def projectEdges (bounds : Bounds) (p : Nat) (project : Project) : List Edge :=
  let docs := project.documents.take bounds.docsPerProject
  [declare .solution (.project p) (projectLabel project.name),
    declare (.project p) (.documents p) "Documents"]
    ++ documentEdges p 0 docs ++ contentEdges bounds p 0 0 docs
    ++ chainEdges p project.name

/-- The edges of some projects, the first of which has the given number. -/
def projectsEdges (bounds : Bounds) (p : Nat) : List Project → List Edge
  | [] => []
  | project :: projects =>
    projectEdges bounds p project ++ projectsEdges bounds (p + 1) projects

/-- The edges of the diagram. -/
def edges (solution : Solution) (bounds : Bounds) (filter : Option String) :
    List Edge :=
  preamble ++ projectsEdges bounds 0 (solution.matching filter) ++ trailer

/-- The markup of the architecture of a solution. A filter keeps one project. -/
def markup (solution : Solution) (bounds : Bounds) (filter : Option String) :
    String :=
  Markup.render 1
    (.header .topDown :: (edges solution bounds filter).map Edge.line)

end FlowAtlas.Architecture
