import FlowAtlas.Graph.Recorded
import FlowAtlas.Path

/-!
# The code hierarchy

A solution holds projects, a project documents, a document types and methods.
Names are free text and need not differ from each other. Everything is kept, and
walked, in the order in which it was reported.
-/

namespace FlowAtlas

/-- The declaration of a method. -/
structure Method where
  name : String
  /-- Whether the method has a body that can be drawn. -/
  hasBody : Bool := true
  /-- The graph of the body, if one was recorded. -/
  recorded : Option RecordedGraph := none
  deriving DecidableEq, Repr

/-- The kind of a type. -/
inductive TypeKind where
  | classKind
  | structKind
  | recordKind
  | interfaceKind
  | enumKind
  deriving DecidableEq, Repr

/-- The name of a kind of type in diagrams. -/
def TypeKind.name : TypeKind → String
  | .classKind => "Class"
  | .structKind => "Struct"
  | .recordKind => "Record"
  | .interfaceKind => "Interface"
  | .enumKind => "Enum"

/-- The declaration of a type. -/
structure TypeDecl where
  name : String
  kind : TypeKind := .classKind
  methods : List Method := []
  deriving DecidableEq, Repr

/-- The methods of a type that can be drawn. -/
def TypeDecl.drawableMethods (t : TypeDecl) : List Method :=
  t.methods.filter Method.hasBody

/-- A source file. -/
structure Document where
  /-- The name or path of the file as it was reported. -/
  name : String
  types : List TypeDecl := []
  /-- The methods that belong to no type. -/
  methods : List Method := []
  deriving DecidableEq, Repr

namespace Document

/-- The name of the file without its directories. -/
def fileName (d : Document) : String := (Path.fileName? d.name).getD d.name

/-- The name of the file without its directories and extension. -/
def stem (d : Document) : String := (Path.fileStem? d.name).getD d.name

/-- The methods that can be drawn: those of each type in order, then those of no
type. -/
def drawableMethods (d : Document) : List Method :=
  d.types.flatMap TypeDecl.drawableMethods ++ d.methods.filter Method.hasBody

/-- The methods of the document, drawn or not, in the same order. -/
def allMethods (d : Document) : List Method :=
  d.types.flatMap TypeDecl.methods ++ d.methods

end Document

/-- A project. -/
structure Project where
  name : String
  documents : List Document := []
  /-- What went wrong when the project was compiled or read. A project with
  diagnostics has no graphs to offer. -/
  diagnostics : List String := []
  deriving DecidableEq, Repr

/-- A solution. -/
structure Solution where
  name : String := ""
  projects : List Project := []
  deriving DecidableEq, Repr

/-- Whether a filter lets a project with this name through; no filter lets every
project through. -/
def selects (filter : Option String) (project : String) : Bool :=
  match filter with
  | none => true
  | some name => project == name

/-- The projects that a filter lets through. -/
def Solution.matching (s : Solution) (filter : Option String) : List Project :=
  s.projects.filter fun p => selects filter p.name

end FlowAtlas
