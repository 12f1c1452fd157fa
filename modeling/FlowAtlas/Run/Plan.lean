import FlowAtlas.Diagram.Chart
import FlowAtlas.Snapshot.Source

/-!
# The plan of a run

All that a run is going to do to methods follows from the source of graphs,
before any file is touched: which projects are passed over, which methods have
no diagram, and for each of the others its stem and its markup. The plan lists
this in the order of the walk through the hierarchy: projects, documents and
methods as they are declared.
-/

namespace FlowAtlas.Run

/-- The diagram of a method, ready to be written. -/
structure Drawing where
  project : String
  /-- What warnings call the method. -/
  unit : String
  stem : String
  markup : String
  deriving DecidableEq, Repr

/-- A step of a plan. -/
inductive Task where
  /-- A project that cannot be used. -/
  | skip (project : String) (fault : Fault)
  /-- A method without a diagram. -/
  | miss (unit : String) (fault : Fault)
  | draw (drawing : Drawing)
  deriving DecidableEq, Repr

/-- The project that a step passes over. -/
def Task.skipped? : Task → Option String
  | .skip project _ => some project
  | _ => none

/-- The drawing of a step. -/
def Task.drawing? : Task → Option Drawing
  | .draw drawing => some drawing
  | _ => none

/-- What warnings call a method. -/
def unitOf (p : Project) (d : Document) (method : Method) : String :=
  p.name ++ "::" ++ d.name ++ "::" ++ method.name

/-- The stem of the files of a method. -/
def stemOf (p : Project) (d : Document) (method : Method) : String :=
  Text.identifier [p.name, d.stem, method.name]

/-- The step for a method. -/
def methodTask (source : GraphSource) (p : Project) (d : Document)
    (method : Method) : Task :=
  match source.graphOf p d method with
  | .error fault => .miss (unitOf p d method) fault
  | .ok graph =>
    .draw {
      project := p.name
      unit := unitOf p d method
      stem := stemOf p d method
      markup := Diagram.chart graph ⟨p.name, d.fileName, method.name⟩ }

/-- The steps for a project. -/
def projectTasks (source : GraphSource) (p : Project) : List Task :=
  match source.prepare p with
  | .error fault => [.skip p.name fault]
  | .ok _ => p.documents.flatMap fun d =>
    d.drawableMethods.map (methodTask source p d)

/-- The plan of a run over the projects that a filter lets through. -/
def plan (source : GraphSource) (filter : Option String) : List Task :=
  (source.solution.matching filter).flatMap (projectTasks source)

/-- The projects that a plan passes over. -/
def skippedProjects
    (tasks : List Task) : List String := tasks.filterMap Task.skipped?

end FlowAtlas.Run
