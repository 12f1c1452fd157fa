import FlowAtlas.Fault
import FlowAtlas.Path

/-!
# The report of a run

What a run has written, rendered and deleted, and every fault that it went on
after. All lists are in the order of events.
-/

namespace FlowAtlas.Run

/-- The part of a run that a warning comes from. -/
inductive Category where
  | projectCompile
  | graphBuild
  | write
  | render
  | cleanup
  | architecture
  deriving DecidableEq, Repr

namespace Category

/-- The name of a category. -/
def name : Category → String
  | .projectCompile => "project_compile"
  | .graphBuild => "graph_build"
  | .write => "write"
  | .render => "render"
  | .cleanup => "cleanup"
  | .architecture => "architecture"

/-- Every category. -/
def all : List Category :=
  [.projectCompile, .graphBuild, .write, .render, .cleanup, .architecture]

end Category

/-- A fault that the run went on after. -/
structure Warning where
  category : Category
  /-- The project, method or file that the fault is about. -/
  unit : String
  message : String
  deriving DecidableEq, Repr

/-- The report of a run. -/
structure Report where
  written : List Path := []
  rendered : List Path := []
  /-- The stems of earlier runs whose files were deleted. -/
  pruned : List String := []
  warnings : List Warning := []
  deriving DecidableEq, Repr

namespace Report

/-- Notes a fault. -/
def note (r : Report) (category : Category) (unit : String) (fault : Fault) :
    Report :=
  { r with warnings := r.warnings ++ [⟨category, unit, fault.render⟩] }

/-- Notes faults of one unit. -/
def noteAll (r : Report) (category : Category) (unit : String)
    (faults : List Fault) : Report :=
  faults.foldl (fun r fault => r.note category unit fault) r

/-- Notes that markup was written. -/
def addMarkup (r : Report) (path : Path) : Report :=
  { r with written := r.written ++ [path] }

/-- Notes that a raster was rendered. -/
def addRaster (r : Report) (path : Path) : Report :=
  { r with rendered := r.rendered ++ [path] }

/-- Notes that the files of a stem were deleted. -/
def addPruned (r : Report)
    (stem : String) : Report := { r with pruned := r.pruned ++ [stem] }

/-- The warnings of a category. -/
def warningsOf (r : Report) (category : Category) : List Warning :=
  r.warnings.filter fun w => w.category = category

/-- Whether nothing went wrong. -/
def isClean (r : Report) : Bool := r.warnings.isEmpty

theorem warnings_noteAll (r : Report) (category : Category) (unit : String)
    (faults : List Fault) :
    (r.noteAll category unit faults).warnings
      = r.warnings ++ faults.map fun f => ⟨category, unit, f.render⟩ := by
  unfold noteAll
  induction faults generalizing r with
  | nil => simp
  | cons f fs ih =>
    rw [List.foldl_cons, ih]
    simp [note]

end Report

end FlowAtlas.Run
