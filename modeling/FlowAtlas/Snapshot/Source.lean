import FlowAtlas.Hierarchy.Codec

/-!
# Where graphs come from

A run asks a source for the hierarchy, for each project whether it can be used,
and for each method for its graph. A snapshot is a source that has everything on
record.
-/

namespace FlowAtlas

/-- A source of a hierarchy and of its graphs. -/
structure GraphSource where
  solution : Solution
  /-- Prepares a project; a project that is refused is left out. -/
  prepare : Project → Except Fault Unit
  /-- The graph of a method with a body. -/
  graphOf : Project → Document → Method → Except Fault ControlFlowGraph

namespace Snapshot

/-- A project can be used unless something went wrong with it when it was
recorded. -/
def prepare (p : Project) : Except Fault Unit :=
  if p.diagnostics.isEmpty then .ok ()
  else
    .error
      ((Fault.projectCompileFailed p.name
        ("; ".intercalate p.diagnostics)).addOperation
        "snapshot::compile_project")

/-- The operation that hands out graphs. -/
def graphOperation : String := "snapshot::control_flow_graph"

/-- The graph of a method: recorded, readable, and valid. -/
def graphOf (p : Project) (d : Document) (m : Method) :
    Except Fault ControlFlowGraph :=
  match m.hasBody, m.recorded with
  | true, some recorded => do
    let g ← (recorded.read m.name).mapError fun f =>
      (f.addOperation graphOperation).addContext "document" d.name
    g.check.mapError fun f =>
      ((f.addOperation graphOperation).addContext "document" d.name).addContext
        "method" m.name
    pure g
  | _, _ =>
    .error (((Fault.graphUnavailable d.name m.name).addContext "project"
      p.name).addOperation
      graphOperation)

/-- A snapshot as a source. -/
def source (solution : Solution) : GraphSource := ⟨solution, prepare, graphOf⟩

end Snapshot

end FlowAtlas
