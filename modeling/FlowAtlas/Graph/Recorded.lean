import FlowAtlas.Graph.Codec

/-!
# Recorded graphs

A snapshot records a graph with each method. A record that does not have the
form of a graph is kept as the value it is, so that it spoils its own method
when the graph is asked for, and not the snapshot that holds it.
-/

namespace FlowAtlas

open Json

/-- A graph as a snapshot records it. -/
inductive RecordedGraph where
  | parsed (graph : ControlFlowGraph)
  /-- A value that could not be taken for a graph. -/
  | raw (value : Json)
  deriving DecidableEq, Repr

namespace RecordedGraph

/-- Whether the record has the form of a graph. -/
def isGraph : RecordedGraph → Bool
  | .parsed _ => true
  | .raw _ => false

/-- The written form of a record. -/
def toJson : RecordedGraph → Json
  | .parsed g => g.toJson
  | .raw j => j

/-- Reads a record. Any value that can be read at all is one. -/
def decode (source : Source) (node : Node) : Decoded RecordedGraph := do
  let value ← decodeAny source node
  match ControlFlowGraph.decode .value node with
  | .ok g => pure (.parsed g)
  | .error _ => pure (.raw value)

/-- The recorded graph of a method. -/
def read (r : RecordedGraph) (method : String) :
    Except Fault ControlFlowGraph :=
  match r with
  | .parsed g => .ok g
  | .raw value =>
    match ControlFlowGraph.decode .value (Node.ofJson value) with
    | .ok g => .ok g
    | .error refusal =>
      .error ((Fault.graphBuildFailed method
        ("malformed control flow graph: " ++ refusal.cause.text)).addOperation
        "cfg::graph")

end RecordedGraph

end FlowAtlas
