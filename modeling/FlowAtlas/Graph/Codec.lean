import FlowAtlas.Graph.Basic
import FlowAtlas.Json.Decode
import FlowAtlas.Json.Print

/-!
# Graphs in JSON

How a control flow graph is written down and read back. Writing gives every
field, in the order of the structure; reading lets fields be missing.
-/

namespace FlowAtlas

open Json

/-- The written form of an edge: the position of a block, or the word for the
way out. -/
def Successor.toJson : Successor → Json
  | .exit => .string "exit"
  | .block index => .number (.whole index.toNat)

/-- The edge that a value stands for. -/
def Successor.ofNode? (node : Node) : Option Successor :=
  match node with
  | .number (.whole n) =>
    if 0 ≤ n ∧ n.toNat < Nat.pow 2 32 then
      some (.block (UInt32.ofNat n.toNat)) else none
  | .string "exit" => some .exit
  | .object [(.ok "exit", .null)] none => some .exit
  | _ => none

/-- Reads an edge. The value has to be readable as a value before it is looked
at. -/
def Successor.decode (source : Source) (node : Node) : Decoded Successor := do
  let _ ← decodeAny source node
  match Successor.ofNode? node with
  | some s => pure s
  | none => .error (.here (.noVariant "SuccessorRepr") .stop)

/-- The names of the kinds of conditions. -/
def Sense.choices : List (String × Sense) :=
  [("none", .none), ("when_false", .whenFalse), ("when_true", .whenTrue)]

/-- The name of a kind of condition. -/
def Sense.name : Sense → String
  | .none => "none"
  | .whenFalse => "when_false"
  | .whenTrue => "when_true"

/-- A part that may be absent. -/
def optionToJson {α : Type} (toJson : α → Json) : Option α → Json
  | none => .null
  | some a => toJson a

/-- The written form of a condition. -/
def Condition.toJson (b : Condition) : Json :=
  .object [("syntax", optionToJson .string b.text),
    ("kind", .string b.sense.name)]

/-- The fields of a condition. -/
def Condition.record : Record Condition where
  name := "BranchCondition"
  fields := [("syntax", false), ("kind", false)]
  blank := {}
  put key source node b :=
    match key with
    | "syntax" => (decodeOption decodeString node).map fun text =>
      { b with text }
    | "kind" => (decodeChoice Sense.choices source node).map fun sense =>
      { b with sense }
    | _ => .ok b

/-- The written form of a block. -/
def BasicBlock.toJson (b : BasicBlock) : Json :=
  .object [
    ("operations", .array (b.operations.map .string)),
    ("branch", optionToJson Condition.toJson b.branch),
    ("fallthrough", optionToJson Successor.toJson b.fallthrough),
    ("conditional", optionToJson Successor.toJson b.conditional)]

/-- The fields of a block. -/
def BasicBlock.record : Record BasicBlock where
  name := "BasicBlock"
  fields := [("operations", false), ("branch", false), ("fallthrough", false),
    ("conditional", false)]
  blank := {}
  put key source node b :=
    match key with
    | "operations" =>
      (decodeList (fun _ => decodeString) source node).map fun operations =>
        { b with operations }
    | "branch" =>
      (decodeOption (Condition.record.decode source) node).map fun branch =>
        { b with branch }
    | "fallthrough" =>
      (decodeOption (Successor.decode source) node).map fun fallthrough =>
        { b with fallthrough }
    | "conditional" =>
      (decodeOption (Successor.decode source) node).map fun conditional =>
        { b with conditional }
    | _ => .ok b

/-- The written form of a graph. -/
def ControlFlowGraph.toJson (g : ControlFlowGraph) : Json :=
  .object [("blocks", .array (g.blocks.map BasicBlock.toJson))]

/-- The fields of a graph. -/
def ControlFlowGraph.record : Record ControlFlowGraph where
  name := "ControlFlowGraph"
  fields := [("blocks", false)]
  blank := {}
  put key source node g :=
    match key with
    | "blocks" =>
      (decodeList BasicBlock.record.decode source node).map fun blocks =>
        { g with blocks }
    | _ => .ok g

/-- Reads a graph. -/
def ControlFlowGraph.decode (source : Source) (node : Node) :
    Decoded ControlFlowGraph :=
  ControlFlowGraph.record.decode source node

end FlowAtlas
