import FlowAtlas.Graph.Basic
import FlowAtlas.Text.Label

/-!
# The diagram of a graph

Every block of a graph is a node. A block that ends with a condition has a
second node, its decision, from which the edges of the block leave; which of
them are drawn, and with which truth value, follows from the kind of the
condition. An edge out of the graph is never drawn.
-/

namespace FlowAtlas.Diagram

/-- A node of a diagram. -/
inductive Vertex where
  | block (index : Nat)
  | decision (index : Nat)
  deriving DecidableEq, Repr

/-- The id of a node. -/
def Vertex.id : Vertex → String
  | .block index => blockName index
  | .decision index => decisionName index

/-- A statement of a diagram. -/
inductive Statement where
  /-- A node with its label, not yet escaped. -/
  | node (vertex : Vertex) (label : String)
  /-- An edge, and the truth value for which it is taken, if that matters. -/
  | edge (source target : Vertex) (truth : Option Bool)
  deriving DecidableEq, Repr

/-- The label of a truth value. -/
def truthLabel : Bool → String
  | true => "true"
  | false => "false"

/-- The label of a condition without a source text. -/
def unknownCondition : String := "cond"

/-- The label of a block: its operations, or its number when there are none to
show. -/
def labelOfBlock (index : Nat) (b : BasicBlock) : String :=
  match b.shownOperations with
  | [] => "Block " ++ toString index
  | texts => Text.breakMark.intercalate texts

/-- The label of a condition: its source text, unless that is missing or
blank. -/
def labelOfCondition (c : Condition) : String :=
  match c.text with
  | none => unknownCondition
  | some text => if (Text.nonBlank? text).isSome then text else unknownCondition

/-- The edges that leave a decision, each with its truth value. A condition that
selects nothing leaves the conditional successor out. -/
def ways (sense : Sense) (conditional fallthrough : Option Nat) :
    List (Option Nat × Option Bool) :=
  match sense with
  | .whenTrue => [(conditional, some true), (fallthrough, some false)]
  | .whenFalse => [(fallthrough, some true), (conditional, some false)]
  | .none => [(fallthrough, none)]

/-- An edge to a block, when there is one. -/
def edgeTo (source : Vertex) (target : Option Nat) (truth : Option Bool) :
    List Statement :=
  match target with
  | none => []
  | some index => [.edge source (.block index) truth]

/-- The statements of the block at a position. -/
def blockStatements (g : ControlFlowGraph) (index : Nat) (b : BasicBlock) :
    List Statement :=
  let block := Vertex.block index
  let decision := Vertex.decision index
  let fallthrough := g.destination b.fallthrough
  .node block (labelOfBlock index b) ::
    match b.branch with
    | none => edgeTo block fallthrough none
    | some c =>
      [.node decision (labelOfCondition c), .edge block decision none]
        ++ (ways c.sense (g.destination b.conditional) fallthrough).flatMap
          fun t => edgeTo decision t.1 t.2

/-- The statements of some blocks, the first of which stands at the given
position. Positions are numbers without a bound. The program keeps them in 32
bits, which comes to the same: a graph with more blocks than
`ControlFlowGraph.blockLimit` is refused before it is translated. -/
def statementsFrom (g : ControlFlowGraph)
    (index : Nat) : List BasicBlock → List Statement
  | [] => []
  | b :: bs => blockStatements g index b ++ statementsFrom g (index + 1) bs

/-- The statements of a graph, block by block. -/
def statements (g : ControlFlowGraph) : List Statement :=
  statementsFrom g 0 g.blocks

end FlowAtlas.Diagram
