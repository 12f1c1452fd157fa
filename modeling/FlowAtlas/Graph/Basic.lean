import FlowAtlas.Fault
import FlowAtlas.Text.Blank

/-!
# Control flow graphs

The graph of one method. A block is known by its position among the blocks of
the graph. An edge leads to a block or leaves the graph; an edge that is
missing, or that names a block which the graph does not have, leaves it too.
-/

namespace FlowAtlas

/-- Where an edge leads. -/
inductive Successor where
  /-- Out of the graph. -/
  | exit
  /-- To the block at a position. -/
  | block (index : UInt32)
  deriving DecidableEq, Repr

/-- Which successor the condition of a branch selects. -/
inductive Sense where
  /-- The condition selects nothing. -/
  | none
  /-- The conditional successor is taken when the condition does not hold. -/
  | whenFalse
  /-- The conditional successor is taken when the condition holds. -/
  | whenTrue
  deriving DecidableEq, Repr

/-- The condition at the end of a block. -/
structure Condition where
  /-- The source text, if it is known. -/
  text : Option String := none
  sense : Sense := .none
  deriving DecidableEq, Repr

/-- A run of operations with one way in and its ways out. -/
structure BasicBlock where
  /-- The source texts of the operations. -/
  operations : List String := []
  branch : Option Condition := none
  fallthrough : Option Successor := none
  conditional : Option Successor := none
  deriving DecidableEq, Repr

/-- The source texts of the operations, trimmed, without the blank ones. -/
def BasicBlock.shownOperations (b : BasicBlock) : List String :=
  b.operations.filterMap Text.nonBlank?

/-- The blocks of a method. -/
structure ControlFlowGraph where
  blocks : List BasicBlock := []
  deriving DecidableEq, Repr

/-- The name of a block in diagrams and messages. -/
def blockName (index : Nat) : String := "B" ++ toString index

/-- The name of the decision that a block ends with. -/
def decisionName (index : Nat) : String := "D" ++ toString index

namespace ControlFlowGraph

/-- The block at a position, where an edge leads; `none` out of the graph. -/
def destination (g : ControlFlowGraph) : Option Successor → Option Nat
  | some (.block index) =>
    if index.toNat < g.blocks.length then some index.toNat else none
  | some .exit | none => none

/-- Whether a block has a conditional successor and no condition to select
it. -/
def unguarded (b : BasicBlock) : Bool := b.conditional.isSome && b.branch.isNone

/-- The first block with a conditional successor and no condition. -/
def firstUnguarded? (g : ControlFlowGraph) : Option Nat :=
  g.blocks.findIdx? unguarded

/-- The positions of blocks are words of 32 bits, which bounds their number. -/
def blockLimit : Nat := Nat.pow 2 32 - 1

/-- Accepts a graph in which a conditional successor stands on blocks with a
condition only. -/
def check (g : ControlFlowGraph) : Except Fault Unit :=
  if blockLimit < g.blocks.length then
    .error ((Fault.invariantViolation "too many blocks").addContext "blocks"
      (toString g.blocks.length))
  else match g.firstUnguarded? with
    | none => .ok ()
    | some index =>
      .error
        (((Fault.invariantViolation
          "conditional successor without a branch condition").addOperation
          "cfg::validate").addContext "block" (blockName index))

end ControlFlowGraph

end FlowAtlas
