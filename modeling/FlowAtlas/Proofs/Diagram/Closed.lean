import FlowAtlas.Proofs.Diagram.Walk

/-!
# The diagram of a graph is closed

The statements of a diagram come block by block: the node of the block, the node
of its decision if it has one, and then the edges that leave these two. So each
node is declared once, an edge stands between the node it leaves and the node of
the next block, and it leads to a node that is declared somewhere, in front of
the edge or behind it.

That is proved from two facts. The nodes of a run of blocks are counted up
through the blocks (`nodeIds_statementsFrom`). And a place between two
statements lies inside the statements of one block, with the blocks before it in
front (`exists_block_of_split`), where only a few statements have to be looked
at.

An edge is drawn to what a successor resolves to. A successor that leaves the
graph, or that names a block which is not there, resolves to nothing, so there
is no edge for it.
-/

namespace FlowAtlas

theorem ControlFlowGraph.destination_lt {g : ControlFlowGraph}
    {successor : Option Successor} {j : Nat}
    (h : g.destination successor = some j) : j < g.blocks.length := by
  unfold destination at h
  split at h
  · next index =>
      split at h
      · next hlt =>
          rw [Option.some.injEq] at h
          rw [← h]
          exact hlt
      · cases h
  · cases h
  · cases h

namespace Diagram

/-- The ids of the nodes among some statements, in order. -/
def nodeIds (ss : List Statement) : List String :=
  ss.filterMap fun
    | .node v _ => some v.id
    | .edge _ _ _ => none

/-- The ids of the nodes that a block is drawn as, in order. -/
def idsOfBlock (i : Nat) (b : BasicBlock) : List String :=
  blockName i :: if b.branch.isSome then [decisionName i] else []

/-- The position of the block that a node is drawn for. -/
def Vertex.owner : Vertex → Nat
  | .block i | .decision i => i

/-! ## The nodes -/

theorem nodeIds_append (ss ts : List Statement) :
    nodeIds (ss ++ ts) = nodeIds ss ++ nodeIds ts :=
  List.filterMap_append

@[simp]
theorem nodeIds_node (v : Vertex) (label : String) (ss : List Statement) :
    nodeIds (.node v label :: ss) = v.id :: nodeIds ss := rfl

@[simp]
theorem nodeIds_edge (source target : Vertex) (truth : Option Bool)
    (ss : List Statement) :
    nodeIds (.edge source target truth :: ss) = nodeIds ss := rfl

theorem nodeIds_edgeTo (source : Vertex) (target : Option Nat)
    (truth : Option Bool) :
    nodeIds (edgeTo source target truth) = [] := by
  cases target <;> rfl

theorem nodeIds_flatMap_edgeTo (source : Vertex)
    (ts : List (Option Nat × Option Bool)) :
    nodeIds (ts.flatMap fun t => edgeTo source t.1 t.2) = [] := by
  induction ts with
  | nil => rfl
  | cons t ts ih =>
      rw [List.flatMap_cons, nodeIds_append, nodeIds_edgeTo, ih,
        List.append_nil]

theorem nodeIds_blockStatements (g : ControlFlowGraph) (i : Nat)
    (b : BasicBlock) :
    nodeIds (blockStatements g i b) = idsOfBlock i b := by
  rw [blockStatements, idsOfBlock]
  cases b.branch with
  | none => simp [nodeIds_edgeTo, Vertex.id]
  | some c => simp [nodeIds_flatMap_edgeTo, Vertex.id]

theorem nodeIds_statementsFrom (g : ControlFlowGraph) (k : Nat)
    (bs : List BasicBlock) :
    nodeIds (statementsFrom g k bs) = (bs.zipIdx k).flatMap fun e =>
      idsOfBlock e.2 e.1 := by
  induction bs generalizing k with
  | nil => rfl
  | cons b bs ih =>
      rw [statementsFrom, nodeIds_append, nodeIds_blockStatements, ih,
        List.zipIdx_cons, List.flatMap_cons]

theorem drawnAs_of_mem_idsOfBlock {i : Nat} {b : BasicBlock} {id : String}
    (h : id ∈ idsOfBlock i b) : drawnAs i id := by
  unfold idsOfBlock at h
  split at h
  · simpa [drawnAs] using h
  · exact .inl (by simpa using h)

theorem nodup_idsOfBlock (i : Nat) (b : BasicBlock) :
    (idsOfBlock i b).Nodup := by
  unfold idsOfBlock
  split
  · simpa using blockName_ne_decisionName i i
  · simp

theorem exists_drawnAs_of_mem {g : ControlFlowGraph} {k : Nat}
    {bs : List BasicBlock} {id : String}
    (h : id ∈ nodeIds (statementsFrom g k bs)) :
    ∃ i, k ≤ i ∧ i < k + bs.length ∧ drawnAs i id := by
  rw [nodeIds_statementsFrom] at h
  obtain ⟨⟨b, i⟩, hmem, hid⟩ := List.mem_flatMap.1 h
  obtain ⟨hle, hlt, -⟩ := List.mem_zipIdx hmem
  exact ⟨i, hle, hlt, drawnAs_of_mem_idsOfBlock hid⟩

/-- The nodes of the blocks are those of the positions. -/
theorem blockName_mem_iff {g : ControlFlowGraph} {k j : Nat}
    {bs : List BasicBlock} :
    blockName j ∈ nodeIds (statementsFrom g k bs)
      ↔ k ≤ j ∧ j < k + bs.length := by
  constructor
  · intro h
    obtain ⟨i, hle, hlt, hdrawn⟩ := exists_drawnAs_of_mem h
    rw [drawnAs_unique (.inl rfl) hdrawn]
    exact ⟨hle, hlt⟩
  · intro ⟨hle, hlt⟩
    rw [nodeIds_statementsFrom]
    have hmem : (bs[j - k], j) ∈ bs.zipIdx k :=
      List.mk_mem_zipIdx_iff_le_and_getElem?_sub.2 ⟨hle,
        List.getElem?_eq_getElem (by omega)⟩
    exact List.mem_flatMap.2 ⟨_, hmem, List.mem_cons_self⟩

theorem nodup_statementsFrom (g : ControlFlowGraph) (k : Nat)
    (bs : List BasicBlock) :
    (nodeIds (statementsFrom g k bs)).Nodup := by
  induction bs generalizing k with
  | nil => exact List.nodup_nil
  | cons b bs ih =>
      rw [statementsFrom, nodeIds_append, nodeIds_blockStatements,
        List.nodup_append]
      refine ⟨nodup_idsOfBlock k b, ih (k + 1), ?_⟩
      intro id hid other hother heq
      obtain ⟨i, hle, -, hdrawn⟩ := exists_drawnAs_of_mem hother
      rw [← heq] at hdrawn
      have hsame := drawnAs_unique (drawnAs_of_mem_idsOfBlock hid) hdrawn
      omega

/-! ## Where an edge stands -/

/-- A statement of a run of blocks is one of the statements of a block, and the
blocks before that one are drawn in front of it. -/
theorem exists_block_of_split {g : ControlFlowGraph} {k : Nat}
    {bs : List BasicBlock} {before after : List Statement} {s : Statement}
    (h : statementsFrom g k bs = before ++ s :: after) :
    ∃ front b back inner outer, bs = front ++ b :: back
      ∧ before = statementsFrom g k front ++ inner
      ∧ blockStatements g (k + front.length) b = inner ++ s :: outer := by
  induction bs generalizing k before with
  | nil => simp [statementsFrom] at h
  | cons b bs ih =>
      rw [statementsFrom, List.append_eq_append_iff] at h
      rcases h with ⟨gap, hbefore, hrest⟩ | ⟨gap, hblock, hrest⟩
      · -- The statement belongs to a later block.
        obtain ⟨front, c, back, inner, outer, hbs, hgap, hstatements⟩ :=
          ih hrest
        refine ⟨b :: front, c, back, inner, outer, by rw [hbs]; rfl, ?_, ?_⟩
        · rw [hbefore, hgap, statementsFrom, List.append_assoc]
        · rw [List.length_cons, show k + (front.length + 1)
            = k + 1 + front.length by omega]
          exact hstatements
      · cases gap with
        | nil =>
            have hrest' : statementsFrom g (k + 1) bs = [] ++ s :: after :=
              hrest.symm
            obtain ⟨front, c, back, inner, outer, hbs, hgap, hstatements⟩ :=
              ih hrest'
            refine ⟨b :: front, c, back, inner, outer, by rw [hbs]; rfl, ?_, ?_⟩
            · rw [statementsFrom, List.append_assoc, ← hgap, hblock,
                List.append_nil, List.append_nil]
            · rw [List.length_cons, show k + (front.length + 1)
                = k + 1 + front.length by omega]
              exact hstatements
        | cons first gap =>
            obtain ⟨rfl, -⟩ := List.cons.inj hrest
            exact ⟨[], b, bs, before, gap, rfl, rfl, hblock⟩

/-- What an edge that leaves a node of a block leads to: the decision of the
block, or what one of its successors resolves to. -/
def Leads (g : ControlFlowGraph) (b : BasicBlock) (source target : Vertex) :
    Prop :=
  (b.branch.isSome = true ∧ source = .block source.owner
      ∧ target = .decision source.owner)
    ∨ ∃ j, target = .block j
      ∧ (g.destination b.fallthrough = some j
        ∨ g.destination b.conditional = some j)

theorem mem_edgeTo {source target from' : Vertex} {goal : Option Nat}
    {truth label : Option Bool}
    (h : Statement.edge source target truth ∈ edgeTo from' goal label) :
    source = from' ∧ ∃ j, goal = some j ∧ target = .block j := by
  cases goal with
  | none => cases h
  | some j =>
      rw [edgeTo, List.mem_singleton] at h
      cases h
      exact ⟨rfl, j, rfl, rfl⟩

theorem mem_ways {sense : Sense} {conditional fallthrough : Option Nat}
    {t : Option Nat × Option Bool}
    (h : t ∈ ways sense conditional fallthrough) :
    t.1 = fallthrough ∨ t.1 = conditional := by
  cases sense with
  | none =>
      rw [ways, List.mem_singleton] at h
      rw [h]
      exact .inl rfl
  | whenTrue | whenFalse =>
      simp only [ways, List.mem_cons, List.not_mem_nil, or_false] at h
      rcases h with rfl | rfl
      · simp
      · simp

theorem blockStatements_of_none {g : ControlFlowGraph} {i : Nat}
    {b : BasicBlock} (h : b.branch = none) :
    blockStatements g i b = .node (.block i) (labelOfBlock i b)
      :: edgeTo (.block i) (g.destination b.fallthrough) none := by
  simp only [blockStatements, h]

theorem blockStatements_of_some {g : ControlFlowGraph} {i : Nat}
    {b : BasicBlock} {c : Condition} (h : b.branch = some c) :
    blockStatements g i b = .node (.block i) (labelOfBlock i b)
      :: .node (.decision i) (labelOfCondition c) :: .edge (.block i)
        (.decision i) none
      :: (ways c.sense (g.destination b.conditional)
        (g.destination b.fallthrough)).flatMap
        fun t => edgeTo (.decision i) t.1 t.2 := by
  simp only [blockStatements, h, List.cons_append, List.nil_append]

/-- Within the statements of its block an edge stands behind the node that it
leaves. -/
theorem edge_of_block {g : ControlFlowGraph} {i : Nat} {b : BasicBlock}
    {source target : Vertex} {truth : Option Bool}
    {inner outer : List Statement}
    (h : blockStatements g i b = inner ++ .edge source target truth :: outer) :
    source.owner = i ∧ blockName i ∈ nodeIds inner ∧ source.id ∈ nodeIds inner
      ∧ Leads g b source target := by
  cases hbranch : b.branch with
  | none =>
      rw [blockStatements_of_none hbranch] at h
      -- The block opens with its node, so the edge is not the first statement.
      cases inner with
      | nil => cases h
      | cons first inner =>
          rw [List.cons_append, List.cons.injEq] at h
          obtain ⟨rfl, h⟩ := h
          have hmem : Statement.edge source target truth
              ∈ edgeTo (.block i) (g.destination b.fallthrough) none := by
            simp [h]
          obtain ⟨rfl, j, hj, rfl⟩ := mem_edgeTo hmem
          have hblock : blockName i
              ∈ nodeIds (.node (.block i) (labelOfBlock i b) :: inner) :=
            List.mem_cons_self
          exact ⟨rfl, hblock, hblock, .inr ⟨j, rfl, .inl hj⟩⟩
  | some c =>
      rw [blockStatements_of_some hbranch] at h
      cases inner with
      | nil => cases h
      | cons first inner =>
          rw [List.cons_append, List.cons.injEq] at h
          obtain ⟨rfl, h⟩ := h
          cases inner with
          | nil => cases h
          | cons second inner =>
              rw [List.cons_append, List.cons.injEq] at h
              obtain ⟨rfl, h⟩ := h
              have hids : nodeIds (.node (.block i) (labelOfBlock i b)
                  :: .node (.decision i) (labelOfCondition c) :: inner)
                    = blockName i :: decisionName i :: nodeIds inner := rfl
              rw [hids]
              have hmem : Statement.edge source target truth
                  ∈ inner ++ .edge source target truth :: outer := by simp
              rw [← h, List.mem_cons] at hmem
              rcases hmem with heq | hmem
              · cases heq
                refine ⟨rfl, by simp, by simp [Vertex.id], .inl ⟨?_, rfl, rfl⟩⟩
                rw [hbranch]
                rfl
              · obtain ⟨t, ht, hedge⟩ := List.mem_flatMap.1 hmem
                obtain ⟨rfl, j, hj, rfl⟩ := mem_edgeTo hedge
                refine ⟨rfl, by simp, by simp [Vertex.id], .inr ⟨j, rfl, ?_⟩⟩
                rcases mem_ways ht with hway | hway
                · exact .inl (hway.symm.trans hj)
                · exact .inr (hway.symm.trans hj)

/-! ## The whole diagram -/

/-- An edge of a diagram that has some statements in front of it. -/
structure Placed (g : ControlFlowGraph) (before : List Statement)
    (source target : Vertex) : Prop where
  source_before : source.id ∈ nodeIds before
  target_mem : target.id ∈ nodeIds (statements g)
  /-- The edge stands behind the node of the block it is drawn for, and in front
  of the node of the next block. -/
  blocks_before : ∀ j, blockName j ∈ nodeIds before ↔ j ≤ source.owner
  leads : ∃ b, g.blocks[source.owner]? = some b ∧ Leads g b source target

/-- The nodes of a diagram are those of the blocks in order, each with its
decision behind it. No two of them share an id, and every edge runs between two
of them and stands with the block that it leaves. -/
theorem statements_closed (g : ControlFlowGraph) :
    nodeIds (statements g)
        = g.blocks.zipIdx.flatMap (fun e =>
            blockName e.2 :: if e.1.branch.isSome then [decisionName e.2]
              else [])
      ∧ (nodeIds (statements g)).Nodup
      ∧ ∀ before source target truth after,
          statements g = before ++ .edge source target truth :: after →
          Placed g before source target := by
  refine ⟨nodeIds_statementsFrom g 0 g.blocks,
    nodup_statementsFrom g 0 g.blocks, ?_⟩
  intro before source target truth after h
  obtain ⟨front, b, back, inner, outer, hblocks, hbefore, hstatements⟩ :=
    exists_block_of_split h
  obtain ⟨howner, hblock, hsource, hleads⟩ := edge_of_block hstatements
  rw [Nat.zero_add] at howner hblock hstatements
  have hget : g.blocks[source.owner]? = some b := by
    rw [howner, hblocks, List.getElem?_append_right (Nat.le_refl _),
      Nat.sub_self]
    rfl
  have hinner : ∀ j, blockName j ∈ nodeIds inner → j = front.length := by
    intro j hj
    have hids := nodeIds_blockStatements g front.length b
    rw [hstatements, nodeIds_append] at hids
    have hmem : blockName j ∈ idsOfBlock front.length b :=
      hids ▸ List.mem_append_left _ hj
    exact drawnAs_unique (.inl rfl) (drawnAs_of_mem_idsOfBlock hmem)
  refine ⟨?_, ?_, fun j => ?_, b, hget, hleads⟩
  · rw [hbefore, nodeIds_append]
    exact List.mem_append_right _ hsource
  · rcases hleads with ⟨hbranch, -, rfl⟩ | ⟨j, rfl, hj⟩
    · have hmem : (b, source.owner) ∈ g.blocks.zipIdx :=
        List.mk_mem_zipIdx_iff_getElem?.2 hget
      rw [statements, nodeIds_statementsFrom]
      refine List.mem_flatMap.2 ⟨_, hmem, ?_⟩
      simp [idsOfBlock, hbranch, Vertex.id]
    · have hlt : j < g.blocks.length := by
        rcases hj with hj | hj
        · exact ControlFlowGraph.destination_lt hj
        · exact ControlFlowGraph.destination_lt hj
      exact blockName_mem_iff.2 ⟨Nat.zero_le j, by omega⟩
  · rw [hbefore, nodeIds_append, List.mem_append, blockName_mem_iff, howner]
    constructor
    · intro hj
      rcases hj with hj | hj
      · omega
      · exact Nat.le_of_eq (hinner j hj)
    · intro hle
      rcases Nat.lt_or_eq_of_le hle with hlt | rfl
      · exact .inl ⟨Nat.zero_le j, by omega⟩
      · exact .inr hblock

end Diagram

end FlowAtlas
