import FlowAtlas.Diagram.Statement

/-!
# A diagram is walked like its graph

A reader of a flowchart follows it by the ids and labels that are drawn: from
the node of a block through its decision, if an edge leads there, and on along
the edge that carries the truth value at hand or none at all. This file shows
that such a reader visits the same blocks as the graph does, for as long as
truth values come in, and stops where the graph is left.

The reader sees one flat list of edges between ids. So the first half is about
ids: those of different nodes never clash, hence the edges that leave a node
were all put there by the block that the node stands for. The second half reads
off what these edges are and compares one step. The walk is then an induction
over the truth values.

Nothing depends on the graph being valid: a conditional successor without a
condition is drawn by neither side and taken by neither.
-/

namespace FlowAtlas

/-- Ids are told apart by the numerals in them. -/
theorem name_injective {letter : String} {i j : Nat}
    (h : letter ++ toString i = letter ++ toString j) : i = j := by
  have hdigits := congrArg String.toList ((String.append_right_inj letter).mp h)
  simp only [Nat.toString_eq_repr, Nat.toList_repr] at hdigits
  have hvalue := congrArg (fun cs => Nat.ofDigitChars 10 cs 0) hdigits
  simpa only [Nat.ofDigitChars_ten_toDigits] using hvalue

theorem blockName_ne_decisionName (i j : Nat) :
    blockName i ≠ decisionName j := by
  intro h
  have hchars := congrArg String.toList h
  simp [blockName, decisionName] at hchars

/-- The places that a walk visits, one step for each truth value, up to the
place from which no step leads on. -/
def trail {α : Type} (step : Bool → α → Option α) (a : α) : List Bool → List α
  | [] => [a]
  | v :: vs =>
    a :: match step v a with
      | none => []
      | some b => trail step b vs

/-- The successor that a condition selects under a truth value. -/
def Sense.select (sense : Sense) (v : Bool)
    (conditional fallthrough : Option Nat) : Option Nat :=
  match sense, v with
  | .whenTrue, true | .whenFalse, false => conditional
  | .whenTrue, false | .whenFalse, true | .none, _ => fallthrough

/-- The block that control reaches from a block under a truth value; `none` out
of the graph. -/
def ControlFlowGraph.next (g : ControlFlowGraph) (v : Bool) (i : Nat) :
    Option Nat := do
  let b ← g.blocks[i]?
  match b.branch with
  | none => g.destination b.fallthrough
  | some c =>
    c.sense.select v (g.destination b.conditional) (g.destination b.fallthrough)

namespace Diagram

/-- An edge as it is drawn. -/
structure Arrow where
  source : String
  target : String
  label : Option String
  deriving DecidableEq

/-- The edges among some statements, as they are drawn. -/
def arrows (ss : List Statement) : List Arrow :=
  ss.filterMap fun
    | .node _ _ => none
    | .edge source target truth =>
      some ⟨source.id, target.id, truth.map truthLabel⟩

/-- The edges that leave a node. -/
def leaving (ss : List Statement) (id : String) : List Arrow :=
  (arrows ss).filter fun a => a.source = id

/-- The id of the decision that goes with a block, from the id of the block. -/
def partner (id : String) : String := String.ofList ('D' :: id.toList.tail)

/-- Whether an edge may be taken under a truth value. -/
def Arrow.fits (v : Bool) (a : Arrow) : Bool :=
  a.label = none ∨ a.label = some (truthLabel v)

/-- The edges along which a reader may go on from the node of a block. -/
def choices (ss : List Statement) (v : Bool) (id : String) : List Arrow :=
  if (leaving ss id).any fun a => a.target = partner id then
    (leaving ss (partner id)).filter (Arrow.fits v)
  else (leaving ss id).filter fun a => a.label = none

/-- The node that a reader reaches from the node of a block. -/
def follow (ss : List Statement) (v : Bool) (id : String) : Option String :=
  (choices ss v id).head?.map Arrow.target

theorem partner_blockName
    (i : Nat) : partner (blockName i) = decisionName i := by
  apply String.toList_injective
  simp [partner, blockName, decisionName]

/-! ## Whose edges leave a node -/

theorem leaving_append (ss ts : List Statement) (id : String) :
    leaving (ss ++ ts) id = leaving ss id ++ leaving ts id := by
  simp [leaving, arrows]

/-- The nodes that a block is drawn as. -/
def drawnAs (i : Nat)
    (id : String) : Prop := id = blockName i ∨ id = decisionName i

theorem drawnAs_unique {i j : Nat} {id : String} (hi : drawnAs i id)
    (hj : drawnAs j id) :
    i = j := by
  rcases hi with rfl | rfl <;> rcases hj with h | h
  · exact name_injective h
  · exact absurd h (blockName_ne_decisionName i j)
  · exact absurd h.symm (blockName_ne_decisionName j i)
  · exact name_injective h

theorem source_of_mem_blockStatements {g : ControlFlowGraph} {i : Nat}
    {b : BasicBlock} {a : Arrow} (h : a ∈ arrows (blockStatements g i b)) :
    drawnAs i a.source := by
  obtain ⟨s, hs, ha⟩ := List.mem_filterMap.mp h
  unfold blockStatements at hs
  rcases List.mem_cons.mp hs with rfl | hs
  · simp at ha
  · cases hb : b.branch with
    | none =>
        rw [hb] at hs
        cases hd : g.destination b.fallthrough with
        | none => simp [hd, edgeTo] at hs
        | some k =>
            simp only [hd, edgeTo, List.mem_singleton] at hs
            subst hs
            cases ha
            exact .inl rfl
    | some c =>
        rw [hb] at hs
        rcases List.mem_append.mp hs with hs | hs
        · simp only [List.mem_cons, List.not_mem_nil, or_false] at hs
          rcases hs with rfl | rfl
          · simp at ha
          · cases ha
            exact .inl rfl
        · obtain ⟨t, -, ht⟩ := List.mem_flatMap.mp hs
          unfold edgeTo at ht
          split at ht
          · simp at ht
          · simp only [List.mem_singleton] at ht
            subst ht
            cases ha
            exact .inr rfl

theorem leaving_blockStatements_of_ne {g : ControlFlowGraph} {i j : Nat}
    {b : BasicBlock} {id : String} (hid : drawnAs j id) (hne : i ≠ j) :
    leaving (blockStatements g i b) id = [] := by
  apply List.filter_eq_nil_iff.mpr
  intro a ha hsource
  have hi := source_of_mem_blockStatements ha
  rw [of_decide_eq_true hsource] at hi
  exact hne (drawnAs_unique hi hid)

/-- If only one block gives something to a collection, then what is collected is
what this block gives. -/
theorem collected_statementsFrom {α : Type} (collect : List Statement → List α)
    (hnil : collect [] = [])
    (happend : ∀ ss ts, collect (ss ++ ts) = collect ss ++ collect ts)
    {g : ControlFlowGraph} {i : Nat}
    (hother : ∀ j b, j ≠ i → collect (blockStatements g j b) = [])
    (bs : List BasicBlock) (k : Nat) :
    collect (statementsFrom g k bs)
      = if i < k then [] else (bs[i - k]?).elim [] fun b =>
        collect (blockStatements g i b) := by
  induction bs generalizing k with
  | nil =>
      rw [statementsFrom, hnil, List.getElem?_nil, Option.elim_none, ite_self]
  | cons b bs ih =>
      rw [statementsFrom, happend, ih (k + 1)]
      rcases Nat.lt_trichotomy i k with hlt | rfl | hgt
      · rw [hother k b (by omega), if_pos hlt, if_pos (by omega)]
        rfl
      · rw [if_pos (by omega), if_neg (by omega)]
        simp
      · rw [hother k b (by omega), if_neg (by omega), if_neg (by omega),
          show i - k = i - (k + 1) + 1 by omega]
        rfl

theorem collected_statements {α : Type} (collect : List Statement → List α)
    (hnil : collect [] = [])
    (happend : ∀ ss ts, collect (ss ++ ts) = collect ss ++ collect ts)
    {g : ControlFlowGraph} {i : Nat}
    (hother : ∀ j b, j ≠ i → collect (blockStatements g j b) = []) :
    collect (statements g)
      = (g.blocks[i]?).elim [] fun b => collect (blockStatements g i b) := by
  rw [statements, collected_statementsFrom collect hnil happend hother,
    if_neg (Nat.not_lt_zero i), Nat.sub_zero]

/-- The edges that leave a node of a block are those that the block has
drawn. -/
theorem leaving_statements {g : ControlFlowGraph} {i : Nat} {id : String}
    (hid : drawnAs i id) :
    leaving (statements g) id
      = (g.blocks[i]?).elim [] fun b => leaving (blockStatements g i b) id :=
  collected_statements (leaving · id) rfl (leaving_append · · id)
    fun _ _ => leaving_blockStatements_of_ne hid

/-! ## The edges of one block -/

/-- An edge to a block, when there is one, as it is drawn. -/
def arrowTo (source : String) (label : Option String) : Option Nat → List Arrow
  | none => []
  | some i => [⟨source, blockName i, label⟩]

theorem arrows_edgeTo (source : Vertex) (target : Option Nat)
    (truth : Option Bool) :
    arrows (edgeTo source target truth)
      = arrowTo source.id (truth.map truthLabel) target := by
  cases target <;> rfl

theorem arrows_flatMap {α : Type} (xs : List α) (f : α → List Statement) :
    arrows (xs.flatMap f) = xs.flatMap fun x => arrows (f x) := by
  induction xs with
  | nil => rfl
  | cons x xs ih =>
      rw [List.flatMap_cons, List.flatMap_cons, ← ih]
      simp [arrows]

theorem arrows_blockStatements (g : ControlFlowGraph) (i : Nat)
    (b : BasicBlock) :
    arrows (blockStatements g i b)
      = match b.branch with
        | none => arrowTo (blockName i) none (g.destination b.fallthrough)
        | some c =>
          ⟨blockName i, decisionName i, none⟩ ::
            (ways c.sense (g.destination b.conditional)
              (g.destination b.fallthrough)).flatMap
              fun t => arrowTo (decisionName i) (t.2.map truthLabel) t.1 := by
  cases hb : b.branch with
  | none =>
      simp only [blockStatements, hb]
      exact arrows_edgeTo (.block i) _ none
  | some c =>
      simp only [blockStatements, hb]
      show _ :: arrows (List.flatMap _ _) = _
      simp only [arrows_flatMap, arrows_edgeTo]
      rfl

theorem filter_source_arrowTo (source id : String) (label : Option String)
    (target : Option Nat) :
    (arrowTo source label target).filter (fun a => a.source = id)
      = if source = id then arrowTo source label target else [] := by
  cases target with
  | none => simp [arrowTo]
  | some k => simp only [arrowTo]; split <;> simp [*]

theorem leaving_block (g : ControlFlowGraph) (i : Nat) (b : BasicBlock) :
    leaving (blockStatements g i b) (blockName i)
      = match b.branch with
        | none => arrowTo (blockName i) none (g.destination b.fallthrough)
        | some _ => [⟨blockName i, decisionName i, none⟩] := by
  rw [leaving, arrows_blockStatements]
  cases b.branch with
  | none => simp only [filter_source_arrowTo, if_pos]
  | some c =>
      have hne := Ne.symm (blockName_ne_decisionName i i)
      simp [List.filter_flatMap, filter_source_arrowTo, hne]

theorem leaving_decision (g : ControlFlowGraph) (i : Nat) (b : BasicBlock) :
    leaving (blockStatements g i b) (decisionName i)
      = match b.branch with
        | none => []
        | some c =>
          (ways c.sense (g.destination b.conditional)
            (g.destination b.fallthrough)).flatMap
            fun t => arrowTo (decisionName i) (t.2.map truthLabel) t.1 := by
  rw [leaving, arrows_blockStatements]
  have hne := blockName_ne_decisionName i i
  cases b.branch with
  | none => simp only [filter_source_arrowTo, if_neg hne]
  | some c => simp [List.filter_flatMap, filter_source_arrowTo, hne]

/-! ## One step, and the walk -/

/-- Of the edges that leave a decision, the one that fits a truth value leads
where the condition does. -/
theorem fitting_ways (sense : Sense) (v : Bool)
    (conditional fallthrough : Option Nat) (source : String) :
    (((ways sense conditional fallthrough).flatMap fun t =>
        arrowTo source (t.2.map truthLabel) t.1).filter
          (Arrow.fits v)).map Arrow.target
      = (sense.select v conditional fallthrough).toList.map blockName := by
  cases sense <;> cases v <;> cases conditional <;> cases fallthrough <;>
    simp [ways, arrowTo, Arrow.fits, Sense.select, truthLabel]

/-- A reader has the choice that the graph has: one node, or none. -/
theorem choices_statements (g : ControlFlowGraph) (v : Bool) (i : Nat) :
    (choices (statements g) v (blockName i)).map Arrow.target
      = (g.next v i).toList.map blockName := by
  rw [choices, partner_blockName, leaving_statements (.inl rfl),
    leaving_statements (.inr rfl)]
  unfold ControlFlowGraph.next
  cases g.blocks[i]? with
  | none => rfl
  | some b =>
      simp only [Option.elim_some, leaving_block, leaving_decision,
        Option.bind_eq_bind, Option.bind_some]
      cases b.branch with
      | none =>
          cases g.destination b.fallthrough with
          | none => rfl
          | some k => simp [arrowTo, blockName_ne_decisionName]
      | some c =>
          rw [if_pos (by simp)]
          exact fitting_ways c.sense v _ _ _

theorem follow_statements (g : ControlFlowGraph) (v : Bool) (i : Nat) :
    follow (statements g) v (blockName i) = (g.next v i).map blockName := by
  rw [follow, ← List.head?_map, choices_statements, List.head?_map]
  cases g.next v i <;> rfl

/-- At most one edge joins a block to its decision, and at most one edge fits
each step from the block on. -/
theorem step_unambiguous (g : ControlFlowGraph) (v : Bool) (i : Nat) :
    ((leaving (statements g) (blockName i)).filter
        fun a => a.target = decisionName i).length ≤ 1
      ∧ (choices (statements g) v (blockName i)).length ≤ 1 := by
  constructor
  · rw [leaving_statements (.inl rfl)]
    cases g.blocks[i]? with
    | none => simp
    | some b =>
        simp only [Option.elim_some, leaving_block]
        cases b.branch with
        | none =>
            refine Nat.le_trans (List.length_filter_le _ _) ?_
            cases g.destination b.fallthrough <;> simp [arrowTo]
        | some c => exact List.length_filter_le _ _
  · rw [← List.length_map Arrow.target, choices_statements, List.length_map]
    cases g.next v i <;> simp

/-- A reader of the diagram visits the blocks that the graph visits, whatever
truth values come in, and no step leaves a choice. -/
theorem trail_statements (g : ControlFlowGraph) (i : Nat) (w : List Bool) :
    (∀ v j, ((leaving (statements g) (blockName j)).filter
          fun a => a.target = decisionName j).length ≤ 1
        ∧ (choices (statements g) v (blockName j)).length ≤ 1)
      ∧ trail (follow (statements g)) (blockName i) w
        = (trail g.next i w).map blockName := by
  refine ⟨fun v j => step_unambiguous g v j, ?_⟩
  induction w generalizing i with
  | nil => rfl
  | cons v vs ih =>
      rw [trail, trail, follow_statements]
      cases g.next v i with
      | none => rfl
      | some j => simpa using ih j

end Diagram

end FlowAtlas
