import FlowAtlas.Proofs.Graph.Recorded
import FlowAtlas.Proofs.Run.Warnings

/-!
# Which graphs a snapshot hands out

A method gets its graph if it has a body, a graph was recorded for it, the
record can be read, and the graph that is read is a valid one. Otherwise
something stands in the way, and the four things that can are told apart by the
kind of the fault (`Snapshot.Obstacle`).

The fault is made where the obstacle is met, in one of three places, and each of
them knows something else about the method. What it does not know is added on
the way back, behind what is there already. A look-up takes the first entry
under a key, so the entries that were there must not use the keys that are still
to come. That is what the laws of `valueOf?` are for: an entry under another key
hides nothing, and neither does an operation that is replaced.
-/

namespace FlowAtlas

/-! ## Valid graphs -/

namespace ControlFlowGraph

/-- Every block with a conditional successor has a condition that selects it. -/
def Guarded (g : ControlFlowGraph) : Prop :=
  ∀ b ∈ g.blocks, b.conditional.isSome = true → b.branch.isSome = true

/-- The block at a position has a conditional successor and no condition, and no
block in front of it is like that. -/
structure FirstUnguarded (g : ControlFlowGraph) (index : Nat) : Prop where
  here : ∃ b, g.blocks[index]? = some b ∧ b.conditional.isSome = true
    ∧ b.branch = none
  before : ∀ j < index, ∀ b, g.blocks[j]? = some b →
    b.conditional.isSome = true → b.branch.isSome = true

theorem unguarded_eq_true_iff {b : BasicBlock} :
    unguarded b = true ↔ b.conditional.isSome = true ∧ b.branch = none := by
  rw [unguarded, Bool.and_eq_true, Option.isNone_iff_eq_none]

theorem unguarded_eq_false_iff {b : BasicBlock} :
    unguarded b = false
      ↔ (b.conditional.isSome = true → b.branch.isSome = true) := by
  rw [← Bool.not_eq_true, unguarded_eq_true_iff, not_and, ← ne_eq,
    ← Option.isSome_iff_ne_none]

theorem firstUnguarded?_eq_none_iff {g : ControlFlowGraph} :
    g.firstUnguarded? = none ↔ g.Guarded := by
  rw [firstUnguarded?, List.findIdx?_eq_none_iff]
  exact forall₂_congr fun b _ => unguarded_eq_false_iff

theorem firstUnguarded_of_eq_some {g : ControlFlowGraph} {index : Nat}
    (h : g.firstUnguarded? = some index) : g.FirstUnguarded index := by
  rw [firstUnguarded?, List.findIdx?_eq_some_iff_getElem] at h
  obtain ⟨hlt, hhere, hbefore⟩ := h
  refine ⟨⟨_, List.getElem?_eq_getElem hlt, unguarded_eq_true_iff.1 hhere⟩, ?_⟩
  intro j hj b hb
  obtain ⟨hjlt, rfl⟩ := List.getElem?_eq_some_iff.1 hb
  exact unguarded_eq_false_iff.1 (Bool.not_eq_true _ ▸ hbefore j hj)

theorem check_eq_ok_iff {g : ControlFlowGraph} :
    g.check = .ok () ↔ g.blocks.length ≤ blockLimit ∧ g.Guarded := by
  rw [check, ← firstUnguarded?_eq_none_iff]
  split
  · next hlarge =>
      exact iff_of_false (fun h => by cases h) fun h => absurd h.1 (by omega)
  · next hfits =>
      cases g.firstUnguarded? with
      | none => exact iff_of_true rfl ⟨by omega, rfl⟩
      | some index =>
          exact iff_of_false (fun h => by cases h)
            fun h => Option.some_ne_none _ h.2

/-- What the check of a graph finds fault with: its size, or its first block of
the kind that must not be. It says so and says nothing about where the graph
comes from. -/
theorem of_check_eq_error {g : ControlFlowGraph} {fault : Fault}
    (h : g.check = .error fault) :
    fault.kind = .invariantViolation ∧ fault.status = .recoverable
      ∧ fault.valueOf? "document" = none ∧ fault.valueOf? "method" = none
      ∧ (blockLimit < g.blocks.length
          ∧ fault.valueOf? "blocks" = some (toString g.blocks.length)
        ∨ g.blocks.length ≤ blockLimit
          ∧ ∃ index, g.FirstUnguarded index
          ∧ fault.valueOf? "block" = some (blockName index)) := by
  rw [check] at h
  split at h
  · next hlarge =>
      obtain rfl := Except.error.inj h
      exact ⟨rfl, rfl, rfl, rfl, .inl ⟨hlarge, rfl⟩⟩
  · next hfits =>
      split at h
      · cases h
      · next index hfirst =>
          obtain rfl := Except.error.inj h
          exact ⟨rfl, rfl, rfl, rfl,
            .inr ⟨by omega, index, firstUnguarded_of_eq_some hfirst, rfl⟩⟩

end ControlFlowGraph

/-! ## Handing out a graph -/

/-- A record that cannot be read is reported without the document. -/
theorem RecordedGraph.valueOf?_document_of_read {r : RecordedGraph}
    {method : String} {fault : Fault} (h : r.read method = .error fault) :
    fault.valueOf? "document" = none := by
  unfold read at h
  split at h
  · exact nomatch h
  · split at h
    · exact nomatch h
    · obtain rfl := Except.error.inj h
      rfl

namespace Snapshot

/-- What stands in the way of the graph of a method, and how the fault tells. -/
inductive Obstacle (m : Method) (fault : Fault) : Prop where
  /-- There is nothing to draw, or nothing was recorded. -/
  | unavailable (hkind : fault.kind = .graphUnavailable)
      (hnone : m.hasBody = false ∨ m.recorded = none)
  /-- The record is not that of a graph. -/
  | unreadable {r : RecordedGraph} (hkind : fault.kind = .graphBuildFailed)
      (hbody : m.hasBody = true) (hrecorded : m.recorded = some r)
      (hread : ∀ g, r.read m.name ≠ .ok g)
  /-- The graph has more blocks than there are names for. -/
  | tooLarge {r : RecordedGraph} {g : ControlFlowGraph}
      (hkind : fault.kind = .invariantViolation) (hbody : m.hasBody = true)
      (hrecorded : m.recorded = some r) (hread : r.read m.name = .ok g)
      (hlarge : ControlFlowGraph.blockLimit < g.blocks.length)
      (hblocks : fault.valueOf? "blocks" = some (toString g.blocks.length))
  /-- The graph has a block with a conditional successor and no condition. -/
  | unguarded {r : RecordedGraph} {g : ControlFlowGraph} {index : Nat}
      (hkind : fault.kind = .invariantViolation)
      (hbody : m.hasBody = true) (hrecorded : m.recorded = some r)
      (hread : r.read m.name = .ok g)
      (hfits : g.blocks.length ≤ ControlFlowGraph.blockLimit)
      (hfirst : g.FirstUnguarded index)
      (hblock : fault.valueOf? "block" = some (blockName index))

/-- A fault of handing out the graph of a method, that does not end the run. -/
structure Names (d : Document) (m : Method) (fault : Fault) : Prop where
  status : fault.status = .recoverable
  operation : fault.operation = "snapshot::control_flow_graph"
  document : fault.valueOf? "document" = some d.name
  method : fault.valueOf? "method" = some m.name

/-- The fault of a record that cannot be read is given the document. -/
theorem names_of_read {d : Document} {m : Method} {r : RecordedGraph}
    {fault : Fault} (h : r.read m.name = .error fault) :
    Names d m
      ((fault.addOperation graphOperation).addContext "document" d.name) where
  status :=
    (Fault.status_addOperation fault graphOperation).trans
      (r.fault_of_read h).2.1
  operation := rfl
  document := Fault.valueOf?_addContext_of_none
    ((Fault.valueOf?_addOperation (by decide) _).trans
      (r.valueOf?_document_of_read h)) _
  method := by
    rw [Fault.valueOf?_addContext_of_ne (by decide),
      Fault.valueOf?_addOperation (by decide), (r.fault_of_read h).2.2]

/-- What a fault says about blocks is not hidden by what is added to it. -/
theorem valueOf?_annotated {fault : Fault} {wanted document : String}
    (hcalled : wanted ≠ Fault.calledKey) (hdocument : wanted ≠ "document") :
    ((fault.addOperation graphOperation).addContext "document"
        document).valueOf? wanted
      = fault.valueOf? wanted := by
  rw [Fault.valueOf?_addContext_of_ne hdocument,
    Fault.valueOf?_addOperation hcalled]

/-- The fault of a graph that is not valid is given the document and the
method. -/
theorem names_of_check {d : Document} {m : Method} {g : ControlFlowGraph}
    {fault : Fault} (h : g.check = .error fault) :
    Names d m
      (((fault.addOperation graphOperation).addContext
        "document" d.name).addContext "method" m.name) := by
  obtain ⟨-, hstatus, hdocument, hmethod, -⟩ :=
    ControlFlowGraph.of_check_eq_error h
  refine ⟨(Fault.status_addOperation fault graphOperation).trans hstatus,
    rfl, ?_, ?_⟩
  · rw [Fault.valueOf?_addContext_of_ne (by decide)]
    exact Fault.valueOf?_addContext_of_none
      ((Fault.valueOf?_addOperation (by decide) _).trans hdocument) _
  · exact Fault.valueOf?_addContext_of_none
      ((valueOf?_annotated (by decide) (by decide)).trans hmethod) _

section

variable {p : Project} {d : Document} {m : Method} {r : RecordedGraph}

/-- With a body and a record it is the record that decides. -/
theorem graphOf_of_recorded (hbody : m.hasBody = true)
    (hrecorded : m.recorded = some r) :
    graphOf p d m = ((r.read m.name).mapError fun f =>
      (f.addOperation graphOperation).addContext "document" d.name) >>= fun g =>
        (g.check.mapError fun f =>
          ((f.addOperation graphOperation).addContext "document"
            d.name).addContext
            "method" m.name) >>= fun _ => pure g := by
  rw [graphOf, hbody, hrecorded]

theorem graphOf_of_check_eq_ok {g : ControlFlowGraph} (hbody : m.hasBody = true)
    (hrecorded : m.recorded = some r) (hread : r.read m.name = .ok g)
    (hcheck : g.check = .ok ()) :
    graphOf p d m = .ok g := by
  rw [graphOf_of_recorded hbody hrecorded, hread]
  show (g.check.mapError _ >>= fun _ => pure g) = Except.ok g
  rw [hcheck]
  rfl

theorem graphOf_of_check_eq_error {g : ControlFlowGraph} {fault : Fault}
    (hbody : m.hasBody = true) (hrecorded : m.recorded = some r)
    (hread : r.read m.name = .ok g) (hcheck : g.check = .error fault) :
    graphOf p d m = .error (((fault.addOperation graphOperation).addContext
      "document" d.name).addContext "method" m.name) := by
  rw [graphOf_of_recorded hbody hrecorded, hread]
  show (g.check.mapError _ >>= fun _ => pure g) = _
  rw [hcheck]
  rfl

theorem obstacle_of_read (hbody : m.hasBody = true)
    (hrecorded : m.recorded = some r) {fault : Fault}
    (hread : r.read m.name = .error fault) :
    Obstacle m
      ((fault.addOperation graphOperation).addContext "document" d.name) := by
  refine .unreadable ?_ hbody hrecorded fun g hg => ?_
  · rw [Fault.kind_addContext, Fault.kind_addOperation,
      (r.fault_of_read hread).1]
  · exact nomatch hread.symm.trans hg

theorem obstacle_of_check {g : ControlFlowGraph} {fault : Fault}
    (hbody : m.hasBody = true) (hrecorded : m.recorded = some r)
    (hread : r.read m.name = .ok g) (hcheck : g.check = .error fault) :
    Obstacle m
      (((fault.addOperation graphOperation).addContext
        "document" d.name).addContext "method" m.name) := by
  obtain ⟨hkind, -, -, -, hreason⟩ := ControlFlowGraph.of_check_eq_error hcheck
  have hkind' := (Fault.kind_addOperation fault graphOperation).trans hkind
  rcases hreason with ⟨hlarge, hblocks⟩ | ⟨hfits, index, hfirst, hblock⟩
  · refine .tooLarge hkind' hbody hrecorded hread hlarge ?_
    rw [Fault.valueOf?_addContext_of_ne (by decide),
      valueOf?_annotated (by decide) (by decide), hblocks]
  · refine .unguarded hkind' hbody hrecorded hread hfits hfirst ?_
    rw [Fault.valueOf?_addContext_of_ne (by decide),
      valueOf?_annotated (by decide) (by decide), hblock]

/-- A method has a valid graph, or something stands in the way and is told. -/
theorem graphOf_cases (p : Project) (d : Document) (m : Method) :
    (∃ r g, graphOf p d m = .ok g ∧ m.hasBody = true ∧ m.recorded = some r
        ∧ r.read m.name = .ok g ∧ g.check = .ok ())
      ∨ ∃ fault, graphOf p d m = .error fault ∧ Names d m fault
        ∧ Obstacle m fault := by
  cases hbody : m.hasBody with
  | false =>
      refine .inr ⟨_, by rw [graphOf, hbody], ⟨rfl, rfl, rfl, rfl⟩, ?_⟩
      exact .unavailable rfl (.inl hbody)
  | true =>
      cases hrecorded : m.recorded with
      | none =>
          refine .inr
            ⟨_, by rw [graphOf, hbody, hrecorded], ⟨rfl, rfl, rfl, rfl⟩, ?_⟩
          exact .unavailable rfl (.inr hrecorded)
      | some r =>
          cases hread : r.read m.name with
          | error fault =>
              refine .inr
                ⟨_, ?_, names_of_read hread,
                  obstacle_of_read hbody hrecorded hread⟩
              rw [graphOf_of_recorded hbody hrecorded, hread]
              rfl
          | ok g =>
              cases hcheck : g.check with
              | ok u =>
                  exact .inl
                    ⟨r, g, graphOf_of_check_eq_ok hbody hrecorded hread hcheck,
                      rfl, rfl, hread, hcheck⟩
              | error fault =>
                  exact .inr
                    ⟨_, graphOf_of_check_eq_error hbody hrecorded hread hcheck,
                      names_of_check hcheck,
                      obstacle_of_check hbody hrecorded hread hcheck⟩

end

/-- A snapshot hands out exactly the recorded graphs that can be read and are
valid. For every other method it says which one it is, and what stands in the
way. -/
theorem graphs_handed_out (p : Project) (d : Document) (m : Method) :
    (∀ g, graphOf p d m = .ok g
        ↔ m.hasBody = true ∧ (∃ r, m.recorded = some r ∧ r.read m.name = .ok g)
          ∧ g.blocks.length ≤ ControlFlowGraph.blockLimit ∧ g.Guarded)
      ∧ ∀ fault, graphOf p d m = .error fault →
        Names d m fault ∧ Obstacle m fault := by
  refine ⟨fun g => ?_, fun fault h => ?_⟩
  · rw [← ControlFlowGraph.check_eq_ok_iff]
    refine ⟨fun h => ?_, fun ⟨hbody, ⟨r, hrecorded, hread⟩, hcheck⟩ =>
      graphOf_of_check_eq_ok hbody hrecorded hread hcheck⟩
    rcases graphOf_cases p d m with
      ⟨r, g', hgraph, hbody, hrecorded, hread, hcheck⟩
      | ⟨fault, hfault, -⟩
    · obtain rfl := Except.ok.inj (hgraph.symm.trans h)
      exact ⟨hbody, ⟨r, hrecorded, hread⟩, hcheck⟩
    · exact nomatch hfault.symm.trans h
  · rcases graphOf_cases p d m with ⟨r, g, hgraph, -⟩ | ⟨fault', hfault, htold⟩
    · exact nomatch hgraph.symm.trans h
    · obtain rfl := Except.error.inj (hfault.symm.trans h)
      exact htold

end Snapshot

end FlowAtlas
