import FlowAtlas.Proofs.Architecture.Flat
import Mathlib.Data.List.Flatten
import Mathlib.Data.List.Infix

/-!
# Raising a bound only adds lines

The walk through a project spends its budgets as it goes, so what one document
may show depends on what the documents before it have used up, and an id is
minted from a counter that all of them share. In the account without counters
there is nothing to spend: the kept types are the beginning of one list, and an
id is a place in that list. With higher bounds the beginning is longer and the
places are the same.

So every group of edges is looked at once, from the inside out. What is numbered
grows at its end and keeps its numbers. Handing the items out to their documents
puts new ones between old ones, and from there on it is the order that is kept.
-/

namespace FlowAtlas.Architecture

/-- Bounds of which none exceeds the other one in its place. -/
structure Bounds.AtMost (bounds more : Bounds) : Prop where
  docs : bounds.docsPerProject ≤ more.docsPerProject
  types : bounds.typesPerProject ≤ more.typesPerProject
  methods : bounds.methodsPerType ≤ more.methodsPerType
  topMethods : bounds.topLevelMethods ≤ more.topLevelMethods

/-! ## What is numbered -/

section

variable {α : Type} {as as' : List α}

theorem prefix_zipIdx (h : as <+: as') (n : Nat) :
    as.zipIdx n <+: as'.zipIdx n := by
  obtain ⟨rest, rfl⟩ := h
  rw [List.zipIdx_append]
  exact List.prefix_append _ _

/-- The edges to more children begin with the edges to the first ones. -/
theorem prefix_fan {source : Vertex} {child : Nat → Vertex} {label : α → String}
    (h : as <+: as') :
    fan source child label 0 as <+: fan source child label 0 as' :=
  (prefix_zipIdx h 0).map _

/-- What is kept of the items of more documents begins with what was kept of
them before. -/
theorem prefix_kept {items : Document → List α} {docs docs' : List Document}
    {bound bound' : Nat} (hdocs : docs <+: docs') (hbound : bound ≤ bound') :
    (pool items 0 docs).take bound <+: (pool items 0 docs').take bound' := by
  have hpool : pool items 0 docs <+: pool items 0 docs' :=
    (prefix_zipIdx hdocs 0).flatMap _
  exact (hpool.take bound).trans (List.take_prefix_take_left hbound)

/-- Out of a longer list a document gets what it got before, under the same
numbers. -/
theorem share_sublist (k : Nat) {kept kept' : List (Nat × α)}
    (h : kept <+: kept') :
    (share k kept.zipIdx).Sublist (share k kept'.zipIdx) :=
  ((prefix_zipIdx h 0).sublist.filter _).map _

end

/-! ## The groups of edges -/

section

variable {bounds more : Bounds} {p : Nat}

theorem prefix_flatType (h : bounds.AtMost more) (c : Nat) (t : TypeDecl) :
    flatType bounds p c t <+: flatType more p c t :=
  (List.prefix_append_right_inj _).2
    (prefix_fan (List.take_prefix_take_left h.methods))

theorem shares_sublist (h : bounds.AtMost more) {n n' : Nat} (hn : n ≤ n')
    {types types' : List (Nat × TypeDecl)}
    {methods methods' : List (Nat × Method)} (htypes : types <+: types')
    (hmethods : methods <+: methods') :
    (shares bounds p (List.range n) types.zipIdx methods.zipIdx).Sublist
      (shares more p (List.range n') types'.zipIdx methods'.zipIdx) := by
  have hdocument : ∀ k ∈ List.range n,
      (((share k types.zipIdx).flatMap fun t => flatType bounds p t.2 t.1)
          ++ (share k methods.zipIdx).map fun m =>
            declare (.project p) (.topMethod p m.2) (topLabel m.1)).Sublist
        (((share k types'.zipIdx).flatMap fun t => flatType more p t.2 t.1)
          ++ (share k methods'.zipIdx).map fun m =>
            declare (.project p) (.topMethod p m.2) (topLabel m.1)) := by
    intro k _
    refine List.Sublist.append ?_ ((share_sublist k hmethods).map _)
    exact (List.Sublist.flatMap_right _ fun t _ =>
      (prefix_flatType h t.2 t.1).sublist).trans
      ((share_sublist k htypes).flatMap _)
  exact (List.Sublist.flatMap_right _ hdocument).trans
    ((List.range_sublist.2 hn).flatMap _)

theorem flatProject_sublist (h : bounds.AtMost more) (project : Project) :
    (flatProject bounds p project).Sublist (flatProject more p project) := by
  have hdocs : project.documents.take bounds.docsPerProject
      <+: project.documents.take more.docsPerProject :=
    List.take_prefix_take_left h.docs
  refine List.Sublist.append
    (List.Sublist.append (List.Sublist.append (List.Sublist.refl _) ?_) ?_)
    (List.Sublist.refl _)
  · exact (prefix_fan hdocs).sublist
  · exact shares_sublist h hdocs.length_le (prefix_kept hdocs h.types)
      (prefix_kept hdocs h.topMethods)

theorem edges_sublist (h : bounds.AtMost more) (solution : Solution)
    (filter : Option String) :
    (edges solution bounds filter).Sublist (edges solution more filter) := by
  rw [edges_eq, edges_eq]
  refine List.Sublist.append (List.Sublist.append (List.Sublist.refl _) ?_)
    (List.Sublist.refl _)
  exact List.Sublist.flatMap_right _ fun q _ => flatProject_sublist h q.1

end

/-! ## The text -/

/-- An id is declared once at most, so it has one label at most. -/
theorem length_labelsIn_le (solution : Solution) (bounds : Bounds)
    (filter : Option String) (id : String) :
    (labelsIn (markup solution bounds filter) id).length ≤ 1 := by
  have hnodup :
      (declaredIds (arrowsIn (markup solution bounds filter))).Nodup := by
    rw [arrowsIn_markup, declaredIds_told]
    exact (nodup_edges solution bounds filter).map fun _ _ =>
      Vertex.id_injective
  have hcount := List.nodup_iff_count_le_one.1 hnodup id
  rw [declaredIds, List.count, List.countP_map,
    List.countP_eq_length_filter] at hcount
  rwa [labelsIn, List.length_map]

/-- With higher bounds the markup has the same lines in the same order and maybe
others between them, and an id that was declared still has the label that it
had. -/
theorem raised_bounds_add_lines {bounds more : Bounds} (h : bounds.AtMost more)
    (solution : Solution) (filter : Option String) :
    (Text.lines (markup solution bounds filter)).Sublist
        (Text.lines (markup solution more filter))
      ∧ ∀ id label, label ∈ labelsIn (markup solution bounds filter) id →
        labelsIn (markup solution more filter) id = [label] := by
  have hedges := edges_sublist h solution filter
  refine ⟨?_, fun id label hlabel => ?_⟩
  · rw [lines_markup, lines_markup]
    exact ((hedges.map _).cons_cons _).append (List.Sublist.refl _)
  · have hlabels : (labelsIn (markup solution bounds filter) id).Sublist
        (labelsIn (markup solution more filter) id) := by
      rw [labelsIn, labelsIn, arrowsIn_markup, arrowsIn_markup]
      exact (((hedges.map _).flatMap _).filter _).map _
    have hmem := hlabels.subset hlabel
    obtain ⟨found, hfound⟩ := List.length_eq_one_iff.1
      (Nat.le_antisymm (length_labelsIn_le solution more filter id)
        (List.length_pos_of_mem hmem))
    rw [hfound, List.mem_singleton] at hmem
    rw [hfound, hmem]

/-- With the default bounds the third type is shown as well, and the second one
is where it was. -/
theorem spread_types_stay :
    spreadBounds.AtMost {}
      ∧ (Text.lines (markup ⟨"", [spreadProject]⟩ spreadBounds none)).Sublist
        (Text.lines (markup ⟨"", [spreadProject]⟩ {} none))
      ∧ labelsIn (markup ⟨"", [spreadProject]⟩ spreadBounds none)
        (Vertex.typeDecl 0 2).id = []
      ∧ labelsIn (markup ⟨"", [spreadProject]⟩ {} none) (Vertex.typeDecl 0 2).id
        = ["Class: C"]
      ∧ labelsIn (markup ⟨"", [spreadProject]⟩ {} none) (Vertex.typeDecl 0 1).id
        = ["Class: B"] := by
  have hbounds : spreadBounds.AtMost {} := by constructor <;> decide
  have hread : ∀ (bounds : Bounds) (c : Nat),
      labelsIn (markup ⟨"", [spreadProject]⟩ bounds none)
          (Vertex.typeDecl 0 c).id
        = (((((spreadProject.documents.take bounds.docsPerProject).flatMap
            Document.types).take bounds.typesPerProject)[c]?.map
              typeLabel).map Text.inLabel).toList := by
    intro bounds c
    have hproject : (Solution.matching ⟨"", [spreadProject]⟩ none)[0]?
        = some spreadProject := rfl
    exact labelsIn_markup fun label =>
      (declares_edges hproject rfl).trans declares_typeDecl
  obtain ⟨hlines, hlabels⟩ :=
    raised_bounds_add_lines hbounds ⟨"", [spreadProject]⟩ none
  refine ⟨hbounds, hlines, (hread _ 2).trans (by decide),
    (hread _ 2).trans (by decide), ?_⟩
  refine hlabels _ "Class: B" ?_
  rw [hread]
  decide

end FlowAtlas.Architecture
