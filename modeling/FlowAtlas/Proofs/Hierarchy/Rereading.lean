import FlowAtlas.Proofs.Hierarchy.RoundTrip
import FlowAtlas.Proofs.Json.Normal
import FlowAtlas.Snapshot.Source
import Mathlib.Data.List.Forall2

/-!
# Writing a snapshot again changes no graph

A snapshot that was read and is written again need not be the text that it was
read from, nor is the solution read from the new text the one that was written.
A record that was no graph because a member stands in it twice is kept as a
value with the last of the two, and that value may well be a graph; read again,
it is one. What a method is given for its graph is the same before and after,
because whoever asks for it takes the value for a graph in just the way in which
the new text is read.

Two things have to be known of a solution that was read. Each value among its
records is a normal one, so it is read as itself. And it has no more levels than
the text had left at its place; written again, it stands at the same depth. The
way from the root to a record has a fixed length whichever form the records
above it were written in, since an object and a list count one level each.

A double word is left out: it is printed with the fewest digits that identify
it, and reading those is no matter of the notation.
-/

namespace FlowAtlas

open Json

/-! ## What is read can be read again -/

theorem RecordedGraph.rereads_of_decode {n : Nat} {node : Node}
    {r : RecordedGraph} (hn : 4 ≤ n) (hnode : node.Exact) (hne : node ≠ .null)
    (h : RecordedGraph.decode (.text (n + 1)) node = .ok r) : r.Rereads n := by
  obtain ⟨value, hvalue, h⟩ := bind_eq_ok h
  split at h
  · -- A graph is written in its own form, whatever form it was read from.
    cases h
    exact (rereads_parsed _).mono hn
  · -- The value is read as itself, and then taken for a graph once more.
    cases h
    have hnormal := normal_of_decodeAny hnode hvalue
    refine ⟨hnormal.exact, decodeAny_ne_null hvalue hne, ?_⟩
    intro source hs
    rw [toJson, decode, hnormal.restores source hs, ok_bind, settled]
    cases ControlFlowGraph.decode .value (Node.ofJson value) with
    | ok g => rfl
    | error refusal => rfl

theorem Method.rereads_of_decode {n : Nat} {node : Node} {m : Method}
    (hn : 4 ≤ n) (hnode : node.Exact)
    (h : Method.record.decode (.text (n + 2)) node = .ok m) :
    m.Rereads n := by
  refine Record.of_decode hnode (fun r hr => by cases hr) ?_ h
  intro key node a b hnode ha hput
  simp only [Method.record] at hput
  split at hput
  · obtain ⟨_, -, rfl⟩ := map_eq_ok hput
    exact ha
  · obtain ⟨_, -, rfl⟩ := map_eq_ok hput
    exact ha
  · obtain ⟨recorded, hrecorded, rfl⟩ := map_eq_ok hput
    intro r hr
    obtain rfl : recorded = some r := hr
    obtain ⟨hne, hdecode⟩ := of_decodeOption hrecorded
    exact RecordedGraph.rereads_of_decode hn hnode hne hdecode
  · cases hput
    exact ha

theorem TypeDecl.rereads_of_decode {n : Nat} {node : Node} {t : TypeDecl}
    (hn : 4 ≤ n) (hnode : node.Exact)
    (h : TypeDecl.record.decode (.text (n + 4)) node = .ok t) :
    t.Rereads n := by
  refine Record.of_decode hnode (fun m hm => by cases hm) ?_ h
  intro key node a b hnode ha hput
  simp only [TypeDecl.record] at hput
  split at hput
  · obtain ⟨_, -, rfl⟩ := map_eq_ok hput
    exact ha
  · obtain ⟨_, -, rfl⟩ := map_eq_ok hput
    exact ha
  · obtain ⟨methods, hmethods, rfl⟩ := map_eq_ok hput
    exact of_decodeList (fun _ _ => Method.rereads_of_decode hn) hnode hmethods
  · cases hput
    exact ha

theorem Document.rereads_of_decode {n : Nat} {node : Node} {d : Document}
    (hn : 4 ≤ n) (hnode : node.Exact)
    (h : Document.record.decode (.text (n + 6)) node = .ok d) :
    d.Rereads n := by
  have hblank : Document.Rereads n Document.record.blank :=
    ⟨fun t ht => (by cases ht), fun m hm => by cases hm⟩
  refine Record.of_decode hnode hblank ?_ h
  intro key node a b hnode ha hput
  simp only [Document.record] at hput
  split at hput
  · obtain ⟨_, -, rfl⟩ := map_eq_ok hput
    exact ha
  · obtain ⟨types, htypes, rfl⟩ := map_eq_ok hput
    exact ⟨of_decodeList (fun _ _ => TypeDecl.rereads_of_decode hn)
      hnode htypes, ha.2⟩
  · obtain ⟨methods, hmethods, rfl⟩ := map_eq_ok hput
    exact ⟨ha.1, of_decodeList (fun _ _ => Method.rereads_of_decode (by omega))
      hnode hmethods⟩
  · cases hput
    exact ha

theorem Project.rereads_of_decode {n : Nat} {node : Node} {p : Project}
    (hn : 4 ≤ n) (hnode : node.Exact)
    (h : Project.record.decode (.text (n + 8)) node = .ok p) :
    p.Rereads n := by
  refine Record.of_decode hnode (fun d hd => by cases hd) ?_ h
  intro key node a b hnode ha hput
  simp only [Project.record] at hput
  split at hput
  · obtain ⟨_, -, rfl⟩ := map_eq_ok hput
    exact ha
  · obtain ⟨documents, hdocuments, rfl⟩ := map_eq_ok hput
    exact of_decodeList (fun _ _ => Document.rereads_of_decode hn)
      hnode hdocuments
  · obtain ⟨_, -, rfl⟩ := map_eq_ok hput
    exact ha
  · cases hput
    exact ha

theorem Solution.rereads_of_decode {n : Nat} {node : Node} {s : Solution}
    (hn : 4 ≤ n) (hnode : node.Exact)
    (h : Solution.record.decode (.text (n + 10)) node = .ok s) :
    s.Rereads n := by
  refine Record.of_decode hnode (fun p hp => by cases hp) ?_ h
  intro key node a b hnode ha hput
  simp only [Solution.record] at hput
  split at hput
  · obtain ⟨_, -, rfl⟩ := map_eq_ok hput
    exact ha
  · obtain ⟨projects, hprojects, rfl⟩ := map_eq_ok hput
    exact of_decodeList (fun _ _ => Project.rereads_of_decode hn)
      hnode hprojects
  · cases hput
    exact ha

/-- A solution that was read from a text of whole numbers can be written and is
read back settled. -/
theorem Solution.settled_reads_back {text : String} {s : Solution}
    (hread : Solution.ofText text = .ok s)
    (hwhole : ∀ k ∈ (Reading.of text.toList).root.numbers, k.isWhole = true) :
    Solution.ofText s.toText = .ok s.settled := by
  -- Nine levels lie above the record of a method of a type, and the last of the
  -- 128 is never entered.
  have hrereads : s.Rereads 118 :=
    Solution.rereads_of_decode (by decide) (Reading.exact_root hwhole)
      (of_decodeText hread)
  exact hrereads.restores.decodeText_compact hrereads.exact_toJson (by decide)

/-! ## The graphs of two solutions -/

theorem RecordedGraph.read_settled (r : RecordedGraph) (method : String) :
    r.settled.read method = r.read method := by
  cases r with
  | parsed g => rfl
  | raw value =>
      cases hvalue : ControlFlowGraph.decode .value (Node.ofJson value) with
      | ok g => simp only [settled, read, hvalue]
      | error refusal => simp only [settled, read, hvalue]

theorem Snapshot.graphOf_settled (p : Project) (d : Document) (m : Method) :
    graphOf p.settled d.settled m.settled = graphOf p d m := by
  obtain ⟨name, hasBody, recorded⟩ := m
  cases hasBody with
  | false => cases recorded <;> rfl
  | true =>
      cases recorded with
      | none => rfl
      | some r =>
          simp only [graphOf, Method.settled, Option.map_some, r.read_settled]
          rfl

/-- Two solutions have the same projects, documents, types and methods as far as
their number and order go, and what the one gives for the graph of a method, be
it a graph or a fault, the other gives for the method at the same position. -/
def Solution.SameGraphs (s s' : Solution) : Prop :=
  List.Forall₂ (fun p p' =>
    List.Forall₂ (fun d d' =>
      List.Forall₂ (fun t t' =>
        List.Forall₂ (fun m m' =>
          Snapshot.graphOf p d m = Snapshot.graphOf p' d' m')
          t.methods t'.methods) d.types d'.types
      ∧ List.Forall₂ (fun m m' =>
          Snapshot.graphOf p d m = Snapshot.graphOf p' d' m')
          d.methods d'.methods) p.documents p'.documents) s.projects s'.projects

theorem forall₂_map {α : Type} {R : α → α → Prop} {f : α → α} {as : List α}
    (h : ∀ a ∈ as, R a (f a)) : List.Forall₂ R as (as.map f) :=
  List.forall₂_map_right_iff.2 (List.forall₂_same.2 h)

theorem Solution.sameGraphs_settled (s : Solution) :
    s.SameGraphs s.settled := by
  refine forall₂_map fun p _ => forall₂_map fun d _ => ⟨?_, ?_⟩
  · refine forall₂_map fun t _ => forall₂_map fun m _ => ?_
    exact (Snapshot.graphOf_settled p d m).symm
  · refine forall₂_map fun m _ => ?_
    exact (Snapshot.graphOf_settled p d m).symm

/-- A snapshot of whole numbers that is read and written again is read once
more, and no method is given another graph or another fault for it. -/
theorem Solution.rewriting_keeps_graphs {text : String} {s : Solution}
    (hread : Solution.ofText text = .ok s)
    (hwhole : ∀ k ∈ (Reading.of text.toList).root.numbers, k.isWhole = true) :
    ∃ s', Solution.ofText s.toText = .ok s' ∧ s.SameGraphs s' :=
  ⟨s.settled, Solution.settled_reads_back hread hwhole, s.sameGraphs_settled⟩

/-- A snapshot whose three methods record a graph with two lists of blocks, a
graph written as lists only, and something that is no graph. -/
def Solution.untidyJson : Json :=
  .object [("projects", .array [.object [
    ("name", .string "shop"),
    ("documents", .array [.object [
      ("name", .string "Cart.cs"),
      ("methods", .array [
        .object [
          ("cfg", .object [("blocks", .string "none"), ("blocks", .array [])]),
          ("name", .string "twice")],
        .array [.string "listed", .bool true,
          .array [.array
            [.array [.array [.string "total = 0"], .null,
              .number (.whole 7)]]]],
        .object [
          ("name", .string "broken"),
          ("cfg", .object
            [("size", .number (.whole 2)), ("blocks", .bool false)])]])]])]])]

/-- What that snapshot is read as. -/
def Solution.untidySolution : Solution where
  projects := [{
    name := "shop"
    documents := [{
      name := "Cart.cs"
      methods := [
        { name := "twice",
          recorded := some (.raw (.object [("blocks", .array [])])) },
        { name := "listed"
          recorded := some (.parsed ⟨[
            { operations := ["total = 0"]
              fallthrough := some (.block 7) }]⟩) },
        { name := "broken"
          recorded := some (.raw (.object
            [("blocks", .bool false), ("size", .number (.whole 2))])) }] }] }]

theorem Solution.untidySnapshot_keeps_graphs :
    ofText untidyJson.compact = .ok untidySolution
      ∧ (∀ k ∈ (Reading.of untidyJson.compact.toList).root.numbers,
        k.isWhole = true)
      ∧ untidySolution.settled ≠ untidySolution
      ∧ ∃ s', ofText untidySolution.toText = .ok s'
      ∧ untidySolution.SameGraphs s' := by
  have hexact : Exact untidyJson := by
    simp [untidyJson, Exact, ExactItems, ExactMembers, Number.Exact,
      Numeral.wordMax]
  have hread : ofText untidyJson.compact = .ok untidySolution := by
    rw [ofText, decodeText_compact hexact]
    decide
  have hwhole : ∀ k ∈ (Reading.of untidyJson.compact.toList).root.numbers,
      k.isWhole = true := by
    rw [compact, String.toList_ofList,
      reading_of_writes (writes_compactChars hexact)]
    decide
  exact ⟨hread, hwhole, by decide, rewriting_keeps_graphs hread hwhole⟩

end FlowAtlas
