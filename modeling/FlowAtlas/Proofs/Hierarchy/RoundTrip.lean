import FlowAtlas.Hierarchy.Codec
import FlowAtlas.Proofs.Json.Decoding

/-!
# A snapshot is read back as the solution that was written

One law for each kind of value in the hierarchy, from the conditions of a graph
up to the solution. A record has the same shape of proof everywhere: its members
are stored one after the other, and each of them gives back the field it was
written from. What differs is where a field may be left out when it is written,
and there the cases are the ones of the writer.

A recorded graph is the one value that is read twice, first as a value of any
kind and then as a graph. It is restored because the first reading succeeds,
whatever it gives, and the second one decides. A record that is no graph is read
as a value, and such a value need not come out as it went in. So the laws of the
hierarchy ask that each record can be read back, and how many levels that takes
(`RecordedGraph.Rereads`). What comes back is settled: a record that can be
taken for a graph has become that graph, and all else is as it was written.
-/

namespace FlowAtlas

open Json

/-! ## Graphs -/

theorem Successor.exact_toJson (s : Successor) : Exact s.toJson := by
  cases s with
  | exit => trivial
  | block index =>
      have hlt : index.toNat < 2 ^ 32 := index.toNat_lt
      show -((Nat.pow 2 63 : Nat) : Int) ≤ _
        ∧ _ ≤ ((Numeral.wordMax : Nat) : Int)
      have hword : 2 ^ 32 ≤ Numeral.wordMax := by decide
      omega

theorem Successor.toJson_ne_null (s : Successor) : s.toJson ≠ .null := by
  cases s <;> exact Json.noConfusion

theorem Successor.within_toJson (s : Successor) (n : Nat) :
    Within n s.toJson := by
  cases s with
  | exit => exact .string _
  | block index => exact .number _

theorem Successor.restores (s : Successor) :
    Restores Successor.decode 0 s.toJson s := by
  intro source _
  cases s with
  | exit => rfl
  | block index =>
      have hlt : index.toNat < Nat.pow 2 32 := index.toNat_lt
      have hnode :
          ofNode? (.number (.whole index.toNat)) = some (.block index) := by
        rw [ofNode?, if_pos ⟨Int.natCast_nonneg _, by simpa using hlt⟩]
        simp
      rw [toJson, Node.ofJson, decode, decodeAny, ok_bind, hnode]
      rfl

/-- A field that may be absent is restored if a value that is there is. -/
theorem restores_optional {α : Type} {toJson : α → Json}
    {decode : Source → Node → Decoded α} {n : Nat}
    (hnull : ∀ a, toJson a ≠ .null) (h : ∀ a, Restores decode n (toJson a) a)
    (o : Option α) :
    Restores (fun source => decodeOption (decode source)) n
      (optionToJson toJson o) o := by
  cases o with
  | none => exact (restores_none decode).mono (Nat.zero_le n)
  | some a => exact (h a).some (hnull a)

theorem exact_optional {α : Type} {toJson : α → Json}
    (h : ∀ a, Exact (toJson a)) (o : Option α) :
    Exact (optionToJson toJson o) := by
  cases o with
  | none => trivial
  | some a => exact h a

theorem within_optional {α : Type} {toJson : α → Json} {n : Nat}
    (h : ∀ a, Within n (toJson a)) (o : Option α) :
    Within n (optionToJson toJson o) := by
  cases o with
  | none => exact .null
  | some a => exact h a

theorem Sense.lookup_name
    (s : Sense) : Sense.choices.lookup s.name = some s := by
  cases s <;> decide

theorem Condition.exact_toJson (b : Condition) : Exact b.toJson :=
  ⟨exact_optional (show ∀ s, Exact (.string s) from fun _ => trivial) b.text,
    trivial, trivial⟩

theorem Condition.within_toJson (b : Condition) : Within 1 b.toJson := by
  refine .object fun m hm => ?_
  obtain rfl | rfl : m = _ ∨ m = _ := by simpa using hm
  · exact within_optional (fun s => .string s) b.text
  · exact .string _

theorem Condition.restores (b : Condition) :
    Restores Condition.record.decode 1 b.toJson b := by
  have htext :=
    restores_optional (fun _ => Json.noConfusion) restores_string b.text
  have hsense := restores_choice b.sense.lookup_name
  refine Record.restores_of_putMembers ["kind", "syntax"] rfl
    fun inner hinner => ?_
  rw [Record.putMembers_field rfl rfl (htext.map_eq hinner (Nat.le_refl 0) _),
    Record.putMembers_field rfl rfl (hsense.map_eq hinner (Nat.le_refl 0) _)]
  rfl

theorem BasicBlock.exact_toJson (b : BasicBlock) : Exact b.toJson :=
  ⟨exactItems_strings b.operations,
    exact_optional Condition.exact_toJson b.branch,
    exact_optional Successor.exact_toJson b.fallthrough,
    exact_optional Successor.exact_toJson b.conditional, trivial⟩

theorem BasicBlock.within_toJson (b : BasicBlock) : Within 2 b.toJson := by
  refine .object fun m hm => ?_
  obtain rfl | rfl | rfl | rfl : m = _ ∨ m = _ ∨ m = _ ∨ m = _ := by
    simpa using hm
  · exact .items fun s _ => .string s
  · exact within_optional Condition.within_toJson b.branch
  · exact within_optional (fun s => s.within_toJson 1) b.fallthrough
  · exact within_optional (fun s => s.within_toJson 1) b.conditional

theorem BasicBlock.restores (b : BasicBlock) :
    Restores BasicBlock.record.decode 2 b.toJson b := by
  have hbranch :=
    restores_optional (fun _ => Json.noConfusion) Condition.restores b.branch
  have hexit := restores_optional Successor.toJson_ne_null Successor.restores
  refine Record.restores_of_putMembers
    ["conditional", "fallthrough", "branch", "operations"] rfl
    fun inner hinner => ?_
  rw [Record.putMembers_field rfl rfl
      ((restores_strings b.operations).map_eq hinner (Nat.le_refl 1) _),
    Record.putMembers_field rfl rfl (hbranch.map_eq hinner (Nat.le_refl 1) _),
    Record.putMembers_field rfl rfl
    ((hexit b.fallthrough).map_eq hinner (Nat.zero_le 1) _),
    Record.putMembers_field rfl rfl
    ((hexit b.conditional).map_eq hinner (Nat.zero_le 1) _)]
  rfl

namespace ControlFlowGraph

theorem exact_toJson (g : ControlFlowGraph) : Exact g.toJson :=
  ⟨exactItems_map fun b _ => b.exact_toJson, trivial⟩

theorem within_toJson (g : ControlFlowGraph) : Within 4 g.toJson := by
  refine .object fun m hm => ?_
  obtain rfl : m = _ := by simpa using hm
  exact .items fun b _ => b.within_toJson

theorem restores (g : ControlFlowGraph) :
    Restores ControlFlowGraph.decode 4 g.toJson g := by
  have hblocks := restores_list fun b (_ : b ∈ g.blocks) => b.restores
  refine Record.restores_of_putMembers ["blocks"] rfl fun inner hinner => ?_
  rw [Record.putMembers_field rfl rfl (hblocks.map_eq hinner (Nat.le_refl 3) _)]
  rfl

end ControlFlowGraph

/-! ## Recorded graphs -/

/-- What a record is read back as: a value that can be taken for a graph is that
graph from then on, and any other value stays what it is. -/
def RecordedGraph.settled : RecordedGraph → RecordedGraph
  | .parsed g => .parsed g
  | .raw value =>
    match ControlFlowGraph.decode .value (Node.ofJson value) with
    | .ok g => .parsed g
    | .error _ => .raw value

theorem RecordedGraph.settled_of_isGraph {r : RecordedGraph}
    (h : r.isGraph = true) :
    r.settled = r := by
  cases r with
  | parsed g => rfl
  | raw value => exact absurd h Bool.false_ne_true

/-- The record can be written and is read back settled, if so many levels may be
entered. -/
structure RecordedGraph.Rereads (n : Nat) (r : RecordedGraph) : Prop where
  exact_toJson : Exact r.toJson
  toJson_ne_null : r.toJson ≠ .null
  restores : Restores RecordedGraph.decode n r.toJson r.settled

theorem RecordedGraph.Rereads.mono {n m : Nat} {r : RecordedGraph}
    (h : r.Rereads n) (hle : n ≤ m) : r.Rereads m :=
  ⟨h.exact_toJson, h.toJson_ne_null, h.restores.mono hle⟩

/-- A graph is taken for a value first. That reading need only succeed. -/
theorem RecordedGraph.rereads_parsed (g : ControlFlowGraph) :
    (RecordedGraph.parsed g).Rereads 4 := by
  refine ⟨g.exact_toJson, Json.noConfusion, ?_⟩
  intro source hs
  obtain ⟨v, hv⟩ := g.within_toJson.decodeAny_eq_ok hs
  have hgraph := g.restores .value trivial
  rw [toJson, RecordedGraph.decode, hv, ok_bind, hgraph]
  rfl

/-! ## The hierarchy -/

/-- Every recorded graph has the form of a graph. -/
def Solution.FullyParsed (s : Solution) : Prop :=
  ∀ p ∈ s.projects, ∀ d ∈ p.documents, ∀ m ∈ d.allMethods, ∀ r ∈ m.recorded,
    r.isGraph = true

instance (s : Solution) : Decidable s.FullyParsed :=
  inferInstanceAs (Decidable
    (∀ p ∈ s.projects, ∀ d ∈ p.documents, ∀ m ∈ d.allMethods,
      ∀ r ∈ m.recorded, r.isGraph = true))

theorem map_eq_self {α : Type} {f : α → α} {as : List α}
    (h : ∀ a ∈ as, f a = a) :
    as.map f = as :=
  (List.map_congr_left h).trans (List.map_id as)

section

variable {n : Nat} {m : Method}

/-- The method as it is read back. -/
def Method.settled (m : Method) : Method :=
  { m with recorded := m.recorded.map RecordedGraph.settled }

/-- The record of the method is read back, if there is one. -/
def Method.Rereads (n : Nat)
    (m : Method) : Prop := ∀ r ∈ m.recorded, r.Rereads n

theorem Method.settled_eq (h : ∀ r ∈ m.recorded, r.isGraph = true) :
    m.settled = m := by
  obtain ⟨name, hasBody, recorded⟩ := m
  cases recorded with
  | none => rfl
  | some r =>
      show Method.mk name hasBody (some r.settled) = _
      rw [RecordedGraph.settled_of_isGraph (h r rfl)]

theorem Method.exact_toJson (h : m.Rereads n) : Exact m.toJson := by
  obtain ⟨name, hasBody, recorded⟩ := m
  cases recorded with
  | none => exact ⟨trivial, trivial, trivial⟩
  | some r => exact ⟨trivial, trivial, (h r rfl).exact_toJson, trivial⟩

theorem Method.restores (h : m.Rereads n) :
    Restores Method.record.decode (n + 1) m.toJson m.settled := by
  obtain ⟨name, hasBody, recorded⟩ := m
  cases recorded with
  | none =>
      show Restores Method.record.decode (n + 1)
        (.object [("name", .string name), ("has_body", .bool hasBody)]) _
      refine Record.restores_of_putMembers ["has_body", "name"] rfl
        fun inner _ => ?_
      rw [Record.putMembers_field rfl rfl rfl,
        Record.putMembers_field rfl rfl rfl]
      rfl
  | some r =>
      have hrecord := (h r rfl).restores.some (h r rfl).toJson_ne_null
      show Restores Method.record.decode (n + 1)
        (.object [("name", .string name),
          ("has_body", .bool hasBody), ("cfg", r.toJson)]) _
      refine Record.restores_of_putMembers ["cfg", "has_body", "name"] rfl
        fun inner hinner => ?_
      rw [Record.putMembers_field rfl rfl rfl,
        Record.putMembers_field rfl rfl rfl,
        Record.putMembers_field rfl rfl
        (hrecord.map_eq hinner (Nat.le_refl n) _)]
      rfl

end

theorem TypeKind.lookup_key (k : TypeKind) :
    TypeKind.choices.lookup k.key = some k := by
  cases k <;> decide

section

variable {n : Nat} {t : TypeDecl}

/-- The type as it is read back. -/
def TypeDecl.settled (t : TypeDecl) : TypeDecl :=
  { t with methods := t.methods.map Method.settled }

/-- The records of all methods of the type are read back. -/
def TypeDecl.Rereads (n : Nat)
    (t : TypeDecl) : Prop := ∀ m ∈ t.methods, m.Rereads n

theorem TypeDecl.exact_toJson (h : t.Rereads n) : Exact t.toJson :=
  ⟨trivial, trivial, exactItems_map fun m hm =>
    Method.exact_toJson (h m hm), trivial⟩

theorem TypeDecl.restores (h : t.Rereads n) :
    Restores TypeDecl.record.decode (n + 3) t.toJson t.settled := by
  have hmethods := restores_list_map fun m hm => Method.restores (h m hm)
  refine Record.restores_of_putMembers ["methods", "kind", "name"] rfl
    fun inner hinner => ?_
  rw [Record.putMembers_field rfl rfl rfl,
    Record.putMembers_field rfl rfl
      ((restores_choice t.kind.lookup_key).map_eq hinner
        (Nat.zero_le (n + 2)) _),
    Record.putMembers_field rfl rfl
    (hmethods.map_eq hinner (Nat.le_refl (n + 2)) _)]
  rfl

end

section

variable {n : Nat} {d : Document}

/-- The document as it is read back. -/
def Document.settled (d : Document) : Document :=
  { d with
    types := d.types.map TypeDecl.settled
    methods := d.methods.map Method.settled }

/-- The records of the document are read back. A method of no type stands two
levels further up than one of a type, and its record may go so much deeper. -/
def Document.Rereads (n : Nat) (d : Document) : Prop :=
  (∀ t ∈ d.types, t.Rereads n) ∧ ∀ m ∈ d.methods, m.Rereads (n + 2)

theorem Document.exact_toJson (h : d.Rereads n) : Exact d.toJson :=
  ⟨trivial, exactItems_map fun t ht => TypeDecl.exact_toJson (h.1 t ht),
    exactItems_map fun m hm => Method.exact_toJson (h.2 m hm), trivial⟩

theorem Document.restores (h : d.Rereads n) :
    Restores Document.record.decode (n + 5) d.toJson d.settled := by
  have htypes := restores_list_map fun t ht => TypeDecl.restores (h.1 t ht)
  have hmethods := restores_list_map fun m hm => Method.restores (h.2 m hm)
  refine Record.restores_of_putMembers ["methods", "types", "name"] rfl
    fun inner hinner => ?_
  rw [Record.putMembers_field rfl rfl rfl,
    Record.putMembers_field rfl rfl
      (htypes.map_eq hinner (Nat.le_refl (n + 4)) _),
    Record.putMembers_field rfl rfl
      (hmethods.map_eq hinner (Nat.le_refl (n + 4)) _)]
  rfl

end

section

variable {n : Nat} {p : Project}

/-- The project as it is read back. -/
def Project.settled (p : Project) : Project :=
  { p with documents := p.documents.map Document.settled }

/-- The records of all documents of the project are read back. -/
def Project.Rereads (n : Nat)
    (p : Project) : Prop := ∀ d ∈ p.documents, d.Rereads n

theorem Project.exact_toJson (h : p.Rereads n) : Exact p.toJson := by
  have hdocuments := exactItems_map fun d hd => Document.exact_toJson (h d hd)
  obtain ⟨name, documents, diagnostics⟩ := p
  cases diagnostics with
  | nil => exact ⟨trivial, hdocuments, trivial⟩
  | cons line lines =>
      exact ⟨trivial, hdocuments, exactItems_strings (line :: lines), trivial⟩

theorem Project.restores (h : p.Rereads n) :
    Restores Project.record.decode (n + 7) p.toJson p.settled := by
  have hdocuments := restores_list_map fun d hd => Document.restores (h d hd)
  obtain ⟨name, documents, diagnostics⟩ := p
  cases diagnostics with
  | nil =>
      show Restores Project.record.decode (n + 7)
        (.object [("name", .string name),
          ("documents", .array (documents.map Document.toJson))]) _
      refine Record.restores_of_putMembers ["documents", "name"] rfl
        fun inner hinner => ?_
      rw [Record.putMembers_field rfl rfl rfl,
        Record.putMembers_field rfl rfl
        (hdocuments.map_eq hinner (Nat.le_refl (n + 6)) _)]
      rfl
  | cons line lines =>
      have hlines := restores_strings (line :: lines)
      show Restores Project.record.decode (n + 7)
        (.object [("name", .string name),
          ("documents", .array (documents.map Document.toJson)),
          ("diagnostics", .array ((line :: lines).map .string))]) _
      refine Record.restores_of_putMembers
        ["diagnostics", "documents", "name"] rfl
        fun inner hinner => ?_
      rw [Record.putMembers_field rfl rfl rfl,
        Record.putMembers_field rfl rfl
        (hdocuments.map_eq hinner (Nat.le_refl (n + 6)) _),
        Record.putMembers_field rfl rfl (hlines.map_eq hinner (by omega) _)]
      rfl

end

section

variable {n : Nat} {s : Solution}

/-- The solution as it is read back. -/
def Solution.settled (s : Solution) : Solution :=
  { s with projects := s.projects.map Project.settled }

/-- The records of all projects of the solution are read back. -/
def Solution.Rereads (n : Nat)
    (s : Solution) : Prop := ∀ p ∈ s.projects, p.Rereads n

theorem Solution.Rereads.exact_toJson (h : s.Rereads n) : Exact s.toJson :=
  ⟨trivial, exactItems_map fun p hp => Project.exact_toJson (h p hp), trivial⟩

theorem Solution.Rereads.restores (h : s.Rereads n) :
    Restores Solution.record.decode (n + 9) s.toJson s.settled := by
  have hprojects := restores_list_map fun p hp => Project.restores (h p hp)
  refine Record.restores_of_putMembers ["projects", "name"] rfl
    fun inner hinner => ?_
  rw [Record.putMembers_field rfl rfl rfl,
    Record.putMembers_field rfl rfl
    (hprojects.map_eq hinner (Nat.le_refl (n + 8)) _)]
  rfl

end

/-! ## Solutions with graphs only -/

theorem Method.rereads_of_isGraph {m : Method}
    (h : ∀ r ∈ m.recorded, r.isGraph = true) :
    m.Rereads 4 := by
  intro r hr
  cases r with
  | parsed g => exact RecordedGraph.rereads_parsed g
  | raw value => exact absurd (h _ hr) Bool.false_ne_true

section

variable {d : Document}
  (h : ∀ m ∈ d.allMethods, ∀ r ∈ m.recorded, r.isGraph = true)

include h

theorem Document.graphs_of_type {t : TypeDecl} (ht : t ∈ d.types) :
    ∀ m ∈ t.methods, ∀ r ∈ m.recorded, r.isGraph = true :=
  fun m hm => h m (List.mem_append_left _ (List.mem_flatMap.2 ⟨t, ht, hm⟩))

theorem Document.graphs_of_method {m : Method} (hm : m ∈ d.methods) :
    ∀ r ∈ m.recorded, r.isGraph = true :=
  h m (List.mem_append_right _ hm)

theorem Document.rereads_of_graphs : d.Rereads 4 := by
  constructor
  · intro t ht m hm
    exact Method.rereads_of_isGraph (graphs_of_type h ht m hm)
  · intro m hm r hr
    exact (Method.rereads_of_isGraph (graphs_of_method h hm) r hr).mono
      (by decide)

theorem Document.settled_eq : d.settled = d := by
  have htypes : d.types.map TypeDecl.settled = d.types :=
    map_eq_self fun t ht => by
      have hmethods :=
        map_eq_self fun m hm => Method.settled_eq (graphs_of_type h ht m hm)
      rw [TypeDecl.settled, hmethods]
  have hmethods :=
    map_eq_self fun m hm => Method.settled_eq (graphs_of_method h hm)
  rw [settled, htypes, hmethods]

end

section

variable {s : Solution} (h : s.FullyParsed)

include h

theorem Solution.rereads_of_fullyParsed : s.Rereads 4 :=
  fun p hp d hd => Document.rereads_of_graphs (h p hp d hd)

theorem Solution.settled_eq : s.settled = s := by
  have hprojects : s.projects.map Project.settled = s.projects :=
    map_eq_self fun p hp => by
      have hdocuments :=
        map_eq_self fun d hd => Document.settled_eq (h p hp d hd)
      rw [Project.settled, hdocuments]
  rw [settled, hprojects]

theorem Solution.exact_toJson : Exact s.toJson :=
  (rereads_of_fullyParsed h).exact_toJson

theorem Solution.restores : Restores Solution.record.decode 13 s.toJson s := by
  have hsettled := (rereads_of_fullyParsed h).restores
  rwa [settled_eq h] at hsettled

/-- The text of a solution whose recorded graphs are all graphs is read, and the
solution that is read is the one that was written. -/
theorem Solution.snapshot_reads_back : Solution.ofText s.toText = .ok s :=
  (Solution.restores h).decodeText_compact (Solution.exact_toJson h) (by decide)

end

/-- Names that need escaping and names that are empty, and every part of the
form that can be left out, both present and absent. -/
def Solution.sampleSnapshot : Solution where
  name := "a \"b\" \\ c\n\x01"
  projects := [
    { name := ""
      documents := [{
        name := "dir/Ünï.cs"
        types := [{
          name := "T"
          kind := .enumKind
          methods := [
            { name := "exit"
              recorded := some (.parsed ⟨[
                { operations := ["x = \"\t\"", ""]
                  branch := some ⟨some "", .whenFalse⟩
                  fallthrough := some .exit
                  conditional := some (.block 4294967295) },
                {}]⟩) },
            { name := "abstract", hasBody := false }] }]
        methods := [{ name := "null", recorded := some (.parsed ⟨[]⟩) }] }] },
    { name := "broken", diagnostics := ["line 1\r\nline 2"] }]

theorem Solution.sampleSnapshot_reads_back :
    sampleSnapshot.FullyParsed
      ∧ ofText sampleSnapshot.toText = .ok sampleSnapshot :=
  ⟨by decide, snapshot_reads_back (by decide)⟩

/-- A record that is no graph may come back as another one: the word for nothing
is read as no record at all. -/
example : (decodeText Method.record.decode
    { name := "m", recorded := some (.raw .null) :
      Method }.toJson.compact).toOption
      = some { name := "m" } := by
  decide +kernel

end FlowAtlas
