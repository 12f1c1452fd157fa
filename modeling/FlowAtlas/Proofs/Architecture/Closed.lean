import FlowAtlas.Proofs.Architecture.Reading
import Mathlib.Data.List.Nodup

/-!
# The architecture diagram is a closed graph

Every node is declared by one edge and by one only, and an edge refers to nodes
that edges before it have declared. Both are shown on the edges and then carried
over to the text, where a line is one edge and an id is one node.

The walk gives its edges group by group: the methods of a type, the types of a
document, the documents of a project. What each group declares is a range of
numbers of one or two families, which is enough to keep the groups apart from
each other; and what each group refers to is declared by the first edges of the
project. A group adds to what is known and takes nothing away, so the groups can
be looked at one by one.
-/

namespace FlowAtlas.Architecture

/-! ## What is declared and what is referred to -/

/-- The node that an end declares, with its label. -/
def Terminal.declarations : Terminal → List (Vertex × String)
  | .bare _ => []
  | .labeled v label => [(v, label)]

/-- The node that an end refers to. -/
def Terminal.references : Terminal → List Vertex
  | .bare v => [v]
  | .labeled _ _ => []

/-- The nodes that an edge declares. -/
def Edge.declarations (e : Edge) : List (Vertex × String) :=
  e.source.declarations ++ e.target.declarations

/-- The nodes that an edge refers to. -/
def Edge.references
    (e : Edge) : List Vertex := e.source.references ++ e.target.references

/-- The nodes that some edges declare. -/
def declared (es : List Edge) : List Vertex :=
  (es.flatMap Edge.declarations).map Prod.fst

@[simp]
theorem declared_nil : declared [] = [] := rfl

@[simp]
theorem declared_append (es fs : List Edge) :
    declared (es ++ fs) = declared es ++ declared fs := by
  simp [declared]

@[simp]
theorem declared_declare (source target : Vertex) (label : String)
    (es : List Edge) :
    declared (declare source target label :: es) = target :: declared es := by
  simp [declared, declare, Edge.declarations, Terminal.declarations]

@[simp]
theorem declared_link (source target : Vertex) (es : List Edge) :
    declared (⟨.bare source, .bare target⟩ :: es) = declared es := by
  simp [declared, Edge.declarations, Terminal.declarations]

/-- Edges refer to nodes that are known, or that edges before them declare. -/
def Closed (known : List Vertex) : List Edge → Prop
  | [] => True
  | e :: es => (∀ v ∈ e.references, v ∈ known)
      ∧ Closed (known ++ declared [e]) es

@[simp]
theorem closed_nil (known : List Vertex) : Closed known [] := trivial

@[simp]
theorem references_declare (source target : Vertex) (label : String) :
    (declare source target label).references = [source] := rfl

theorem closed_append {known : List Vertex} {es fs : List Edge} :
    Closed known (es ++ fs)
      ↔ Closed known es ∧ Closed (known ++ declared es) fs := by
  induction es generalizing known with
  | nil => simp [Closed]
  | cons e es ih =>
      have hcons : declared (e :: es) = declared [e] ++ declared es :=
        declared_append [e] es
      rw [List.cons_append, Closed, Closed, ih, and_assoc, hcons,
        List.append_assoc]

theorem closed_declare {known : List Vertex} {source target : Vertex}
    {label : String} {es : List Edge} :
    Closed known (declare source target label :: es)
      ↔ source ∈ known ∧ Closed (known ++ [target]) es := by
  rw [Closed, references_declare, declared_declare]
  simp

/-- What an edge refers to is declared by the edges in front of it. -/
theorem Closed.mem_of_getElem? {known : List Vertex} {es : List Edge}
    (h : Closed known es) {k : Nat} {e : Edge} (he : es[k]? = some e)
    {v : Vertex} (hv : v ∈ e.references) :
    v ∈ known ++ declared (es.take k) := by
  induction es generalizing known k with
  | nil => simp at he
  | cons e' es ih =>
      cases k with
      | zero =>
          obtain rfl : e' = e := by simpa using he
          exact List.mem_append_left _ (h.1 v hv)
      | succ k =>
          have hmem := ih h.2 (by simpa using he)
          rw [List.append_assoc, ← declared_append] at hmem
          exact hmem

/-- So they are if all that they refer to is known from the start. -/
theorem closed_of_forall {known : List Vertex} {es : List Edge}
    (h : ∀ e ∈ es, ∀ v ∈ e.references, v ∈ known) : Closed known es := by
  induction es generalizing known with
  | nil => trivial
  | cons e es ih =>
      exact ⟨h e List.mem_cons_self,
        ih fun e' he v hv =>
          List.mem_append_left _ (h e' (List.mem_cons_of_mem _ he) v hv)⟩

/-! ## Numbered children -/

/-- The edges from a node to some children, numbered from `n` on. -/
def fan {α : Type} (source : Vertex) (child : Nat → Vertex) (label : α → String)
    (n : Nat) (as : List α) : List Edge :=
  (as.zipIdx n).map fun a => declare source (child a.2) (label a.1)

/-- The label of a method of a type. -/
def methodLabel (method : Method) : String := "Method: " ++ method.name ++ "()"

/-- The label of a method of no type. -/
def topLabel (method : Method) : String := "TopMethod: " ++ method.name ++ "()"

theorem methodEdges_eq_fan (p c m : Nat) (methods : List Method) :
    methodEdges p c m methods
      = fan (.typeDecl p c) (.method p c) methodLabel m methods := by
  induction methods generalizing m with
  | nil => rfl
  | cons method methods ih =>
      rw [methodEdges, ih]
      rfl

theorem topEdges_eq_fan (p f : Nat) (methods : List Method) :
    topEdges p f methods
      = fan (.project p) (.topMethod p) topLabel f methods := by
  induction methods generalizing f with
  | nil => rfl
  | cons method methods ih =>
      rw [topEdges, ih]
      rfl

theorem documentEdges_eq_fan (p d : Nat) (docs : List Document) :
    documentEdges p d docs
      = fan (.documents p) (.document p) Document.fileName d docs := by
  induction docs generalizing d with
  | nil => rfl
  | cons doc docs ih =>
      rw [documentEdges, ih]
      rfl

section

variable {α : Type} {source : Vertex} {child : Nat → Vertex}
  {label : α → String} {n : Nat} {as : List α}

theorem declared_fan :
    declared (fan source child label n as)
      = (List.range' n as.length).map child := by
  induction as generalizing n with
  | nil => rfl
  | cons a as ih =>
      show declared
        (declare source (child n) (label a) :: fan source child
          label (n + 1) as) = _
      rw [declared_declare, ih, List.length_cons,
        List.range'_succ, List.map_cons]

theorem mem_declared_fan {v : Vertex} :
    v ∈ declared (fan source child label n as)
      ↔ ∃ k, (n ≤ k ∧ k < n + as.length) ∧ child k = v := by
  simp only [declared_fan, List.mem_map, List.mem_range'_1]

theorem nodup_fan (h : Function.Injective child) :
    (declared (fan source child label n as)).Nodup := by
  rw [declared_fan]
  exact List.Nodup.map h List.nodup_range'

theorem closed_fan {known : List Vertex} (h : source ∈ known) :
    Closed known (fan source child label n as) := by
  refine closed_of_forall fun e he v hv => ?_
  obtain ⟨a, -, rfl⟩ := List.mem_map.1 he
  obtain rfl : v = source := by
    simpa [declare, Edge.references, Terminal.references] using hv
  exact h

end

/-! ## The groups of edges -/

section

variable {known : List Vertex} {bounds : Bounds} {p : Nat}

theorem declared_typeEdges (c : Nat) (t : TypeDecl) :
    declared (typeEdges bounds p c t)
      = .typeDecl p c
        :: declared (fan (.typeDecl p c) (.method p c) methodLabel 0
          (t.drawableMethods.take bounds.methodsPerType)) := by
  rw [typeEdges, List.cons_append, declared_declare, List.cons_append,
    declared_link, methodEdges_eq_fan, List.nil_append]

theorem mem_declared_typeEdges {c : Nat} {t : TypeDecl} {v : Vertex}
    (h : v ∈ declared (typeEdges bounds p c t)) :
    v = .typeDecl p c ∨ ∃ m, v = .method p c m := by
  rw [declared_typeEdges, List.mem_cons, mem_declared_fan] at h
  rcases h with h | ⟨k, -, h⟩
  · exact .inl h
  · exact .inr ⟨k, h.symm⟩

theorem nodup_typeEdges (c : Nat) (t : TypeDecl) :
    (declared (typeEdges bounds p c t)).Nodup := by
  rw [declared_typeEdges, List.nodup_cons, mem_declared_fan]
  refine ⟨?_, nodup_fan fun k l h => (Vertex.method.inj h).2.2⟩
  rintro ⟨k, -, h⟩
  exact Vertex.noConfusion h

theorem closed_typeEdges {c : Nat} {t : TypeDecl}
    (hproject : .project p ∈ known) (hdocuments : .documents p ∈ known) :
    Closed known (typeEdges bounds p c t) := by
  rw [typeEdges, List.cons_append, closed_declare, methodEdges_eq_fan]
  refine ⟨hproject, ?_, closed_fan ?_⟩
  · simp [Edge.references, Terminal.references, hdocuments]
  · simp

theorem mem_declared_typesEdges {c : Nat} {types : List TypeDecl} {v : Vertex}
    (h : v ∈ declared (typesEdges bounds p c types)) :
    ∃ k, c ≤ k ∧ k < c + types.length
      ∧ (v = .typeDecl p k ∨ ∃ m, v = .method p k m) := by
  induction types generalizing c with
  | nil => exact absurd h List.not_mem_nil
  | cons t types ih =>
      rw [typesEdges, declared_append, List.mem_append] at h
      rw [List.length_cons]
      rcases h with h | h
      · exact ⟨c, by omega, by omega, mem_declared_typeEdges h⟩
      · obtain ⟨k, hle, hlt, hv⟩ := ih h
        exact ⟨k, by omega, by omega, hv⟩

theorem nodup_typesEdges (c : Nat) (types : List TypeDecl) :
    (declared (typesEdges bounds p c types)).Nodup := by
  induction types generalizing c with
  | nil => exact List.nodup_nil
  | cons t types ih =>
      rw [typesEdges, declared_append, List.nodup_append]
      refine ⟨nodup_typeEdges c t, ih (c + 1), ?_⟩
      rintro v hv _ hw rfl
      obtain ⟨k, hk, -, hw⟩ := mem_declared_typesEdges hw
      rcases mem_declared_typeEdges hv with rfl | ⟨m, rfl⟩ <;>
        rcases hw with hw | ⟨n, hw⟩ <;> cases hw <;> omega

theorem closed_typesEdges (hproject : .project p ∈ known)
    (hdocuments : .documents p ∈ known) (c : Nat) (types : List TypeDecl) :
    Closed known (typesEdges bounds p c types) := by
  induction types generalizing c known with
  | nil => trivial
  | cons t types ih =>
      rw [typesEdges, closed_append]
      exact ⟨closed_typeEdges hproject hdocuments,
        ih (List.mem_append_left _ hproject)
        (List.mem_append_left _ hdocuments) (c + 1)⟩

theorem mem_declared_contentEdges {c f : Nat} {docs : List Document}
    {v : Vertex} (h : v ∈ declared (contentEdges bounds p c f docs)) :
    (∃ k, c ≤ k ∧ (v = .typeDecl p k ∨ ∃ m, v = .method p k m))
      ∨ ∃ k, f ≤ k ∧ v = .topMethod p k := by
  induction docs generalizing c f with
  | nil => exact absurd h List.not_mem_nil
  | cons d docs ih =>
      rw [contentEdges, declared_append, declared_append, List.mem_append,
        List.mem_append, topEdges_eq_fan, mem_declared_fan] at h
      rcases h with (h | ⟨k, hk, hv⟩) | h
      · obtain ⟨k, hle, -, hv⟩ := mem_declared_typesEdges h
        exact .inl ⟨k, hle, hv⟩
      · exact .inr ⟨k, hk.1, hv.symm⟩
      · rcases ih h with ⟨k, hle, hv⟩ | ⟨k, hle, hv⟩
        · exact .inl ⟨k, by omega, hv⟩
        · exact .inr ⟨k, by omega, hv⟩

theorem nodup_contentEdges (c f : Nat) (docs : List Document) :
    (declared (contentEdges bounds p c f docs)).Nodup := by
  induction docs generalizing c f with
  | nil => exact List.nodup_nil
  | cons d docs ih =>
      rw [contentEdges, declared_append, declared_append, List.nodup_append,
        List.nodup_append, topEdges_eq_fan]
      refine ⟨⟨nodup_typesEdges c _, nodup_fan fun k l h =>
        (Vertex.topMethod.inj h).2, ?_⟩,
        ih _ _, ?_⟩
      · rintro v hv _ hw rfl
        obtain ⟨k, -, -, hv⟩ := mem_declared_typesEdges hv
        obtain ⟨l, -, hw⟩ := mem_declared_fan.1 hw
        rcases hv with rfl | ⟨m, rfl⟩ <;> cases hw
      · rintro v hv _ hw rfl
        rcases List.mem_append.1 hv with hv | hv
        · obtain ⟨k, -, hlt, hv⟩ := mem_declared_typesEdges hv
          rcases mem_declared_contentEdges hw with ⟨l, hle, hw⟩ | ⟨l, -, hw⟩
          · rcases hv with rfl | ⟨m, rfl⟩ <;> rcases hw with hw | ⟨n, hw⟩
              <;> cases hw <;> omega
          · rcases hv with rfl | ⟨m, rfl⟩ <;> cases hw
        · obtain ⟨k, hk, rfl⟩ := mem_declared_fan.1 hv
          rcases mem_declared_contentEdges hw with
            ⟨l, -, hw | ⟨n, hw⟩⟩ | ⟨l, hle, hw⟩ <;>
            cases hw
          omega

theorem closed_contentEdges (hproject : .project p ∈ known)
    (hdocuments : .documents p ∈ known) (c f : Nat) (docs : List Document) :
    Closed known (contentEdges bounds p c f docs) := by
  induction docs generalizing c f known with
  | nil => trivial
  | cons d docs ih =>
      rw [contentEdges, closed_append, closed_append, topEdges_eq_fan]
      exact ⟨⟨closed_typesEdges hproject hdocuments c _,
          closed_fan (List.mem_append_left _ hproject)⟩,
        ih (List.mem_append_left _ hproject)
        (List.mem_append_left _ hdocuments) _ _⟩

theorem declared_chainEdges (name : String) :
    declared (chainEdges p name)
      = [.graph p, .drawing p, .markup p, .renderer p, .output p] := by
  simp [chainEdges]

theorem closed_chainEdges (h : .project p ∈ known) (name : String) :
    Closed known (chainEdges p name) := by
  simp [chainEdges, closed_declare, h]

/-- The project that a node belongs to. -/
def Vertex.project? : Vertex → Option Nat
  | .program | .loader | .workspace | .solution | .cleanup | .generator => none
  | .project p | .documents p | .document p _ | .typeDecl p _ | .method p _
      _ | .topMethod p _
  | .graph p | .drawing p | .markup p | .renderer p | .output p => some p

theorem declared_projectEdges (project : Project) :
    declared (projectEdges bounds p project)
      = [.project p, .documents p]
        ++ declared (fan (.documents p) (.document p) Document.fileName 0
          (project.documents.take bounds.docsPerProject))
        ++ declared
          (contentEdges bounds p 0 0
            (project.documents.take bounds.docsPerProject))
        ++ [.graph p, .drawing p, .markup p, .renderer p, .output p] := by
  simp only [projectEdges, declared_append, declared_declare, declared_nil,
    declared_chainEdges, documentEdges_eq_fan]

theorem mem_declared_projectEdges {project : Project} {v : Vertex}
    (h : v ∈ declared (projectEdges bounds p project)) :
    v.project? = some p := by
  simp only [declared_projectEdges, List.mem_append, mem_declared_fan,
    List.mem_cons, List.not_mem_nil, or_false] at h
  rcases h with ((h | ⟨k, -, rfl⟩) | h) | h
  · rcases h with rfl | rfl <;> rfl
  · rfl
  · rcases mem_declared_contentEdges h with
      ⟨k, -, rfl | ⟨m, rfl⟩⟩ | ⟨k, -, rfl⟩ <;> rfl
  · rcases h with rfl | rfl | rfl | rfl | rfl <;> rfl

theorem nodup_projectEdges (project : Project) :
    (declared (projectEdges bounds p project)).Nodup := by
  have hdocument : Function.Injective (Vertex.document p) :=
    fun k l h => (Vertex.document.inj h).2
  rw [declared_projectEdges, List.nodup_append, List.nodup_append,
    List.nodup_append]
  refine ⟨⟨⟨by simp, nodup_fan hdocument, ?_⟩, nodup_contentEdges 0 0 _, ?_⟩,
    by simp, ?_⟩
  · rintro v hv _ hw rfl
    obtain ⟨k, -, rfl⟩ := mem_declared_fan.1 hw
    simp at hv
  · rintro v hv _ hw rfl
    simp only [List.mem_append, mem_declared_fan, List.mem_cons,
      List.not_mem_nil, or_false] at hv
    rcases mem_declared_contentEdges hw with
      ⟨k, -, rfl | ⟨m, rfl⟩⟩ | ⟨k, -, rfl⟩ <;> simp at hv
  · rintro v hv _ hw rfl
    simp only [List.mem_append, mem_declared_fan] at hv
    rcases hv with (hv | ⟨k, -, rfl⟩) | hv
    · simp only [List.mem_cons, List.not_mem_nil, or_false] at hv
      rcases hv with rfl | rfl <;> simp at hw
    · simp at hw
    · rcases mem_declared_contentEdges hv with
        ⟨k, -, rfl | ⟨m, rfl⟩⟩ | ⟨k, -, rfl⟩ <;> simp at hw

theorem closed_projectEdges (h : .solution ∈ known) (project : Project) :
    Closed known (projectEdges bounds p project) := by
  rw [projectEdges, closed_append, closed_append, closed_append,
    documentEdges_eq_fan]
  refine ⟨⟨⟨?_, closed_fan ?_⟩, closed_contentEdges ?_ ?_ 0 0 _⟩,
    closed_chainEdges ?_ _⟩
  · simp [closed_declare, h]
  all_goals simp

end

/-! ## The whole diagram -/

section

variable {bounds : Bounds}

theorem mem_declared_projectsEdges {p : Nat} {projects : List Project}
    {v : Vertex} (h : v ∈ declared (projectsEdges bounds p projects)) :
    ∃ q, p ≤ q ∧ v.project? = some q := by
  induction projects generalizing p with
  | nil => exact absurd h List.not_mem_nil
  | cons project projects ih =>
      rw [projectsEdges, declared_append, List.mem_append] at h
      rcases h with h | h
      · exact ⟨p, Nat.le_refl p, mem_declared_projectEdges h⟩
      · obtain ⟨q, hq, hv⟩ := ih h
        exact ⟨q, by omega, hv⟩

theorem nodup_projectsEdges (p : Nat) (projects : List Project) :
    (declared (projectsEdges bounds p projects)).Nodup := by
  induction projects generalizing p with
  | nil => exact List.nodup_nil
  | cons project projects ih =>
      rw [projectsEdges, declared_append, List.nodup_append]
      refine ⟨nodup_projectEdges project, ih (p + 1), ?_⟩
      rintro v hv _ hw rfl
      obtain ⟨q, hq, hw⟩ := mem_declared_projectsEdges hw
      have hp := Option.some.inj ((mem_declared_projectEdges hv).symm.trans hw)
      omega

theorem closed_projectsEdges {known : List Vertex} (h : .solution ∈ known)
    (p : Nat) (projects : List Project) :
    Closed known (projectsEdges bounds p projects) := by
  induction projects generalizing p known with
  | nil => trivial
  | cons project projects ih =>
      rw [projectsEdges, closed_append]
      exact ⟨closed_projectEdges h project,
        ih (List.mem_append_left _ h) (p + 1)⟩

theorem declared_preamble :
    declared preamble = [.program, .loader, .workspace, .solution] := rfl

theorem declared_trailer : declared trailer = [.cleanup, .generator] := rfl

variable (solution : Solution) (bounds : Bounds) (filter : Option String)

theorem nodup_edges : (declared (edges solution bounds filter)).Nodup := by
  rw [edges, declared_append, declared_append, declared_preamble,
    declared_trailer, List.nodup_append, List.nodup_append]
  refine ⟨⟨by simp, nodup_projectsEdges 0 _, ?_⟩, by simp, ?_⟩
  · rintro v hv _ hw rfl
    obtain ⟨q, -, hq⟩ := mem_declared_projectsEdges hw
    simp only [List.mem_cons, List.not_mem_nil, or_false] at hv
    rcases hv with rfl | rfl | rfl | rfl <;> cases hq
  · rintro v hv _ hw rfl
    rcases List.mem_append.1 hv with hv | hv
    · simp only [List.mem_cons, List.not_mem_nil, or_false] at hv hw
      rcases hv with rfl | rfl | rfl | rfl <;> simp at hw
    · obtain ⟨q, -, hq⟩ := mem_declared_projectsEdges hv
      simp only [List.mem_cons, List.not_mem_nil, or_false] at hw
      rcases hw with rfl | rfl <;> cases hq

theorem closed_edges : Closed [] (edges solution bounds filter) := by
  rw [edges, closed_append, closed_append, declared_append, declared_preamble]
  refine ⟨⟨?_, closed_projectsEdges (by simp) 0 _⟩, ?_⟩
  · simp [preamble, Closed, declare, declared, Edge.references,
      Edge.declarations, Terminal.references, Terminal.declarations]
  · simp [trailer, closed_declare]

end

/-! ## The text -/

/-- The id and the label that an end declares. -/
def End.declarations : End → List (String × String)
  | ⟨id, some label⟩ => [(id, label)]
  | ⟨_, none⟩ => []

/-- The id that an end refers to without declaring it. -/
def End.references : End → List String
  | ⟨_, some _⟩ => []
  | ⟨id, none⟩ => [id]

namespace Arrow

/-- The ids on a line. -/
def ids (a : Arrow) : List String := [a.source.id, a.target.id]

/-- The ids that a line declares, each with its label. -/
def declarations (a : Arrow) : List (String × String) :=
  a.source.declarations ++ a.target.declarations

/-- The ids that a line refers to without declaring them. -/
def references (a : Arrow) : List String :=
  a.source.references ++ a.target.references

end Arrow

/-- The ids that some lines declare. -/
def declaredIds (arrows : List Arrow) : List String :=
  (arrows.flatMap Arrow.declarations).map Prod.fst

/-- A flowchart whose lines are edges, in which every id is declared on one line
and not used before it. -/
structure ClosedGraph (text : String) : Prop where
  lines_eq :
    Text.lines text = "flowchart TD" :: (arrowsIn text).map Arrow.text ++ [""]
  ofLine?_text : ∀ a ∈ arrowsIn text, Arrow.ofLine? a.text = some a
  declared_once : ∀ a ∈ arrowsIn text, ∀ id ∈ a.ids,
    (declaredIds (arrowsIn text)).count id = 1
  declared_before : ∀ k a, (arrowsIn text)[k]? = some a → ∀ id ∈ a.references,
    id ∈ declaredIds ((arrowsIn text).take k)

theorem Terminal.declarations_told (t : Terminal) :
    t.told.declarations = t.declarations.map fun d =>
      (d.1.id, Text.inLabel d.2) := by
  cases t <;> rfl

theorem Edge.declarations_told (e : Edge) :
    e.told.declarations = e.declarations.map fun d =>
      (d.1.id, Text.inLabel d.2) := by
  show e.source.told.declarations ++ e.target.told.declarations = _
  rw [e.source.declarations_told, e.target.declarations_told, ← List.map_append]
  rfl

theorem Terminal.references_told (t : Terminal) :
    t.told.references = t.references.map Vertex.id := by
  cases t <;> rfl

theorem Edge.references_told
    (e : Edge) : e.told.references = e.references.map Vertex.id := by
  show e.source.told.references ++ e.target.told.references = _
  rw [e.source.references_told, e.target.references_told, ← List.map_append]
  rfl

theorem declaredIds_told (es : List Edge) :
    declaredIds (es.map Edge.told) = (declared es).map Vertex.id := by
  rw [declaredIds, declared, List.flatMap_map]
  simp only [Edge.declarations_told]
  rw [← List.map_flatMap, List.map_map, List.map_map]
  rfl

/-- An id on a line is declared there or referred to. -/
theorem Arrow.mem_ids {a : Arrow} {id : String} (h : id ∈ a.ids) :
    id ∈ a.declarations.map Prod.fst ∨ id ∈ a.references := by
  have hend :
      ∀ e : End, e.id ∈ e.declarations.map Prod.fst ∨ e.id ∈ e.references := by
    rintro ⟨id, _ | label⟩
    · exact .inr List.mem_cons_self
    · exact .inl List.mem_cons_self
  rw [declarations, List.map_append, references]
  simp only [List.mem_append]
  rcases List.mem_cons.1 h with rfl | h
  · exact (hend a.source).imp .inl .inl
  · obtain rfl := List.mem_singleton.1 h
    exact (hend a.target).imp .inr .inr

/-- The architecture diagram is a closed graph whatever the names are, and no
two of its nodes share an id. -/
theorem markup_is_closed_graph (solution : Solution) (bounds : Bounds)
    (filter : Option String) :
    ClosedGraph (markup solution bounds filter)
      ∧ Function.Injective Vertex.id := by
  have harrows := arrowsIn_markup solution bounds filter
  have hbefore :
      ∀ k a, ((edges solution bounds filter).map Edge.told)[k]? = some a →
        ∀ id ∈ a.references, id
          ∈ declaredIds (((edges solution bounds filter).map Edge.told).take k)
        := by
    intro k a ha id hid
    obtain ⟨e, he, rfl⟩ :=
      Option.map_eq_some_iff.1 (List.getElem?_map.symm.trans ha)
    rw [e.references_told] at hid
    obtain ⟨v, hv, rfl⟩ := List.mem_map.1 hid
    rw [← List.map_take, declaredIds_told]
    exact List.mem_map_of_mem
      ((closed_edges solution bounds filter).mem_of_getElem? he hv)
  refine ⟨⟨?_, ?_, ?_, ?_⟩, fun _ _ => Vertex.id_injective⟩
  · rw [harrows, lines_markup, List.map_map]
    rfl
  · rw [harrows]
    intro a ha
    obtain ⟨e, -, rfl⟩ := List.mem_map.1 ha
    exact e.ofLine?_told
  · rw [harrows, declaredIds_told]
    intro a ha id hid
    have hnodup := (nodup_edges solution bounds filter).map fun _ _ =>
      Vertex.id_injective
    refine List.count_eq_one_of_mem hnodup ?_
    rw [← declaredIds_told]
    rcases Arrow.mem_ids hid with hid | hid
    · obtain ⟨d, hd, rfl⟩ := List.mem_map.1 hid
      exact List.mem_map_of_mem (List.mem_flatMap.2 ⟨a, ha, hd⟩)
    · obtain ⟨k, hk⟩ := List.mem_iff_getElem?.1 ha
      obtain ⟨d, hd, hfst⟩ := List.mem_map.1 (hbefore k a hk id hid)
      obtain ⟨b, hb, hd⟩ := List.mem_flatMap.1 hd
      exact List.mem_map.2
        ⟨d, List.mem_flatMap.2 ⟨b, List.mem_of_mem_take hb, hd⟩, hfst⟩
  · rw [harrows]
    exact hbefore

end FlowAtlas.Architecture
