import FlowAtlas.Proofs.Architecture.Closed

/-!
# Truncation keeps prefixes

The walk through a project carries two counters from document to document and
stops adding types, or methods, when one of them has reached its bound. Seen
from the whole project, that keeps the first so many types of all documents
together, and likewise the first so many methods, no matter how they are spread.

The second account of the diagram given here has no counters. It puts the types
of all documents one after the other (`pool`), cuts the list once, numbers what
is left, and hands each document its share. `contentEdges_eq` says that the walk
gives the same edges; the induction is on the documents, and what carries it is
that cutting the rest of a pool by what is left of the bound is the rest of the
cut pool (`numbered_pool_cons`).

What a reader of the markup sees of it are the labels of the numbered ids, and
those are read off the second account, where they are prefixes by definition.
-/

namespace FlowAtlas.Architecture

/-! ## The account without counters -/

section

variable {α : Type}

/-- The items of some documents one after the other, each with the number of its
document, the first of which has the given number. -/
def pool (items : Document → List α) (k : Nat) (docs : List Document) :
    List (Nat × α) :=
  (docs.zipIdx k).flatMap fun d => (items d.1).map fun a => (d.2, a)

/-- Numbered items of the document with the given number. -/
def share (k : Nat) (kept : List ((Nat × α) × Nat)) : List (α × Nat) :=
  (kept.filter fun e => e.1.1 == k).map fun e => (e.1.2, e.2)

end

/-- The label of a type. -/
def typeLabel (t : TypeDecl) : String := t.kind.name ++ ": " ++ t.name

/-- The edges of a type and of the first so many of its methods that can be
drawn. -/
def flatType (bounds : Bounds) (p c : Nat) (t : TypeDecl) : List Edge :=
  [declare (.project p) (.typeDecl p c) (typeLabel t),
    ⟨.bare (.typeDecl p c), .bare (.documents p)⟩]
    ++ fan (.typeDecl p c) (.method p c) methodLabel 0
      (t.drawableMethods.take bounds.methodsPerType)

/-- The edges of the documents with some numbers: of each one its kept types
before its kept methods. -/
def shares (bounds : Bounds) (p : Nat) (numbers : List Nat)
    (types : List ((Nat × TypeDecl) × Nat))
    (methods : List ((Nat × Method) × Nat)) : List Edge :=
  numbers.flatMap fun k =>
    ((share k types).flatMap fun t => flatType bounds p t.2 t.1)
      ++ (share k methods).map fun m =>
        declare (.project p) (.topMethod p m.2) (topLabel m.1)

/-- The edges of the contents of a project's documents, from the first so many
types and the first so many methods of all of them together. -/
def flatContent (bounds : Bounds) (p : Nat) (docs : List Document) :
    List Edge :=
  shares bounds p (List.range docs.length)
    ((pool Document.types 0 docs).take bounds.typesPerProject).zipIdx
    ((pool Document.methods 0 docs).take bounds.topLevelMethods).zipIdx

/-- The edges of a project. -/
def flatProject (bounds : Bounds) (p : Nat) (project : Project) : List Edge :=
  let docs := project.documents.take bounds.docsPerProject
  [declare .solution (.project p) (projectLabel project.name),
    declare (.project p) (.documents p) "Documents"]
    ++ fan (.documents p) (.document p) Document.fileName 0 docs
    ++ flatContent bounds p docs ++ chainEdges p project.name

/-- The edges of the diagram. -/
def flatEdges (solution : Solution) (bounds : Bounds) (filter : Option String) :
    List Edge :=
  preamble
    ++ ((solution.matching filter).zipIdx.flatMap fun q =>
      flatProject bounds q.2 q.1)
    ++ trailer

/-! ## Both accounts are one -/

section

variable {α : Type}

theorem map_snd_pool (items : Document → List α) (k : Nat)
    (docs : List Document) :
    (pool items k docs).map Prod.snd = docs.flatMap items := by
  induction docs generalizing k with
  | nil => rfl
  | cons d docs ih =>
      have hcons : pool items k (d :: docs)
          = (items d).map (fun a => (k, a)) ++ pool items (k + 1) docs := rfl
      have hfirst : ((items d).map fun a => (k, a)).map Prod.snd = items d := by
        simp [Function.comp_def]
      rw [hcons, List.map_append, ih, hfirst, List.flatMap_cons]

theorem le_of_mem_pool {items : Document → List α} {k : Nat}
    {docs : List Document} {e : Nat × α} (h : e ∈ pool items k docs) :
    k ≤ e.1 ∧ e.1 < k + docs.length := by
  obtain ⟨d, hd, he⟩ := List.mem_flatMap.1 h
  obtain ⟨a, -, rfl⟩ := List.mem_map.1 he
  obtain ⟨hle, hlt, -⟩ := List.mem_zipIdx hd
  exact ⟨hle, hlt⟩

/-- Cutting and numbering a pool does so to the items of the first document, and
to the rest with what is left of the bound and from the next number on. -/
theorem numbered_pool_cons (items : Document → List α) (k n bound : Nat)
    (d : Document) (docs : List Document) :
    ((pool items k (d :: docs)).take (bound - n)).zipIdx n
      = (((items d).take (bound - n)).zipIdx n).map (fun a => ((k, a.1), a.2))
        ++ ((pool items (k + 1) docs).take
            (bound - (n + ((items d).take (bound - n)).length))).zipIdx
          (n + ((items d).take (bound - n)).length) := by
  have hcons : pool items k (d :: docs)
      = (items d).map (fun a => (k, a)) ++ pool items (k + 1) docs := rfl
  have hleft : bound - n - ((items d).map fun a => (k, a)).length
      = bound - (n + ((items d).take (bound - n)).length) := by
    rw [List.length_map, List.length_take]
    omega
  have hlength : (((items d).map fun a => (k, a)).take (bound - n)).length
      = ((items d).take (bound - n)).length := by
    rw [List.length_take, List.length_take, List.length_map]
  rw [hcons, List.take_append, List.zipIdx_append, hlength, hleft,
    ← List.map_take, List.zipIdx_map]
  rfl

theorem share_append (k : Nat) (first rest : List ((Nat × α) × Nat)) :
    share k (first ++ rest) = share k first ++ share k rest := by
  simp [share]

theorem share_own (k : Nat) (as : List (α × Nat)) :
    share k (as.map fun a => ((k, a.1), a.2)) = as := by
  simp [share, List.filter_map, Function.comp_def]

theorem share_eq_nil {k : Nat} {kept : List ((Nat × α) × Nat)}
    (h : ∀ e ∈ kept, e.1.1 ≠ k) :
    share k kept = [] := by
  rw [share, List.filter_eq_nil_iff.2 fun e he => by simpa using h e he,
    List.map_nil]

theorem share_other {k l : Nat} (h : k ≠ l) (as : List (α × Nat)) :
    share l (as.map fun a => ((k, a.1), a.2)) = [] := by
  refine share_eq_nil fun e he => ?_
  obtain ⟨a, -, rfl⟩ := List.mem_map.1 he
  exact h

theorem share_before {items : Document → List α} {k l n bound : Nat}
    {docs : List Document}
    (h : k < l) : share k (((pool items l docs).take bound).zipIdx n) = [] := by
  refine share_eq_nil fun e he => ?_
  have hmem := (List.mem_zipIdx he).2.2
  have hpool :=
    le_of_mem_pool (List.mem_of_mem_take (hmem ▸ List.getElem_mem _))
  omega

end

section

variable {bounds : Bounds} {p : Nat}

theorem typesEdges_eq (c : Nat) (types : List TypeDecl) :
    typesEdges bounds p c types
      = (types.zipIdx c).flatMap fun t => flatType bounds p t.2 t.1 := by
  induction types generalizing c with
  | nil => rfl
  | cons t types ih =>
      rw [typesEdges, ih, typeEdges, methodEdges_eq_fan]
      rfl

theorem shares_cons (k : Nat) (numbers : List Nat)
    (types : List ((Nat × TypeDecl) × Nat))
    (methods : List ((Nat × Method) × Nat)) :
    shares bounds p (k :: numbers) types methods
      = ((share k types).flatMap fun t => flatType bounds p t.2 t.1)
        ++ ((share k methods).map fun m =>
          declare (.project p) (.topMethod p m.2) (topLabel m.1))
        ++ shares bounds p numbers types methods := rfl

theorem shares_congr {numbers : List Nat}
    {types types' : List ((Nat × TypeDecl) × Nat)}
    {methods methods' : List ((Nat × Method) × Nat)}
    (htypes : ∀ k ∈ numbers, share k types = share k types')
    (hmethods : ∀ k ∈ numbers, share k methods = share k methods') :
    shares bounds p numbers types methods
      = shares bounds p numbers types' methods' := by
  induction numbers with
  | nil => rfl
  | cons k numbers ih =>
      have hrest := ih (fun l hl => htypes l (List.mem_cons_of_mem _ hl))
        fun l hl => hmethods l (List.mem_cons_of_mem _ hl)
      rw [shares_cons, shares_cons, hrest, htypes k List.mem_cons_self,
        hmethods k List.mem_cons_self]

/-- The walk gives every document its share. -/
theorem contentEdges_eq (k c f : Nat) (docs : List Document) :
    contentEdges bounds p c f docs
      = shares bounds p (List.range' k docs.length)
        (((pool Document.types k docs).take
          (bounds.typesPerProject - c)).zipIdx c)
        (((pool Document.methods k docs).take
          (bounds.topLevelMethods - f)).zipIdx f) := by
  induction docs generalizing k c f with
  | nil => rfl
  | cons d docs ih =>
      rw [contentEdges, ih (k + 1), numbered_pool_cons, numbered_pool_cons,
        List.length_cons, List.range'_succ]
      have hlater : ∀ l ∈ List.range' (k + 1) docs.length, k ≠ l := by
        intro l hl
        have := List.mem_range'_1.1 hl
        omega
      rw [shares_cons, share_append, share_append, share_own, share_own,
        share_before (Nat.lt_succ_self k), share_before (Nat.lt_succ_self k),
        List.append_nil, List.append_nil, typesEdges_eq, topEdges_eq_fan]
      congr 1
      refine shares_congr (fun l hl => ?_) fun l hl => ?_
      · rw [share_append, share_other (hlater l hl), List.nil_append]
      · rw [share_append, share_other (hlater l hl), List.nil_append]

theorem projectEdges_eq (project : Project) :
    projectEdges bounds p project = flatProject bounds p project := by
  simp only [projectEdges, flatProject, documentEdges_eq_fan, contentEdges_eq 0,
    Nat.sub_zero, flatContent, List.range_eq_range']

theorem projectsEdges_eq (projects : List Project) :
    projectsEdges bounds p projects
      = (projects.zipIdx p).flatMap fun q => flatProject bounds q.2 q.1 := by
  induction projects generalizing p with
  | nil => rfl
  | cons project projects ih =>
      rw [projectsEdges, ih, projectEdges_eq]
      rfl

theorem edges_eq (solution : Solution) (bounds : Bounds)
    (filter : Option String) :
    edges solution bounds filter = flatEdges solution bounds filter := by
  rw [edges, projectsEdges_eq, flatEdges]

end

/-! ## What is declared under which id -/

/-- Some edges declare a node with a label. -/
def Declares (es : List Edge) (v : Vertex) (label : String) : Prop :=
  (v, label) ∈ es.flatMap Edge.declarations

section

variable {v : Vertex} {label : String} {es fs : List Edge}

@[simp]
theorem not_declares_nil : ¬ Declares [] v label := List.not_mem_nil

@[simp]
theorem declares_append : Declares (es ++ fs) v label
    ↔ Declares es v label ∨ Declares fs v label := by
  simp [Declares]

@[simp]
theorem declares_declare {source target : Vertex} {text : String} :
    Declares (declare source target text :: es) v label
      ↔ (v = target ∧ label = text) ∨ Declares es v label := by
  simp [Declares, declare, Edge.declarations, Terminal.declarations]

@[simp]
theorem declares_link {source target : Vertex} :
    Declares (⟨.bare source, .bare target⟩ :: es) v label
      ↔ Declares es v label := by
  simp [Declares, Edge.declarations, Terminal.declarations]

theorem declares_flatMap {α : Type} {f : α → List Edge} {as : List α} :
    Declares (as.flatMap f) v label ↔ ∃ a ∈ as, Declares (f a) v label := by
  simp only [Declares, List.flatMap_assoc, List.mem_flatMap]

theorem declares_map {α : Type} {source target : α → Vertex} {text : α → String}
    {as : List α} :
    Declares (as.map fun a => declare (source a) (target a) (text a)) v label
      ↔ ∃ a ∈ as, v = target a ∧ label = text a := by
  induction as with
  | nil => simp
  | cons a as ih => simp [ih]

theorem declares_fan {α : Type} {source : Vertex} {child : Nat → Vertex}
    {text : α → String} {as : List α} :
    Declares (fan source child text 0 as) v label
      ↔ ∃ k a, as[k]? = some a ∧ v = child k ∧ label = text a := by
  rw [fan, declares_map]
  constructor
  · rintro ⟨⟨a, k⟩, ha, hv⟩
    exact ⟨k, a, List.mem_zipIdx_iff_getElem?.1 ha, hv⟩
  · rintro ⟨k, a, ha, hv⟩
    exact ⟨(a, k), List.mem_zipIdx_iff_getElem?.2 ha, hv⟩

theorem Declares.mem_declared (h : Declares es v label) : v ∈ declared es :=
  List.mem_map.2 ⟨_, h, rfl⟩

end

section

variable {α : Type} {items : Document → List α} {docs : List Document}
  {bound c : Nat} {a : α}

theorem mem_share {k : Nat} {kept : List (Nat × α)} :
    (a, c) ∈ share k kept.zipIdx ↔ kept[c]? = some (k, a) := by
  simp only [share, List.mem_map, List.mem_filter, beq_iff_eq]
  constructor
  · rintro ⟨⟨⟨k', a'⟩, c'⟩, ⟨he, rfl⟩, heq⟩
    obtain ⟨rfl, rfl⟩ := Prod.mk.inj heq
    exact List.mem_zipIdx_iff_getElem?.1 he
  · exact fun h => ⟨((k, a), c), ⟨List.mem_zipIdx_iff_getElem?.2 h, rfl⟩, rfl⟩

/-- The shares of all documents make up the beginning of the list of all
items. -/
theorem exists_mem_share :
    (∃ k ∈ List.range docs.length, (a, c)
        ∈ share k ((pool items 0 docs).take bound).zipIdx)
      ↔ ((docs.flatMap items).take bound)[c]? = some a := by
  rw [← map_snd_pool items 0, ← List.map_take, List.getElem?_map]
  simp only [mem_share, Option.map_eq_some_iff]
  constructor
  · rintro ⟨k, -, h⟩
    exact ⟨(k, a), h, rfl⟩
  · rintro ⟨⟨k, a'⟩, h, rfl⟩
    have hmem := List.mem_of_mem_take (List.mem_of_getElem? h)
    exact ⟨k, List.mem_range.2 (by have := le_of_mem_pool hmem; omega), h⟩

end

section

variable {bounds : Bounds} {p : Nat} {v : Vertex} {label : String}

theorem declares_flatType {c : Nat} {t : TypeDecl} :
    Declares (flatType bounds p c t) v label
      ↔ (v = .typeDecl p c ∧ label = typeLabel t)
        ∨ ∃ k m, (t.drawableMethods.take bounds.methodsPerType)[k]? = some m
          ∧ v = .method p c k ∧ label = methodLabel m := by
  rw [flatType, declares_append, declares_declare, declares_link, declares_fan]
  simp

theorem declares_flatContent {docs : List Document} :
    Declares (flatContent bounds p docs) v label
      ↔ (∃ c t, ((docs.flatMap Document.types).take bounds.typesPerProject)[c]?
            = some t
          ∧ Declares (flatType bounds p c t) v label)
        ∨ ∃ f m,
            ((docs.flatMap Document.methods).take bounds.topLevelMethods)[f]?
                = some m
              ∧ v = .topMethod p f ∧ label = topLabel m := by
  simp only [flatContent, shares, declares_flatMap, declares_append,
    declares_map, ← exists_mem_share]
  constructor
  · rintro ⟨k, hk, ⟨⟨t, c⟩, ht, h⟩ | ⟨⟨m, f⟩, hm, h⟩⟩
    · exact .inl ⟨c, t, ⟨k, hk, ht⟩, h⟩
    · exact .inr ⟨f, m, ⟨k, hk, hm⟩, h⟩
  · rintro (⟨c, t, ⟨k, hk, ht⟩, h⟩ | ⟨f, m, ⟨k, hk, hm⟩, h⟩)
    · exact ⟨k, hk, .inl ⟨(t, c), ht, h⟩⟩
    · exact ⟨k, hk, .inr ⟨(m, f), hm, h⟩⟩

theorem declares_flatProject {project : Project} :
    Declares (flatProject bounds p project) v label
      ↔ (v = .project p ∧ label = projectLabel project.name)
        ∨ (v = .documents p ∧ label = "Documents")
        ∨ (∃ k doc, (project.documents.take bounds.docsPerProject)[k]?
            = some doc
          ∧ v = .document p k ∧ label = doc.fileName)
        ∨ Declares (flatContent bounds p
            (project.documents.take bounds.docsPerProject)) v label
        ∨ Declares (chainEdges p project.name) v label := by
  simp only [flatProject, declares_append, declares_declare, not_declares_nil,
    declares_fan, or_false, or_assoc]

theorem declares_document {project : Project} {d : Nat} :
    Declares (flatProject bounds p project) (.document p d) label
      ↔ (project.documents.take bounds.docsPerProject)[d]?.map Document.fileName
        = some label := by
  rw [declares_flatProject, declares_flatContent, Option.map_eq_some_iff]
  simp [declares_flatType, chainEdges, @eq_comm _ label]

theorem declares_typeDecl {project : Project} {c : Nat} :
    Declares (flatProject bounds p project) (.typeDecl p c) label
      ↔ (((project.documents.take bounds.docsPerProject).flatMap
        Document.types).take
        bounds.typesPerProject)[c]?.map typeLabel = some label := by
  rw [declares_flatProject, declares_flatContent, Option.map_eq_some_iff]
  simp [declares_flatType, chainEdges, @eq_comm _ label]

theorem declares_method {project : Project} {c m : Nat} :
    Declares (flatProject bounds p project) (.method p c m) label
      ↔ ((((project.documents.take bounds.docsPerProject).flatMap
          Document.types).take
          bounds.typesPerProject)[c]?.bind
        fun t => (t.drawableMethods.take bounds.methodsPerType)[m]?).map
            methodLabel
          = some label := by
  rw [declares_flatProject, declares_flatContent, Option.map_eq_some_iff]
  simp only [declares_flatType, chainEdges, declares_declare, not_declares_nil,
    Option.bind_eq_some_iff, Vertex.method.injEq, reduceCtorEq, false_and,
    false_or, or_false, and_false, exists_false, true_and]
  constructor
  · rintro ⟨c', t, ht, k, method, hm, ⟨rfl, rfl⟩, rfl⟩
    exact ⟨method, ⟨t, ht, hm⟩, rfl⟩
  · rintro ⟨method, ⟨t, ht, hm⟩, rfl⟩
    exact ⟨c, t, ht, m, method, hm, ⟨rfl, rfl⟩, rfl⟩

theorem declares_topMethod {project : Project} {f : Nat} :
    Declares (flatProject bounds p project) (.topMethod p f) label
      ↔ (((project.documents.take bounds.docsPerProject).flatMap
        Document.methods).take
        bounds.topLevelMethods)[f]?.map topLabel = some label := by
  rw [declares_flatProject, declares_flatContent, Option.map_eq_some_iff]
  simp [declares_flatType, chainEdges, @eq_comm _ label]

/-- What belongs to a project is declared by the edges of that project. -/
theorem declares_edges {solution : Solution} {filter : Option String}
    {project : Project}
    (hproject : (solution.matching filter)[p]? = some project)
    (hv : v.project? = some p) :
    Declares (edges solution bounds filter) v label
      ↔ Declares (flatProject bounds p project) v label := by
  have hpreamble : ¬ Declares preamble v label := fun h => by
    have hmem := h.mem_declared
    rw [declared_preamble] at hmem
    simp only [List.mem_cons, List.not_mem_nil, or_false] at hmem
    rcases hmem with rfl | rfl | rfl | rfl <;> cases hv
  have htrailer : ¬ Declares trailer v label := fun h => by
    have hmem := h.mem_declared
    rw [declared_trailer] at hmem
    simp only [List.mem_cons, List.not_mem_nil, or_false] at hmem
    rcases hmem with rfl | rfl <;> cases hv
  rw [edges_eq, flatEdges, declares_append, declares_append, declares_flatMap]
  constructor
  · rintro ((h | ⟨⟨other, q⟩, hq, h⟩) | h)
    · exact absurd h hpreamble
    · have hmem := h.mem_declared
      rw [← projectEdges_eq] at hmem
      obtain rfl : q = p :=
        Option.some.inj ((mem_declared_projectEdges hmem).symm.trans hv)
      obtain rfl : other = project :=
        Option.some.inj ((List.mem_zipIdx_iff_getElem?.1 hq).symm.trans
          hproject)
      exact h
    · exact absurd h htrailer
  · exact fun h =>
      .inl (.inr ⟨(project, p), List.mem_zipIdx_iff_getElem?.2 hproject, h⟩)

end

/-! ## What a reader sees -/

/-- The labels with which an id is declared on the lines of a text. -/
def labelsIn (text id : String) : List String :=
  (((arrowsIn text).flatMap Arrow.declarations).filter fun d => d.1 == id).map
    Prod.snd

theorem filter_key_eq {l : List (Vertex × String)} (h : (l.map Prod.fst).Nodup)
    {v : Vertex} {o : Option String}
    (ho : ∀ label, (v, label) ∈ l ↔ o = some label) :
    (l.filter fun d => d.1 == v).map Prod.snd = o.toList := by
  induction l with
  | nil =>
      cases o with
      | none => rfl
      | some label => exact absurd ((ho label).2 rfl) List.not_mem_nil
  | cons d l ih =>
      obtain ⟨w, text⟩ := d
      rw [List.map_cons, List.nodup_cons] at h
      by_cases hw : w = v
      · subst hw
        obtain rfl := (ho text).1 List.mem_cons_self
        have hrest : (l.filter fun d => d.1 == w) = [] := by
          refine List.filter_eq_nil_iff.2 fun d hd hkey => h.1 ?_
          exact List.mem_map.2 ⟨d, hd, by simpa using hkey⟩
        simp [hrest]
      · have hne : (w == v) = false := by simpa using hw
        rw [List.filter_cons, hne]
        refine ih h.2 fun label => ?_
        rw [← ho label, List.mem_cons]
        simp [Ne.symm hw]

theorem labelsIn_markup {solution : Solution} {bounds : Bounds}
    {filter : Option String} {v : Vertex} {o : Option String}
    (h : ∀ label, Declares (edges solution bounds filter) v label
      ↔ o = some label) :
    labelsIn (markup solution bounds filter) v.id
      = (o.map Text.inLabel).toList := by
  have hkeys := filter_key_eq (nodup_edges solution bounds filter) h
  have hid : ∀ w : Vertex, (w.id == v.id) = (w == v) := by
    intro w
    by_cases hw : w = v
    · simp [hw]
    · rw [beq_eq_false_iff_ne.2 hw, beq_eq_false_iff_ne.2 fun heq =>
        hw (Vertex.id_injective heq)]
  have hread :
      (arrowsIn (markup solution bounds filter)).flatMap Arrow.declarations
        = ((edges solution bounds filter).flatMap Edge.declarations).map
          fun d => (d.1.id, Text.inLabel d.2) := by
    rw [arrowsIn_markup, List.flatMap_map, List.map_flatMap]
    simp only [Edge.declarations_told]
  rw [labelsIn, hread, List.filter_map, List.map_map]
  simp only [Function.comp_def, hid]
  have hlabels := congrArg (List.map Text.inLabel) hkeys
  rw [List.map_map] at hlabels
  rw [Option.toList_map]
  exact hlabels

/-- The numbered ids of a project carry the labels of its documents and of
prefixes of their contents. -/
structure ShowsPrefixes (bounds : Bounds) (p : Nat) (docs : List Document)
    (text : String) : Prop where
  documents : ∀ d, labelsIn text (Vertex.document p d).id
    = (docs[d]?.map fun doc => Text.inLabel doc.fileName).toList
  types : ∀ c, labelsIn text (Vertex.typeDecl p c).id
    = (((docs.flatMap Document.types).take bounds.typesPerProject)[c]?.map
      fun t => Text.inLabel (typeLabel t)).toList
  methods : ∀ c m, labelsIn text (Vertex.method p c m).id
    = ((((docs.flatMap Document.types).take bounds.typesPerProject)[c]?.bind
        fun t => (t.drawableMethods.take bounds.methodsPerType)[m]?).map
      fun method => Text.inLabel (methodLabel method)).toList
  topMethods : ∀ f, labelsIn text (Vertex.topMethod p f).id
    = (((docs.flatMap Document.methods).take bounds.topLevelMethods)[f]?.map
      fun method => Text.inLabel (topLabel method)).toList

/-- The markup is the one that is built from prefixes, and its ids show these
prefixes. -/
theorem truncation_keeps_prefixes (solution : Solution) (bounds : Bounds)
    (filter : Option String) :
    markup solution bounds filter
        = Markup.render 1 (.header .topDown
          :: (flatEdges solution bounds filter).map Edge.line)
      ∧ ∀ p project, (solution.matching filter)[p]? = some project →
        ShowsPrefixes bounds p (project.documents.take bounds.docsPerProject)
          (markup solution bounds filter) := by
  refine ⟨by rw [markup, edges_eq], fun p project hproject => ⟨?_, ?_, ?_, ?_⟩⟩
  · intro d
    rw [labelsIn_markup fun label =>
      ((declares_edges hproject rfl).trans declares_document),
      Option.map_map]
    rfl
  · intro c
    rw [labelsIn_markup fun label =>
      ((declares_edges hproject rfl).trans declares_typeDecl),
      Option.map_map]
    rfl
  · intro c m
    rw [labelsIn_markup fun label =>
      ((declares_edges hproject rfl).trans declares_method),
      Option.map_map]
    rfl
  · intro f
    rw [labelsIn_markup fun label =>
      ((declares_edges hproject rfl).trans declares_topMethod),
      Option.map_map]
    rfl

/-- Three types in two documents, and a project for which two of them are
kept. -/
def spreadProject : Project where
  name := "P"
  documents := [
    { name := "src/a.cs"
      types :=
        [{ name := "A", methods :=
          [{ name := "M", hasBody := false }, { name := "N" }] }] },
    { name := "b.cs", types := [{ name := "B" }, { name := "C" }],
      methods := [{ name := "main" }] }]

def spreadBounds : Bounds :=
  { typesPerProject := 2, methodsPerType := 1, topLevelMethods := 0 }

theorem spread_types_cut :
    (Solution.matching ⟨"", [spreadProject]⟩ none)[0]? = some spreadProject
      ∧ labelsIn (markup ⟨"", [spreadProject]⟩ spreadBounds none)
          (Vertex.typeDecl 0 1).id
        = ["Class: B"]
      ∧ labelsIn (markup ⟨"", [spreadProject]⟩ spreadBounds none)
        (Vertex.typeDecl 0 2).id = []
      ∧ labelsIn (markup ⟨"", [spreadProject]⟩ spreadBounds none)
          (Vertex.method 0 0 0).id
        = ["Method: N()"] := by
  have h :=
    (truncation_keeps_prefixes ⟨"", [spreadProject]⟩ spreadBounds none).2 0
      spreadProject rfl
  exact ⟨rfl, (h.types 1).trans (by decide), (h.types 2).trans (by decide),
    (h.methods 0 0).trans (by decide)⟩

end FlowAtlas.Architecture
