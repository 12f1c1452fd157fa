import FlowAtlas.Hierarchy.Codec
import FlowAtlas.Proofs.Json.Rewriting

/-!
# Snapshots whose graphs were overwritten

A snapshot records a graph with each method. Here the texts of some of these
graphs are replaced by the texts of any other values. The snapshot can be read
as before, and what it says is the same apart from the records of these methods,
which are what the new texts say by themselves.

Two things are asked of a new value. It fits: the text has so many levels of
lists and objects only, some of which are taken by what stands around the
method, and a number has to be one that can be held. And it is paired: a string
with half a pair of code units says no text. Such a string is well-formed JSON
and yet no value to keep, so it spoils the whole snapshot
(`Solution.unpaired_record_spoils`).

A method is overwritten in its type or its document, these in their project, and
so on up to the snapshot. Each step is one field of one record, and says nothing
about the other fields but that they stay.
-/

namespace FlowAtlas

open Json

/-! ## Overwriting the graphs -/

/-- Where a method stands in a solution. -/
structure MethodPlace where
  project : Nat
  document : Nat
  /-- The type, unless the method belongs to none. -/
  type : Option Nat
  method : Nat

/-- How many levels of lists and objects there is room for in the graph of a
method. Of the levels of a text, the method of a document leaves so many, and
the method of a type two less. -/
def MethodPlace.room (place : MethodPlace) : Nat :=
  match place.type with
  | none => 120
  | some _ => 118

/-- The names of the fields of a record. -/
def Json.Record.names {α : Type} (r : Record α) : List String :=
  r.fields.map Prod.fst

/-- What becomes of the fields of a method whose graph is overwritten, if there
is a value for it. -/
def Method.regraphField (value : Option Layout) (key : String) (l : Layout) :
    Layout :=
  match key with
  | "cfg" => value.getD l
  | _ => l

/-- A method with its graph overwritten. -/
def Method.regraph (value : Option Layout) : Layout → Layout :=
  Layout.overFields Method.record.names (Method.regraphField value)

def TypeDecl.regraphField (values : Nat → Option Layout) (key : String)
    (l : Layout) : Layout :=
  match key with
  | "methods" => l.overItems fun i => Method.regraph (values i)
  | _ => l

def TypeDecl.regraph (values : Nat → Option Layout) : Layout → Layout :=
  Layout.overFields TypeDecl.record.names (TypeDecl.regraphField values)

def Document.regraphField (values : Option Nat → Nat → Option Layout)
    (key : String) (l : Layout) : Layout :=
  match key with
  | "types" => l.overItems fun i => TypeDecl.regraph (values (some i))
  | "methods" => l.overItems fun i => Method.regraph (values none i)
  | _ => l

def Document.regraph (values : Option Nat → Nat → Option Layout) :
    Layout → Layout :=
  Layout.overFields Document.record.names (Document.regraphField values)

def Project.regraphField (values : Nat → Option Nat → Nat → Option Layout)
    (key : String) (l : Layout) : Layout :=
  match key with
  | "documents" => l.overItems fun i => Document.regraph (values i)
  | _ => l

def Project.regraph (values : Nat → Option Nat → Nat → Option Layout) :
    Layout → Layout :=
  Layout.overFields Project.record.names (Project.regraphField values)

/-- The values for the methods of one project. -/
def inProject (values : MethodPlace → Option Layout) (project document : Nat)
    (type : Option Nat) (method : Nat) : Option Layout :=
  values ⟨project, document, type, method⟩

def Solution.regraphField (values : MethodPlace → Option Layout) (key : String)
    (l : Layout) : Layout :=
  match key with
  | "projects" => l.overItems fun i => Project.regraph (inProject values i)
  | _ => l

/-- A solution with the graphs of its methods overwritten. -/
def Solution.regraph (values : MethodPlace → Option Layout) : Layout → Layout :=
  Layout.overFields Solution.record.names (Solution.regraphField values)

/-- A text with the graphs of its methods overwritten. -/
def Json.Sheet.regraph (values : MethodPlace → Option Layout) (sheet : Sheet) :
    Sheet :=
  { sheet with value := Solution.regraph values sheet.value }

/-- The values that may be put in the place of graphs. -/
def Allowed (values : MethodPlace → Option Layout) : Prop :=
  ∀ place, ∀ v ∈ values place, v.Fits place.room ∧ v.Paired

/-! ## What may change -/

/-- What is recorded for a method whose graph is this value. -/
def Json.Layout.Records (value : Layout) (recorded : Option RecordedGraph) :
    Prop :=
  decodeText (fun source => decodeOption (RecordedGraph.decode source))
    (String.ofList value.chars) = .ok recorded

/-- A method before and after its graph was overwritten. A method without a
graph in the text has none afterwards. -/
structure Method.Regraphed (value : Option Layout) (m m' : Method) : Prop where
  name : m'.name = m.name
  hasBody : m'.hasBody = m.hasBody
  recorded : match value with
    | none => m'.recorded = m.recorded
    | some value => value.Records m'.recorded
        ∨ m.recorded = none ∧ m'.recorded = none

structure TypeDecl.Regraphed (values : Nat → Option Layout) (t t' : TypeDecl) :
    Prop where
  name : t'.name = t.name
  kind : t'.kind = t.kind
  methods :
    Placewise (fun i => Method.Regraphed (values i)) t.methods t'.methods

structure Document.Regraphed (values : Option Nat → Nat → Option Layout)
    (d d' : Document) : Prop where
  name : d'.name = d.name
  types :
    Placewise (fun i => TypeDecl.Regraphed (values (some i))) d.types d'.types
  methods :
    Placewise (fun i => Method.Regraphed (values none i)) d.methods d'.methods

structure Project.Regraphed (values : Nat → Option Nat → Nat → Option Layout)
    (p p' : Project) : Prop where
  name : p'.name = p.name
  documents : Placewise (fun i => Document.Regraphed (values i))
    p.documents p'.documents
  diagnostics : p'.diagnostics = p.diagnostics

structure Solution.Regraphed (values : MethodPlace → Option Layout)
    (s s' : Solution) : Prop where
  name : s'.name = s.name
  projects : Placewise (fun i => Project.Regraphed (inProject values i))
    s.projects s'.projects

/-! ## The graph itself -/

theorem enter_text_succ
    (n : Nat) : (Source.text (n + 2)).enter = .ok (.text (n + 1)) := by
  rw [Source.enter, if_neg (by omega)]
  rfl

theorem RecordedGraph.exists_holds {source : Source} {node : Node}
    {r : Option RecordedGraph}
    (h : decodeOption (RecordedGraph.decode source) node = .ok r) :
    ∃ v, node.Holds v := by
  by_cases hnull : node = .null
  · exact ⟨.null, by rw [hnull]; rfl⟩
  · rw [decodeOption_of_ne_null hnull] at h
    obtain ⟨b, hb, -⟩ := map_eq_ok h
    obtain ⟨v, hv, -⟩ := bind_eq_ok hb
    exact ⟨v, holds_of_decodeAny node hv⟩

/-- A record that can be read is the same wherever the tree comes from. -/
theorem RecordedGraph.decodeOption_congr {source source' : Source} {node : Node}
    {v v' : Json} (h : decodeAny source node = .ok v)
    (h' : decodeAny source' node = .ok v') :
    decodeOption (RecordedGraph.decode source) node
      = decodeOption (RecordedGraph.decode source') node := by
  have hv : v = v' :=
    Except.ok.inj ((holds_of_decodeAny node h).symm.trans
      (holds_of_decodeAny node h'))
  by_cases hnull : node = .null
  · rw [hnull]
    rfl
  · rw [decodeOption_of_ne_null hnull, decodeOption_of_ne_null hnull,
      RecordedGraph.decode, RecordedGraph.decode, h, h', hv]

/-- A value that fits and is paired is recorded, whatever it is. -/
theorem RecordedGraph.exists_records {value : Layout} {n : Nat}
    (hfits : value.Fits n) (hpaired : value.Paired) {source : Source}
    (hs : source.Admits n) (hn : n < 128) {node : Node}
    (hread : ReadAs value node) :
    ∃ r, decodeOption (RecordedGraph.decode source) node = .ok r
      ∧ value.Records r := by
  obtain ⟨v, hv⟩ := hread.decodeAny_eq_ok hfits hpaired hs
  obtain ⟨v', hv'⟩ :=
    hread.decodeAny_eq_ok hfits hpaired (show Source.wholeText.Admits n from hn)
  obtain ⟨r, hr⟩ : ∃ r,
      decodeOption (RecordedGraph.decode source) node = .ok r := by
    by_cases hnull : node = .null
    · exact ⟨none, by rw [hnull]; rfl⟩
    · rw [decodeOption_of_ne_null hnull, RecordedGraph.decode, hv, ok_bind]
      cases ControlFlowGraph.decode .value node with
      | ok g => exact ⟨_, rfl⟩
      | error refusal => exact ⟨_, rfl⟩
  refine ⟨r, hr, ?_⟩
  -- By itself the value has all the levels of a text, and is read as the same
  -- tree.
  obtain ⟨alone, halone, hdecode⟩ :=
    Sheet.decodeText_eq ⟨⟨[], spaces_nil⟩, value, ⟨[], spaces_nil⟩⟩
  rw [Sheet.text, List.nil_append, List.append_nil] at hdecode
  rw [Layout.Records, hdecode,
    hread.eq_of_holds halone (holds_of_decodeAny node hv),
    ← RecordedGraph.decodeOption_congr hv hv', hr]

/-! ## Each level of the hierarchy -/

theorem Method.retains {value : Option Layout} {n : Nat} (hn : n < 128)
    (hvalue : ∀ v ∈ value, v.Fits n ∧ v.Paired) :
    Method.record.Retains (Regraphed value) (.text (n + 1))
      (regraphField value) := by
  intro key l node node' m m' b hread hread' hrel hput
  simp only [Method.record] at hput ⊢
  split at hput
  · obtain ⟨name, name', rfl, hput', rfl⟩ :=
      transfers_string.map_eq hread hread' hput fun name => { m' with name }
    exact ⟨_, hput', rfl, hrel.hasBody, hrel.recorded⟩
  · obtain ⟨hasBody, hasBody', rfl, hput', rfl⟩ :=
      transfers_bool.map_eq hread hread' hput fun hasBody => { m' with hasBody }
    exact ⟨_, hput', hrel.name, rfl, hrel.recorded⟩
  · cases value with
    | none =>
        obtain ⟨r, r', rfl, hput', rfl⟩ :=
          (transfers_of_holds fun _ _ => RecordedGraph.exists_holds).map_eq
            hread hread' hput
            fun recorded => { m' with recorded }
        exact ⟨_, hput', hrel.name, hrel.hasBody, rfl⟩
    | some v =>
        -- What was recorded before does not matter: the new value is read by
        -- itself.
        obtain ⟨hfits, hpaired⟩ := hvalue v rfl
        obtain ⟨r, -, rfl⟩ := map_eq_ok hput
        obtain ⟨r', hr', hrecords⟩ :=
          RecordedGraph.exists_records hfits hpaired
            (show (Source.text (n + 1)).Admits n from Nat.lt_succ_self n) hn
            hread'
        exact ⟨{ m' with recorded := r' }, by rw [hr']; rfl, hrel.name,
          hrel.hasBody, .inl hrecords⟩
  · obtain rfl := Except.ok.inj hput
    exact ⟨m', rfl, hrel⟩

theorem Method.transfers {value : Option Layout} {n : Nat} (hn : n < 128)
    (hvalue : ∀ v ∈ value, v.Fits n ∧ v.Paired) :
    Transfers (Regraphed value) (Method.record.decode (.text (n + 2)))
      (regraph value) := by
  refine (Method.retains hn hvalue).transfers (enter_text_succ n) ⟨rfl, rfl, ?_⟩
  cases value with
  | none => rfl
  | some v => exact .inr ⟨rfl, rfl⟩

theorem TypeDecl.retains {values : Nat → Option Layout} {n : Nat} (hn : n < 128)
    (hvalues : ∀ i, ∀ v ∈ values i, v.Fits n ∧ v.Paired) :
    TypeDecl.record.Retains (Regraphed values) (.text (n + 3))
      (regraphField values) := by
  intro key l node node' t t' b hread hread' hrel hput
  simp only [TypeDecl.record] at hput ⊢
  split at hput
  · obtain ⟨name, name', rfl, hput', rfl⟩ :=
      transfers_string.map_eq hread hread' hput fun name => { t' with name }
    exact ⟨_, hput', rfl, hrel.kind, hrel.methods⟩
  · obtain ⟨kind, kind', rfl, hput', rfl⟩ :=
      (transfers_choice TypeKind.choices (n + 3)).map_eq hread hread' hput
        fun kind => { t' with kind }
    exact ⟨_, hput', hrel.name, rfl, hrel.methods⟩
  · obtain ⟨methods, methods', rfl, hput', hmethods⟩ :=
      (Transfers.list (enter_text_succ (n + 1)) fun i =>
        Method.transfers hn (hvalues i)).map_eq hread hread' hput
          fun methods => { t' with methods }
    exact ⟨_, hput', hrel.name, hrel.kind, hmethods⟩
  · obtain rfl := Except.ok.inj hput
    exact ⟨t', rfl, hrel⟩

theorem TypeDecl.transfers {values : Nat → Option Layout} {n : Nat}
    (hn : n < 128) (hvalues : ∀ i, ∀ v ∈ values i, v.Fits n ∧ v.Paired) :
    Transfers (Regraphed values) (TypeDecl.record.decode (.text (n + 4)))
      (regraph values) :=
  (TypeDecl.retains hn hvalues).transfers (enter_text_succ (n + 2))
    ⟨rfl, rfl, placewise_nil _⟩

theorem Document.retains {values : Option Nat → Nat → Option Layout} {n : Nat}
    (hn : n + 2 < 128)
    (htypes : ∀ i j, ∀ v ∈ values (some i) j, v.Fits n ∧ v.Paired)
    (hmethods : ∀ j, ∀ v ∈ values none j, v.Fits (n + 2) ∧ v.Paired) :
    Document.record.Retains (Regraphed values) (.text (n + 5))
      (regraphField values) := by
  intro key l node node' d d' b hread hread' hrel hput
  simp only [Document.record] at hput ⊢
  split at hput
  · obtain ⟨name, name', rfl, hput', rfl⟩ :=
      transfers_string.map_eq hread hread' hput fun name => { d' with name }
    exact ⟨_, hput', rfl, hrel.types, hrel.methods⟩
  · obtain ⟨types, types', rfl, hput', htypes⟩ :=
      (Transfers.list (enter_text_succ (n + 3)) fun i =>
        TypeDecl.transfers (by omega) (htypes i)).map_eq hread hread' hput
          fun types => { d' with types }
    exact ⟨_, hput', hrel.name, htypes, hrel.methods⟩
  · obtain ⟨methods, methods', rfl, hput', hmethods⟩ :=
      (Transfers.list (enter_text_succ (n + 3)) fun i =>
        Method.transfers hn (hmethods i)).map_eq hread hread' hput
          fun methods => { d' with methods }
    exact ⟨_, hput', hrel.name, hrel.types, hmethods⟩
  · obtain rfl := Except.ok.inj hput
    exact ⟨d', rfl, hrel⟩

theorem Document.transfers {values : Option Nat → Nat → Option Layout} {n : Nat}
    (hn : n + 2 < 128)
    (htypes : ∀ i j, ∀ v ∈ values (some i) j, v.Fits n ∧ v.Paired)
    (hmethods : ∀ j, ∀ v ∈ values none j, v.Fits (n + 2) ∧ v.Paired) :
    Transfers (Regraphed values) (Document.record.decode (.text (n + 6)))
      (regraph values) :=
  (Document.retains hn htypes hmethods).transfers (enter_text_succ (n + 4))
    ⟨rfl, placewise_nil _, placewise_nil _⟩

theorem Project.retains {values : MethodPlace → Option Layout}
    (h : Allowed values) (project : Nat) :
    Project.record.Retains (Regraphed (inProject values project)) (.text 125)
      (regraphField (inProject values project)) := by
  intro key l node node' p p' b hread hread' hrel hput
  simp only [Project.record] at hput ⊢
  split at hput
  · obtain ⟨name, name', rfl, hput', rfl⟩ :=
      transfers_string.map_eq hread hread' hput fun name => { p' with name }
    exact ⟨_, hput', rfl, hrel.documents, hrel.diagnostics⟩
  · obtain ⟨documents, documents', rfl, hput', hdocuments⟩ :=
      (Transfers.list (enter_text_succ 123) fun i =>
        Document.transfers (n := 118) (by decide)
          (fun t j => h ⟨project, i, some t, j⟩)
          fun j => h ⟨project, i, none, j⟩).map_eq hread hread' hput
            fun documents => { p' with documents }
    exact ⟨_, hput', hrel.name, hdocuments, hrel.diagnostics⟩
  · obtain ⟨diagnostics, diagnostics', rfl, hput', rfl⟩ :=
      (transfers_strings (.text 125)).map_eq hread hread' hput
        fun diagnostics => { p' with diagnostics }
    exact ⟨_, hput', hrel.name, hrel.documents, rfl⟩
  · obtain rfl := Except.ok.inj hput
    exact ⟨p', rfl, hrel⟩

theorem Project.transfers {values : MethodPlace → Option Layout}
    (h : Allowed values) (project : Nat) :
    Transfers (Regraphed (inProject values project))
      (Project.record.decode (.text 126))
      (regraph (inProject values project)) :=
  (Project.retains h project).transfers (enter_text_succ 124)
    ⟨rfl, placewise_nil _, rfl⟩

theorem Solution.retains {values : MethodPlace → Option Layout}
    (h : Allowed values) :
    Solution.record.Retains (Regraphed values) (.text 127)
      (regraphField values) := by
  intro key l node node' s s' b hread hread' hrel hput
  simp only [Solution.record] at hput ⊢
  split at hput
  · obtain ⟨name, name', rfl, hput', rfl⟩ :=
      transfers_string.map_eq hread hread' hput fun name => { s' with name }
    exact ⟨_, hput', rfl, hrel.projects⟩
  · obtain ⟨projects, projects', rfl, hput', hprojects⟩ :=
      (Transfers.list (enter_text_succ 125) fun i =>
        Project.transfers h i).map_eq
        hread hread' hput fun projects => { s' with projects }
    exact ⟨_, hput', hrel.name, hprojects⟩
  · obtain rfl := Except.ok.inj hput
    exact ⟨s', rfl, hrel⟩

theorem Solution.transfers {values : MethodPlace → Option Layout}
    (h : Allowed values) :
    Transfers (Regraphed values) (Solution.record.decode .wholeText)
      (regraph values) :=
  (Solution.retains h).transfers (enter_text_succ 126) ⟨rfl, placewise_nil _⟩

/-! ## The snapshot -/

/-- A snapshot is a text with a layout. In whatever way it is laid out, it can
be read after its graphs were overwritten, and nothing else in it is
different. -/
theorem Solution.regraphed_snapshot_is_read {text : String} {s : Solution}
    (hread : Solution.ofText text = .ok s) :
    (∃ sheet : Sheet, sheet.text = text) ∧
      ∀ sheet : Sheet, sheet.text = text → ∀ values, Allowed values →
        ∃ s', Solution.ofText (sheet.regraph values).text = .ok s'
          ∧ s.Regraphed values s' := by
  refine ⟨exists_sheet hread, ?_⟩
  rintro sheet rfl values hvalues
  obtain ⟨node, hnode, hdecode⟩ := sheet.decodeText_eq
  obtain ⟨node', hnode', hdecode'⟩ := (sheet.regraph values).decodeText_eq
  rw [Solution.ofText, hdecode] at hread
  obtain ⟨s', hs', hrel⟩ :=
    Solution.transfers hvalues _ _ _ _ hnode hnode' hread
  exact ⟨s', (hdecode' _).trans hs', hrel⟩

namespace Solution

/-- A string that is written without escapes. -/
def plainString (s : String) : List Stroke :=
  s.toList.filterMap fun c =>
    if h : c ≠ '"' ∧ c ≠ '\\' ∧ ¬ c.toNat < 0x20 then
      some (.plain c h.1 h.2.1 h.2.2) else none

/-- No space. -/
def tight : Gap := ⟨[], spaces_nil⟩

/-- An object that is written without space. -/
def tightObject (members : List (String × Layout)) : Layout :=
  .object (members.map fun m =>
    ⟨tight, tight, plainString m.1, tight, tight, m.2⟩) tight

/-- A list of one item that is written without space. -/
def tightList (item : Layout) : Layout := .array [⟨tight, tight, item⟩] tight

/-- A snapshot with one method, whose graph is the given value. -/
def sheetOf (graph : Layout) : Sheet where
  lead := tight
  value := tightObject [("projects", tightList (tightObject [
    ("name", .string (plainString "P")),
    ("documents", tightList (tightObject [
      ("name", .string (plainString "D")),
      ("methods", tightList (tightObject [
        ("cfg", graph), ("name", .string (plainString "M"))]))]))]))]
  trail := tight

/-- What this snapshot says apart from the graph. -/
def ofRecord (recorded : Option RecordedGraph) : Solution where
  projects := [{
    name := "P"
    documents := [{ name := "D", methods := [{ name := "M", recorded }] }] }]

/-- A graph without blocks. -/
def emptyGraph : Layout := tightObject [("blocks", .array [] tight)]

/-- A value that is no graph, though it looks like one. -/
def blocksOnly : Layout := tightObject [("blocks", .bool true)]

theorem allowed_blocksOnly : Allowed fun _ => some blocksOnly := by
  rintro ⟨project, document, type, method⟩ v ⟨⟩
  constructor
  · cases type <;> exact .object (List.forall_mem_singleton.2 (.bool true))
  · exact .object (List.forall_mem_singleton.2 (by decide +kernel))
      (List.forall_mem_singleton.2 (.bool true))

theorem ofText_sheetOf_emptyGraph :
    ofText (sheetOf emptyGraph).text
      = .ok (ofRecord (some (.parsed ⟨[]⟩))) := by
  decide +kernel

theorem regraphed_with_blocks_only :
    ofText (sheetOf emptyGraph).text = .ok (ofRecord (some (.parsed ⟨[]⟩)))
      ∧ ∃ s', ofText (sheetOf blocksOnly).text = .ok s'
          ∧ (ofRecord (some (.parsed ⟨[]⟩))).Regraphed
            (fun _ => some blocksOnly) s' := by
  have hregraph : ((sheetOf emptyGraph).regraph fun _ => some blocksOnly).text
      = (sheetOf blocksOnly).text := by decide +kernel
  obtain ⟨-, hregraphed⟩ := regraphed_snapshot_is_read ofText_sheetOf_emptyGraph
  refine ⟨ofText_sheetOf_emptyGraph, ?_⟩
  rw [← hregraph]
  exact hregraphed _ rfl _ allowed_blocksOnly

/-- Half a pair of code units. -/
def halfPair : Layout := .string [.unit 'd' '8' '0' '0' 0xD800 (by decide)]

/-- If strings need not be paired, a value in the place of a graph can spoil the
snapshot. -/
theorem unpaired_record_spoils :
    ¬ ∀ text s, ofText text = .ok s → ∀ sheet : Sheet, sheet.text = text →
      ∀ values : MethodPlace → Option Layout,
        (∀ place, ∀ v ∈ values place, v.Fits place.room) →
        ∃ s', ofText (sheet.regraph values).text = .ok s'
          ∧ s.Regraphed values s' := by
  intro h
  have hfits : ∀ place,
      ∀ v ∈ (fun _ => some halfPair : MethodPlace → Option Layout) place,
        v.Fits place.room := by
    rintro place v ⟨⟩
    exact .string _
  have hspoilt :
      (ofText ((sheetOf emptyGraph).regraph fun _ => some halfPair).text).isOk
        = false := by decide +kernel
  obtain ⟨s', hs', -⟩ :=
    h _ _ ofText_sheetOf_emptyGraph (sheetOf emptyGraph) rfl _ hfits
  rw [hs'] at hspoilt
  exact Bool.noConfusion hspoilt

end Solution

end FlowAtlas
